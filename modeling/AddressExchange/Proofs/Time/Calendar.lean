import AddressExchange.Time.Calendar

/-!
# Every day has its date

The date of a count of days exists, and stands for that count of days.
-/

namespace AddressExchange.Date

/-! ## Years -/

theorem daysBeforeYear_mono {a b : Int} (h : a ≤ b) : daysBeforeYear a ≤ daysBeforeYear b := by
  simp only [daysBeforeYear]
  omega

/-- The mean length of a year leads to the year or to one beside it. -/
theorem yearOf_bounds (days : Int) :
    daysBeforeYear (yearOf days) ≤ days ∧ days < daysBeforeYear (yearOf days + 1) := by
  -- Four hundred years have 146097 days, so the guess is off by one year at most.
  have hguess : daysBeforeYear (days * 400 / 146097 - 1) ≤ days ∧
      days < daysBeforeYear (days * 400 / 146097 + 1 + 1) := by
    simp only [daysBeforeYear]
    omega
  unfold yearOf
  dsimp only
  split
  · next hlt => exact ⟨hguess.1, by rw [Int.sub_add_cancel]; exact hlt⟩
  next hge =>
  split
  · next hle => exact ⟨hle, hguess.2⟩
  · next hlt => exact ⟨by omega, by omega⟩

theorem yearOf_mem {low high days : Int} (hlow : daysBeforeYear low ≤ days)
    (hhigh : days < daysBeforeYear (high + 1)) : low ≤ yearOf days ∧ yearOf days ≤ high := by
  obtain ⟨hstart, hend⟩ := yearOf_bounds days
  constructor
  · refine Int.not_lt.mp fun hlt => ?_
    have := daysBeforeYear_mono (a := yearOf days + 1) (b := low) (by omega)
    omega
  · refine Int.not_lt.mp fun hlt => ?_
    have := daysBeforeYear_mono (a := high + 1) (b := yearOf days) (by omega)
    omega

/-! ## Months -/

theorem daysBeforeMonth_succ (year : Int) {month : Nat} (h : 1 ≤ month) :
    daysBeforeMonth year (month + 1) = daysBeforeMonth year month + monthLength year month := by
  obtain ⟨m, rfl⟩ : ∃ m, month = m + 1 := ⟨month - 1, by omega⟩
  simp [daysBeforeMonth, List.range_succ]

/-- Twelve months make a year. -/
theorem daysBeforeMonth_thirteen (year : Int) :
    (daysBeforeMonth year 13 : Int) = daysBeforeYear (year + 1) - daysBeforeYear year := by
  have hmonths : daysBeforeMonth year 13 = if isLeapYear year then 366 else 365 := by
    cases h : isLeapYear year <;> simp [daysBeforeMonth, List.range, List.range.loop, monthLength, h]
  rw [hmonths]
  simp only [daysBeforeYear]
  split
  · next h =>
    simp [isLeapYear] at h
    omega
  · next h =>
    simp [isLeapYear] at h
    omega

theorem inYear_spec {year : Int} {month rest : Nat} (left : Nat) (hm : 1 ≤ month)
    (hrest : daysBeforeMonth year month + rest < daysBeforeMonth year (month + left + 1)) :
    let date := inYear year month rest left
    date.year = year ∧ month ≤ date.month ∧ date.month ≤ month + left ∧ 1 ≤ date.day ∧
      date.day ≤ monthLength year date.month ∧
      daysBeforeMonth year date.month + date.day = daysBeforeMonth year month + rest + 1 := by
  -- The months are tried from the first on; the bound says that the last one is long enough.
  induction left generalizing month rest with
  | zero =>
    rw [daysBeforeMonth_succ year (by omega)] at hrest
    exact ⟨rfl, Nat.le_refl _, Nat.le_refl _, by simp [inYear], by simp [inYear]; omega, rfl⟩
  | succ left ih =>
    rw [inYear]
    split
    · next hlt =>
      refine ⟨rfl, Nat.le_refl _, by simp, by simp, by simp; omega, rfl⟩
    · next hge =>
      have hnext := daysBeforeMonth_succ year hm
      have hrest' : daysBeforeMonth year (month + 1) + (rest - monthLength year month) <
          daysBeforeMonth year (month + 1 + left + 1) := by
        rw [hnext, show month + 1 + left + 1 = month + (left + 1) + 1 by omega]
        omega
      obtain ⟨hy, hlow, hhigh, hday, hlen, hsum⟩ := ih (Nat.le_add_left 1 month) hrest'
      exact ⟨hy, by omega, by omega, hday, hlen, by omega⟩

/-! ## Dates -/

theorem isValid_iff {d : Date} :
    d.isValid = true ↔ (1 ≤ d.month ∧ d.month ≤ 12) ∧ 1 ≤ d.day ∧ d.day ≤ monthLength d.year d.month := by
  simp [isValid, and_assoc]

theorem monthLength_le (year : Int) (month : Nat) : monthLength year month ≤ 31 := by
  unfold monthLength
  split
  · split <;> decide
  all_goals decide

theorem ofDays_spec (days : Int) :
    (ofDays days).year = yearOf (days + epoch) ∧ (ofDays days).isValid = true ∧
      (ofDays days).toDays = days := by
  -- The days since the new year are fewer than all twelve months have.
  obtain ⟨hlow, hhigh⟩ := yearOf_bounds (days + epoch)
  have hyear := daysBeforeMonth_thirteen (yearOf (days + epoch))
  have hfirst : daysBeforeMonth (yearOf (days + epoch)) 1 = 0 := rfl
  have hrest : daysBeforeMonth (yearOf (days + epoch)) 1 +
      (days + epoch - daysBeforeYear (yearOf (days + epoch))).toNat <
        daysBeforeMonth (yearOf (days + epoch)) 13 := by
    omega
  obtain ⟨hy, hm, hm', hd, hd', hsum⟩ := inYear_spec 11 (Nat.le_refl 1) hrest
  refine ⟨hy, ?_, ?_⟩
  · rw [isValid_iff, ofDays, hy]
    exact ⟨⟨hm, hm'⟩, hd, hd'⟩
  · simp only [toDays, ofDays, hy]
    omega

end AddressExchange.Date
