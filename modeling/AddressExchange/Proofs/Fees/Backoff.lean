import AddressExchange.Fees.Schedule
import Mathlib.Algebra.Group.Nat.Defs

/-!
# The length of waits

Products and powers that saturate come to the exact number or to the greatest one of 64 bits, whichever
is less. So the capped wait is the exact one: the base, doubled after each attempt, or the bound. What is
added to it is less than a tenth, but the sum does not saturate, and goes beyond 64 bits where the bound
leaves no room for a tenth.
-/

namespace AddressExchange

/-! ## Numbers that saturate -/

namespace Saturating

/-- A product stops where it would if its factors had not stopped there before. -/
theorem min_mul_min (x y m : Nat) : min (min x m * min y m) m = min (x * y) m := by
  -- A factor at the bound makes a product at the bound, unless the other one is zero.
  have hstop (x y : Nat) (hx : m ≤ x) : min (m * min y m) m = min (x * y) m := by
    rcases Nat.eq_zero_or_pos y with rfl | hy
    · simp
    · have hproduct : m ≤ x * y := Nat.le_trans hx (Nat.le_mul_of_pos_right x hy)
      rcases Nat.eq_zero_or_pos m with rfl | hm
      · simp
      · have hcut : m ≤ m * min y m := Nat.le_mul_of_pos_right m (Nat.lt_min.mpr ⟨hy, hm⟩)
        rw [Nat.min_eq_right hcut, Nat.min_eq_right hproduct]
  rcases Nat.le_total m x with hx | hx
  · rw [Nat.min_eq_right hx, hstop x y hx]
  rcases Nat.le_total m y with hy | hy
  · rw [Nat.min_eq_right hy, Nat.mul_comm, hstop y x hy, Nat.mul_comm]
  · rw [Nat.min_eq_left hx, Nat.min_eq_left hy]

theorem toNat_multiply (a b : UInt64) :
    (multiply a b).toNat = min (a.toNat * b.toNat) (2 ^ 64 - 1) := by
  have hsize : UInt64.size = 2 ^ 64 := rfl
  have htop : top.toNat = 2 ^ 64 - 1 := rfl
  rw [multiply]
  split
  · next h =>
    rw [UInt64.toNat_mul, Nat.mod_eq_of_lt (hsize ▸ h)]
    omega
  · omega

theorem toNat_min (a b : UInt64) : (min a b).toNat = min a.toNat b.toNat := by
  have hmin : min a b = if a ≤ b then a else b := rfl
  rw [hmin]
  split
  · next h => exact (Nat.min_eq_left (UInt64.le_iff_toNat_le.mp h)).symm
  · next h =>
    rw [UInt64.not_le, UInt64.lt_iff_toNat_lt] at h
    exact (Nat.min_eq_right (Nat.le_of_lt h)).symm

/-- That powers are made of squares does not show in where they stop. -/
theorem toNat_power (a : UInt64) (n : Nat) : (power a n).toNat = min (a.toNat ^ n) (2 ^ 64 - 1) := by
  fun_induction power a n with
  | case1 => rfl
  | case2 n hn root square hodd ih =>
    have hsquare : square.toNat = min (a.toNat ^ (n / 2) * a.toNat ^ (n / 2)) (2 ^ 64 - 1) := by
      rw [toNat_multiply, ih, min_mul_min]
    have hbase : min a.toNat (2 ^ 64 - 1) = a.toNat := Nat.min_eq_left (Nat.le_pred_of_lt a.toNat_lt)
    have hexponent : (n / 2 + n / 2).succ = n := by omega
    calc (multiply square a).toNat
      _ = min (square.toNat * min a.toNat (2 ^ 64 - 1)) (2 ^ 64 - 1) := by
        rw [toNat_multiply, hbase]
      _ = min (a.toNat ^ (n / 2) * a.toNat ^ (n / 2) * a.toNat) (2 ^ 64 - 1) := by
        rw [hsquare, min_mul_min]
      _ = min (a.toNat ^ n) (2 ^ 64 - 1) := by rw [← Nat.pow_add, ← Nat.pow_succ, hexponent]
  | case3 n hn root square heven ih =>
    have hexponent : n / 2 + n / 2 = n := by omega
    rw [toNat_multiply, ih, min_mul_min, ← Nat.pow_add, hexponent]

end Saturating

/-! ## Waits -/

namespace RetryPolicy

variable (p : RetryPolicy) (attempt : UInt32)

/-- The capped wait is the base, doubled after each attempt, or the bound. -/
theorem toNat_cappedDelay : (p.cappedDelay attempt).toNat =
    min (p.baseDelay.toNat * 2 ^ (attempt.toNat - 1)) p.maxDelay.toNat := by
  have hbase : min p.baseDelay.toNat (2 ^ 64 - 1) = p.baseDelay.toNat :=
    Nat.min_eq_left (Nat.le_pred_of_lt p.baseDelay.toNat_lt)
  have hmost : min (2 ^ 64 - 1) p.maxDelay.toNat = p.maxDelay.toNat :=
    Nat.min_eq_right (Nat.le_pred_of_lt p.maxDelay.toNat_lt)
  have htwo : (2 : UInt64).toNat = 2 := rfl
  calc (p.cappedDelay attempt).toNat
    _ = min (min (p.baseDelay.toNat * min (2 ^ (attempt.toNat - 1)) (2 ^ 64 - 1)) (2 ^ 64 - 1))
        p.maxDelay.toNat := by
      rw [cappedDelay, Saturating.toNat_min, Saturating.toNat_multiply, Saturating.toNat_power, htwo]
    _ = min (p.baseDelay.toNat * 2 ^ (attempt.toNat - 1)) p.maxDelay.toNat := by
      rw [← hbase, Saturating.min_mul_min, hbase, Nat.min_assoc, hmost]

theorem exactDelay_zero (draw : Nat) : p.exactDelay 0 draw = 0 := if_pos rfl

theorem exactDelay_of_ne_zero {attempt : UInt32} (h : attempt ≠ 0) (draw : Nat) :
    p.exactDelay attempt draw =
      (p.cappedDelay attempt).toNat + jitter (p.cappedDelay attempt) draw :=
  if_neg h

/-- What is added is less than a tenth, and nothing if there is no whole tenth. -/
theorem jitter_le (capped : UInt64) (draw : Nat) : jitter capped draw ≤ capped.toNat / 10 - 1 := by
  rw [jitter]
  split
  · next h =>
    have hlt : draw % (capped.toNat / 10) < capped.toNat / 10 := Nat.mod_lt draw h
    omega
  · exact Nat.zero_le _

/-- Whatever is less than a tenth may be added. -/
theorem jitter_of_lt {capped : UInt64} {extra : Nat} (h : extra < capped.toNat / 10) :
    jitter capped extra = extra := by
  rw [jitter, if_pos (Nat.zero_lt_of_lt h), Nat.mod_eq_of_lt h]

/-- The longest capped wait with room for all that may be added to it. -/
def roomiest : Nat := 16769767339735956015

variable {p attempt}

/-- A sum goes beyond 64 bits for some draw just if the capped wait has no room for a tenth. -/
theorem exists_le_exactDelay (h : attempt ≠ 0) :
    (∃ draw, 2 ^ 64 ≤ p.exactDelay attempt draw) ↔ roomiest < (p.cappedDelay attempt).toNat := by
  simp only [exactDelay_of_ne_zero p h, roomiest]
  constructor
  · rintro ⟨draw, hdraw⟩
    have hjitter := jitter_le (p.cappedDelay attempt) draw
    omega
  · intro hroom
    -- The most that may be added.
    have hmost : jitter (p.cappedDelay attempt) ((p.cappedDelay attempt).toNat / 10 - 1) =
        (p.cappedDelay attempt).toNat / 10 - 1 :=
      jitter_of_lt (by omega)
    refine ⟨(p.cappedDelay attempt).toNat / 10 - 1, ?_⟩
    rw [hmost]
    omega

theorem delay?_eq_none {draw : Nat} :
    p.delay? attempt draw = none ↔ 2 ^ 64 ≤ p.exactDelay attempt draw := by
  have hsize : UInt64.size = 2 ^ 64 := rfl
  simp only [delay?, hsize, ite_eq_right_iff, reduceCtorEq, imp_false, Nat.not_lt]

/-- Waits that double come to the bound, so its room is all that counts, unless there is nothing to be
doubled. -/
theorem exists_delay?_eq_none :
    (∃ attempt draw, p.delay? attempt draw = none) ↔
      p.baseDelay ≠ 0 ∧ roomiest < p.maxDelay.toNat := by
  simp only [delay?_eq_none]
  constructor
  · rintro ⟨attempt, draw, hdraw⟩
    have hne : attempt ≠ 0 := by
      rintro rfl
      rw [exactDelay_zero] at hdraw
      omega
    have hroom := (exists_le_exactDelay hne).mp ⟨draw, hdraw⟩
    rw [toNat_cappedDelay, Nat.lt_min] at hroom
    refine ⟨?_, hroom.2⟩
    intro hzero
    rw [hzero] at hroom
    simp at hroom
  · rintro ⟨hbase, hroom⟩
    have hpos : 1 ≤ p.baseDelay.toNat :=
      Nat.pos_of_ne_zero fun hzero => hbase (UInt64.toNat_inj.mp hzero)
    have hmost : p.maxDelay.toNat < 2 ^ 64 := p.maxDelay.toNat_lt
    have hcapped : (p.cappedDelay 65).toNat = p.maxDelay.toNat := by
      have hexponent : (65 : UInt32).toNat - 1 = 64 := rfl
      rw [toNat_cappedDelay, hexponent]
      omega
    exact ⟨65, (exists_le_exactDelay (by decide)).mpr (hcapped ▸ hroom)⟩

/-- Whatever saturates on the way: the capped wait is the base, doubled after each attempt, or the bound
if that is less. So it never falls from one attempt to the next, and never goes beyond the bound. -/
theorem cappedDelay_exact (p : RetryPolicy) :
    (∀ attempt : UInt32, 1 ≤ attempt → (p.cappedDelay attempt).toNat =
      min (p.baseDelay.toNat * 2 ^ (attempt.toNat - 1)) p.maxDelay.toNat) ∧
    (∀ a b : UInt32, a ≤ b → p.cappedDelay a ≤ p.cappedDelay b) ∧
    ∀ attempt, p.cappedDelay attempt ≤ p.maxDelay := by
  refine ⟨fun attempt _ => toNat_cappedDelay p attempt, fun a b hab => ?_, fun attempt => ?_⟩
  · have hexponent : a.toNat - 1 ≤ b.toNat - 1 :=
      Nat.sub_le_sub_right (UInt32.le_iff_toNat_le.mp hab) 1
    have hpower : 2 ^ (a.toNat - 1) ≤ 2 ^ (b.toNat - 1) := Nat.pow_le_pow_right (by decide) hexponent
    have hproduct := Nat.mul_le_mul_left p.baseDelay.toNat hpower
    rw [UInt64.le_iff_toNat_le, toNat_cappedDelay, toNat_cappedDelay]
    omega
  · rw [UInt64.le_iff_toNat_le, toNat_cappedDelay]
    exact Nat.min_le_right _ _

/-- Powers far beyond 64 bits: nothing doubled is nothing, and all else comes to the bound. -/
theorem cappedDelay_exact_hundred :
    let idle : RetryPolicy := { baseDelay := 0, maxDelay := 9 }
    let p : RetryPolicy := { baseDelay := 1, maxDelay := 9 }
    (1 : UInt32) ≤ 4 ∧ (4 : UInt32) ≤ 100 ∧ (idle.cappedDelay 100).toNat = 0 ∧
      (p.cappedDelay 4).toNat = 8 ∧ (p.cappedDelay 100).toNat = 9 ∧
      p.cappedDelay 4 ≤ p.cappedDelay 100 := by
  intro idle p
  obtain ⟨hidle, -, -⟩ := cappedDelay_exact idle
  obtain ⟨hexact, hmono, -⟩ := cappedDelay_exact p
  refine ⟨by decide, by decide, ?_, ?_, ?_, hmono 4 100 (by decide)⟩
  · rw [hidle 100 (by decide)]
    decide +kernel
  · rw [hexact 4 (by decide)]
    decide +kernel
  · rw [hexact 100 (by decide)]
    decide +kernel

/-- Whatever is drawn, the exact wait is the capped one and less than a tenth more, or nothing more below
ten milliseconds. It is what is waited if it fits 64 bits. If not, checked sums end the program, and
others leave less than a tenth of the capped wait. That can happen just if the base is not zero and the
bound leaves no room for a tenth, and such policies are as valid as any others. -/
theorem delay_within_tenth (p : RetryPolicy) :
    (∀ (attempt : UInt32) (draw : Nat), 1 ≤ attempt →
      let capped := min (p.baseDelay.toNat * 2 ^ (attempt.toNat - 1)) p.maxDelay.toNat
      let exact := p.exactDelay attempt draw
      capped ≤ exact ∧ (if capped < 10 then exact = capped else 10 * exact < 11 * capped) ∧
      if exact < 2 ^ 64 then p.delay? attempt draw = some exact ∧ p.delay attempt draw = exact
      else p.delay? attempt draw = none ∧ p.delay attempt draw = exact - 2 ^ 64 ∧
        10 * p.delay attempt draw < capped) ∧
    ((∃ attempt draw, p.delay? attempt draw = none) ↔
      p.baseDelay ≠ 0 ∧ roomiest < p.maxDelay.toNat) ∧
    ∀ c : FeeConfig, ({ c with retry := { p with maxAttempts := c.retry.maxAttempts } }).validate =
      c.validate := by
  refine ⟨fun attempt draw hattempt => ?_, exists_delay?_eq_none, fun c => rfl⟩
  intro capped exact
  have hne : attempt ≠ 0 := by
    rintro rfl
    exact absurd hattempt (by decide)
  have hcapped : (p.cappedDelay attempt).toNat = capped := toNat_cappedDelay p attempt
  have hexact : exact = capped + jitter (p.cappedDelay attempt) draw :=
    hcapped ▸ exactDelay_of_ne_zero p hne draw
  have hjitter : jitter (p.cappedDelay attempt) draw ≤ capped / 10 - 1 := hcapped ▸ jitter_le _ draw
  have hlt : capped < 2 ^ 64 := hcapped ▸ (p.cappedDelay attempt).toNat_lt
  have hdelay : p.delay attempt draw = exact % 2 ^ 64 := rfl
  refine ⟨by omega, ?_, ?_⟩
  · split <;> omega
  split
  · next h => exact ⟨if_pos h, hdelay.trans (Nat.mod_eq_of_lt h)⟩
  · next h =>
    have hwrapped : p.delay attempt draw = exact - 2 ^ 64 := by omega
    exact ⟨if_neg h, hwrapped, by omega⟩

/-- After the seventh attempt the default policy waits half a minute and up to a tenth more. -/
theorem delay_within_tenth_default :
    ∃ exact, ({} : RetryPolicy).delay? 7 2999 = some exact ∧ 30000 ≤ exact ∧ exact < 33000 := by
  obtain ⟨hwait, hroom, -⟩ := delay_within_tenth {}
  obtain ⟨hleast, hmost, hfits⟩ := hwait 7 2999 (by decide)
  have hcapped : min ((500 : UInt64).toNat * 2 ^ ((7 : UInt32).toNat - 1)) (30000 : UInt64).toNat =
    30000 := rfl
  rw [hcapped] at hleast hmost
  rw [if_neg (by decide)] at hmost
  rw [if_pos (by omega)] at hfits
  exact ⟨_, hfits.1, hleast, by omega⟩

/-- A valid configuration whose wait of the first attempt goes beyond 64 bits. -/
theorem delay_beyond_bits :
    let c : FeeConfig := { retry := { baseDelay := Saturating.top, maxDelay := Saturating.top } }
    c.validate = .ok () ∧ c.retry.delay? 1 1 = none ∧ c.retry.delay 1 1 = 0 := by
  intro c
  have hcapped : (c.retry.cappedDelay 1).toNat = 2 ^ 64 - 1 := by
    rw [toNat_cappedDelay]
    decide +kernel
  have hjitter : jitter (c.retry.cappedDelay 1) 1 = 1 := jitter_of_lt (by omega)
  have hsum : c.retry.exactDelay 1 1 = (c.retry.cappedDelay 1).toNat + jitter (c.retry.cappedDelay 1) 1 :=
    exactDelay_of_ne_zero _ (by decide) 1
  have hexact : c.retry.exactDelay 1 1 = 2 ^ 64 := by omega
  refine ⟨rfl, ?_, ?_⟩
  · exact delay?_eq_none.mpr (Nat.le_of_eq hexact.symm)
  · rw [delay, hexact]
    rfl

end RetryPolicy

end AddressExchange
