import AddressExchange.Failure

/-!
# The order of instants and their milliseconds

Instants are linearly ordered by their rank. Rounding down to the millisecond keeps that order, and
is all that an instant outside leap seconds loses when it travels as a count of milliseconds.
-/

namespace AddressExchange.Instant

/-! ## Order -/

instance : Std.IsLinearOrder Instant where
  le_refl _ := le_def.mpr (Int.le_refl _)
  le_trans _ _ _ hab hbc := le_def.mpr (Int.le_trans hab hbc)
  le_antisymm _ _ hab hba := rank_inj (Int.le_antisymm hab hba)
  le_total a b := Int.le_total a.rank b.rank

instance : Std.LawfulOrderLT Instant where
  lt_iff a b := by
    simp only [lt_def, le_def]
    omega

theorem max_def (a b : Instant) : max a b = if a ≤ b then b else a := rfl

instance : Std.LawfulOrderMax Instant where
  max_le_iff a b c := by
    simp only [max_def]
    split <;> simp only [le_def] at * <;> omega
  max_eq_or a b := by
    simp only [max_def]
    split <;> simp

/-- A bound of the later of two instants is one of both. -/
theorem max_le {a b c : Instant} : max a b ≤ c ↔ a ≤ c ∧ b ≤ c := Std.max_le_iff

theorem latest?_eq_max? (ts : List Instant) : latest? ts = ts.max? := by
  cases ts <;> rfl

theorem latest?_eq_none {ts : List Instant} : latest? ts = none ↔ ts = [] := by
  rw [latest?_eq_max?, List.max?_eq_none_iff]

/-- The latest of a list is the one in it that nothing in it comes after. -/
theorem latest?_eq_some {ts : List Instant} {m : Instant} :
    latest? ts = some m ↔ m ∈ ts ∧ ∀ t ∈ ts, t ≤ m := by
  rw [latest?_eq_max?, List.max?_eq_some_iff]

/-- The later of two instants that may be absent is one of them. -/
theorem laterOf_eq_some {a b : Option Instant} {m : Instant} (h : laterOf a b = some m) :
    a = some m ∨ b = some m := by
  match a, b with
  | none, b => exact .inr h
  | some a, none => exact .inl h
  | some a, some b =>
    simp only [laterOf, max_def, Option.some.injEq] at h
    split at h
    · exact .inr (congrArg some h)
    · exact .inl (congrArg some h)

/-- Of two instants that may be absent, none comes after the later one. -/
theorem le_laterOf {a b : Option Instant} {t : Instant} (h : a = some t ∨ b = some t) :
    ∃ m, laterOf a b = some m ∧ t ≤ m := by
  match a, b with
  | none, b => exact ⟨t, h.resolve_left nofun, Std.le_refl t⟩
  | some a, none => exact ⟨a, rfl, by cases h.resolve_right nofun; exact Std.le_refl _⟩
  | some a, some b =>
    refine ⟨max a b, rfl, ?_⟩
    cases h with
    | inl h => cases h; exact (max_le.mp (Std.le_refl _)).1
    | inr h => cases h; exact (max_le.mp (Std.le_refl _)).2

/-! ## Milliseconds -/

/-- Is the instant outside leap seconds? -/
abbrev IsPlain (t : Instant) : Prop := t.isLeap = false

/-- An instant of the first hour of 1970. -/
def early (seconds : Fin 3600) (nanos : Fin 1000000000) : Instant where
  seconds := seconds.val
  nanos := nanos.val

@[simp] theorem isLeap_early (seconds : Fin 3600) (nanos : Fin 1000000000) :
    (early seconds nanos).isLeap = false := by
  simp only [isLeap, early]
  exact decide_eq_false (by omega)

theorem floorMillis_le (t : Instant) : t.floorMillis ≤ t := by
  simp only [le_def, rank, floorMillis]
  omega

theorem floorMillis_mono {a b : Instant} (h : a ≤ b) : a.floorMillis ≤ b.floorMillis := by
  have := a.nanos_lt
  have := b.nanos_lt
  simp only [le_def, rank, floorMillis] at *
  omega

@[simp] theorem floorMillis_floorMillis (t : Instant) : t.floorMillis.floorMillis = t.floorMillis := by
  have hn : t.nanos / 1000000 * 1000000 / 1000000 = t.nanos / 1000000 :=
    Nat.mul_div_cancel _ (by decide)
  simp only [floorMillis, hn]

@[simp] theorem isLeap_floorMillis (t : Instant) : t.floorMillis.isLeap = t.isLeap := by
  simp only [isLeap, floorMillis]
  exact decide_eq_decide.mpr (by omega)

/-- Counts of milliseconds are small enough for a literal of 64 bits. -/
theorem toMillis_bounds (t : Instant) :
    -9223372036854775808 ≤ t.toMillis ∧ t.toMillis ≤ 9223372036854775807 := by
  have := t.seconds_ge
  have := t.seconds_le
  have := t.nanos_lt
  simp only [toMillis]
  omega

theorem of?_self (t : Instant) : of? t.seconds t.nanos = some t := by
  have h : -8334601228800 ≤ t.seconds ∧ t.seconds ≤ 8210266876799 ∧ t.nanos < 2000000000 ∧
      (1000000000 ≤ t.nanos → t.seconds % 60 = 59) :=
    ⟨t.seconds_ge, t.seconds_le, t.nanos_lt, t.leap_at_minute_end⟩
  rw [of?, dif_pos h]

theorem ofMillis?_toMillis {t : Instant} (h : t.isLeap = false) :
    ofMillis? t.toMillis = some t.floorMillis := by
  have hn : t.nanos < 1000000000 := by simpa [isLeap] using h
  have hs : t.toMillis / 1000 = t.floorMillis.seconds := by
    simp only [toMillis, floorMillis]
    omega
  have hr : (t.toMillis % 1000).toNat * 1000000 = t.floorMillis.nanos := by
    simp only [toMillis, floorMillis]
    omega
  rw [ofMillis?, hs, hr, of?_self]

/-- Milliseconds carry a leap second into the second behind it. -/
theorem ofMillis?_toMillis_of_isLeap {t : Instant} (h : t.isLeap = true) :
    ofMillis? t.toMillis = of? (t.seconds + 1) ((t.nanos - 1000000000) / 1000000 * 1000000) := by
  have hn : 1000000000 ≤ t.nanos := by simpa [isLeap] using h
  have := t.nanos_lt
  have hs : t.toMillis / 1000 = t.seconds + 1 := by
    simp only [toMillis]
    omega
  have hr : (t.toMillis % 1000).toNat = (t.nanos - 1000000000) / 1000000 := by
    simp only [toMillis]
    omega
  rw [ofMillis?, hs, hr]

/-- Outside leap seconds, what milliseconds are read back as is the instant rounded down. -/
theorem ofMillis_toMillis {t : Instant} (h : t.isLeap = false) :
    ofMillis t.toMillis = .ok t.floorMillis := by
  rw [ofMillis, ofMillis?_toMillis h]

/-- The instant a number of milliseconds after 1970-01-01T00:00:00Z, in the years that there are
instants of. -/
def atMillis (millis : Int) (low : -8334601228800000 ≤ millis) (high : millis ≤ 8210266876799999) :
    Instant where
  seconds := millis / 1000
  nanos := (millis % 1000).toNat * 1000000

/-- Milliseconds are read exactly if they lie in those years. -/
theorem ofMillis_eq_ok {millis : Int} {t : Instant} :
    ofMillis millis = .ok t ↔ ∃ low high, t = atMillis millis low high := by
  constructor
  · intro h
    unfold ofMillis ofMillis? of? at h
    split at h
    · next hs =>
      split at hs
      · next hrange =>
        cases h
        exact ⟨by omega, by omega, (Option.some.inj hs).symm⟩
      · cases hs
    · cases h
  · rintro ⟨low, high, rfl⟩
    rw [ofMillis, ofMillis?]
    rw [show of? (millis / 1000) ((millis % 1000).toNat * 1000000) =
      some (atMillis millis low high) from of?_self (atMillis millis low high)]

theorem ofMillis_of_lt {millis : Int} (h : millis < -8334601228800000 ∨ 8210266876799999 < millis) :
    ofMillis millis = .error (.malformed (.instant millis)) := by
  cases ht : ofMillis millis with
  | ok t =>
    obtain ⟨low, high, -⟩ := ofMillis_eq_ok.mp ht
    omega
  | error e =>
    unfold ofMillis at ht
    split at ht
    · cases ht
    · cases ht
      rfl

theorem isLeap_atMillis {millis : Int} (low : -8334601228800000 ≤ millis)
    (high : millis ≤ 8210266876799999) : (atMillis millis low high).isLeap = false := by
  simp only [isLeap, atMillis]
  exact decide_eq_false (by omega)

theorem floorMillis_eq_self {t : Instant} : t.floorMillis = t ↔ t.nanos % 1000000 = 0 := by
  constructor
  · intro h
    rw [← h]
    exact Nat.mul_mod_left _ _
  · intro h
    cases t
    simp only [floorMillis, mk.injEq, true_and]
    exact Nat.div_mul_cancel (Nat.dvd_of_mod_eq_zero h)

/-! ## Elapsed time -/

/-- Nanoseconds since 1970-01-01T00:00:00Z, of an instant outside leap seconds. -/
def toNanos (t : Instant) : Int := t.seconds * 1000000000 + t.nanos

/-- Outside leap seconds, what has elapsed is the difference of nanoseconds. -/
theorem elapsed_of_isPlain {a b : Instant} (ha : a.IsPlain) (hb : b.IsPlain) :
    a.elapsed b = b.toNanos - a.toNanos := by
  simp only [elapsed, toNanos, ha, hb, Bool.false_eq_true, and_false, if_false]
  omega

end AddressExchange.Instant
