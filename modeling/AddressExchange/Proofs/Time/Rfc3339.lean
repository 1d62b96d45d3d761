import AddressExchange.Proofs.Text.Blank
import AddressExchange.Proofs.Text.Literal
import AddressExchange.Proofs.Time.Calendar
import AddressExchange.Proofs.Time.Instant
import AddressExchange.Time.Rfc3339
import Mathlib.Algebra.Group.Nat.Defs

/-!
# Timestamps are read back

The text of an instant is read back as the instant, to the nanosecond and inside leap seconds too.
Every part reads what was written of it and hands on what is behind.
-/

namespace AddressExchange.Rfc3339

/-! ## Padded numbers -/

theorem toList_padded (width n : Nat) :
    (padded width n).toList =
      List.replicate (width - (Nat.toDigits 10 n).length) '0' ++ Nat.toDigits 10 n := by
  rw [padded, String.toList_ofList]

theorem isDigit_of_mem_padded {width n : Nat} {c : Char} (h : c ∈ (padded width n).toList) :
    c.isDigit = true := by
  rw [toList_padded, List.mem_append] at h
  cases h with
  | inl hz => rw [List.eq_of_mem_replicate hz]; rfl
  | inr hd => exact Text.isDigit_of_mem_toDigits hd

theorem padded_ne_nil (width n : Nat) : (padded width n).toList ≠ [] := by
  rw [toList_padded]
  simp

theorem padded_eq_cons (width n : Nat) :
    ∃ c cs, (padded width n).toList = c :: cs ∧ c.isDigit = true := by
  obtain ⟨c, cs, hc⟩ := List.exists_cons_of_ne_nil (padded_ne_nil width n)
  exact ⟨c, cs, hc, isDigit_of_mem_padded (hc ▸ List.mem_cons_self)⟩

theorem length_padded {width n : Nat} (hw : 0 < width) (h : n < 10 ^ width) :
    (padded width n).toList.length = width := by
  have := (Nat.length_toDigits_le_iff (b := 10) (by decide) hw).mpr h
  rw [toList_padded, List.length_append, List.length_replicate]
  omega

/-- Zeros in front do not count. -/
theorem value_padded (width n : Nat) : value (padded width n).toList = n := by
  rw [value, Text.digits?_eq_ofDigitChars (padded_ne_nil width n) fun _ h => isDigit_of_mem_padded h,
    toList_padded, Nat.ofDigitChars_append, Nat.ofDigitChars_replicate_zero, Nat.mul_zero,
    Nat.ofDigitChars_ten_toDigits]
  rfl

/-! ## Numbers -/

/-- Does a text not begin with a digit? -/
def NoDigit (cs : List Char) : Prop := ∀ c ∈ cs.head?, Text.digit? c = none

/-- All digits are taken if there are as many as there may be, or if something else follows. -/
theorem leadingDigits_append {width : Nat} {ds rest : List Char} (hd : ∀ c ∈ ds, c.isDigit = true)
    (hle : ds.length ≤ width) (hstop : ds.length = width ∨ NoDigit rest) :
    leadingDigits width (ds ++ rest) = ds := by
  have hall : ∀ c ∈ ds, (Text.digit? c).isSome = true := by
    intro c hc
    rw [Text.digit?_of_isDigit (hd c hc)]
    rfl
  rw [leadingDigits, List.take_append, List.take_of_length_le hle,
    List.takeWhile_append_of_pos hall]
  cases hstop with
  | inl heq => rw [heq, Nat.sub_self, List.take_zero, List.takeWhile_nil, List.append_nil]
  | inr hrest =>
    cases rest with
    | nil => simp
    | cons c cs =>
      have hc : Text.digit? c = none := hrest c rfl
      cases width - ds.length with
      | zero => simp
      | succ n => simp [hc]

theorem number_append {width n : Nat} {ds rest : List Char} (hne : ds ≠ [])
    (hd : ∀ c ∈ ds, c.isDigit = true) (hv : value ds = n) (hn : n ≤ 9223372036854775807)
    (hle : ds.length ≤ width) (hstop : ds.length = width ∨ NoDigit rest) :
    number width (ds ++ rest) = .ok (n, rest) := by
  obtain ⟨c, cs, rfl⟩ := List.exists_cons_of_ne_nil hne
  have hl := leadingDigits_append hd hle hstop
  rw [List.cons_append] at hl ⊢
  simp only [number, hl, hv]
  rw [if_neg (by simp), if_neg (by omega), ← List.cons_append, List.drop_left]

/-- A number written with as many digits as are read is read back. -/
theorem number_padded (width : Nat) {n : Nat} (hw : 0 < width) (h : n < 10 ^ width)
    (hn : n ≤ 9223372036854775807) (rest : List Char) :
    number width ((padded width n).toList ++ rest) = .ok (n, rest) :=
  number_append (padded_ne_nil width n) (fun _ h => isDigit_of_mem_padded h) (value_padded width n)
    hn (Nat.le_of_eq (length_padded hw h)) (.inl (length_padded hw h))

/-! ## Parts -/

theorem isBlank_of_isDigit {c : Char} (h : c.isDigit = true) : Text.isBlank c = false := by
  have hc := Text.toNat_of_isDigit h
  simp only [Text.isBlank]
  simp
  omega

theorem trimStart_padded (width n : Nat) (rest : List Char) :
    Text.trimStart ((padded width n).toList ++ rest) = (padded width n).toList ++ rest := by
  obtain ⟨c, cs, hc, hd⟩ := padded_eq_cons width n
  rw [hc, List.cons_append, Text.trimStart_cons (isBlank_of_isDigit hd)]

theorem part_padded (low high : Nat) {n : Nat} (hlow : low ≤ n) (hhigh : n ≤ high) (h : n < 100)
    (rest : List Char) : part low high ((padded 2 n).toList ++ rest) = .ok (n, rest) := by
  have hn := number_padded 2 (by decide) h (by omega) rest
  rw [part, trimStart_padded, hn]
  exact if_pos ⟨hlow, hhigh⟩

theorem mark_cons {c : Char} (h : Text.isBlank c = false) (rest : List Char) :
    mark c (c :: rest) = .ok rest := by
  rw [mark, Text.trimStart_cons h]
  exact if_pos rfl

theorem noDigit_cons {c : Char} {rest : List Char} (h : Text.digit? c = none) :
    NoDigit (c :: rest) := by
  intro d hd
  obtain rfl : c = d := Option.some.inj hd
  exact h

/-- A year is read up to the mark behind it. -/
theorem year_yearText {y : Int} (h : -262143 ≤ y ∧ y ≤ 262142) (rest : List Char) :
    year ((yearText y).toList ++ '-' :: rest) = .ok (y, '-' :: rest) := by
  have hstop : NoDigit ('-' :: rest) := noDigit_cons (by decide)
  -- Behind a sign all digits are taken, however many there are.
  have hsigned : ∀ n : Nat, n ≤ 262143 →
      number ((padded 4 n).toList ++ '-' :: rest).length ((padded 4 n).toList ++ '-' :: rest) =
        .ok (n, '-' :: rest) := by
    intro n hn
    refine number_append (padded_ne_nil 4 n) (fun _ h => isDigit_of_mem_padded h)
      (value_padded 4 n) (by omega) ?_ (.inr hstop)
    rw [List.length_append]
    omega
  unfold yearText
  split
  · next hneg =>
    have hn := hsigned y.natAbs (by omega)
    have hy : -(y.natAbs : Int) = y := by omega
    rw [String.toList_append, show "-".toList = ['-'] from rfl, List.append_assoc,
      List.singleton_append, year, Text.trimStart_cons (by decide)]
    simp only [hn, bind, Except.bind, pure, Except.pure, hy]
    exact if_pos (by omega)
  next hneg =>
  split
  · next hbig =>
    have hn := hsigned y.natAbs (by omega)
    have hy : (y.natAbs : Int) = y := by omega
    rw [String.toList_append, show "+".toList = ['+'] from rfl, List.append_assoc,
      List.singleton_append, year, Text.trimStart_cons (by decide)]
    simp only [hn, bind, Except.bind, pure, Except.pure, hy]
    exact if_pos (by omega)
  · next hbig =>
    have hn := number_padded 4 (n := y.natAbs) (by decide) (by omega) (by omega)
      ('-' :: rest)
    have hy : (y.natAbs : Int) = y := by omega
    -- Without a sign the year has four digits, and the first of them is no sign.
    obtain ⟨c, cs, hc, hdigit⟩ := padded_eq_cons 4 y.natAbs
    rw [year, trimStart_padded]
    rw [hc, List.cons_append] at hn ⊢
    dsimp only
    split
    · next heq => cases heq; exact absurd hdigit (by decide)
    · next heq => cases heq; exact absurd hdigit (by decide)
    · simp only [hn, bind, Except.bind, pure, Except.pure, hy]
      exact if_pos (by omega)

/-- The digits of the part of a second are read up to the offset. -/
theorem fraction_fractionText {nanos : Nat} (h : nanos < 1000000000) {c : Char}
    (hc : c ≠ '.') (hd : Text.digit? c = none) (rest : List Char) :
    fraction ((fractionText nanos).toList ++ c :: rest) = .ok (nanos, c :: rest) := by
  have hdigits : ∀ width n : Nat, 0 < width → width ≤ 9 → n < 10 ^ width →
      n ≤ 9223372036854775807 →
      fraction (("." ++ padded width n).toList ++ c :: rest) =
        .ok (n * Nat.pow 10 (9 - width), c :: rest) := by
    intro width n hw hw' hn hn'
    have hlength := length_padded hw hn
    have hmem : ∀ c ∈ (padded width n).toList, c.isDigit = true :=
      fun _ h => isDigit_of_mem_padded h
    have hstop : NoDigit (c :: rest) := noDigit_cons hd
    have hnumber := number_append (padded_ne_nil width n) hmem (value_padded width n) hn'
      (hlength ▸ hw') (.inr hstop)
    have hleading := leadingDigits_append hmem (hlength ▸ hw') (.inr hstop)
    rw [String.toList_append, show ".".toList = ['.'] from rfl, List.append_assoc,
      List.singleton_append, fraction]
    simp only [hnumber, bind, Except.bind, hleading, hlength]
    rw [List.dropWhile_cons_of_neg]
    simp [hd]
  -- Nothing, three, six or nine digits are written, whichever are enough.
  unfold fractionText
  split
  · next hzero =>
    subst hzero
    simp only [String.toList_empty, List.nil_append, fraction]
    split
    · next heq => cases heq; exact absurd rfl hc
    · rfl
  split
  · next hmillis =>
    have hn : nanos / 1000000 * Nat.pow 10 (9 - 3) = nanos := Nat.div_mul_cancel
      (Nat.dvd_of_mod_eq_zero hmillis)
    rw [hdigits 3 _ (by decide) (by decide) (by omega) (by omega), hn]
  split
  · next hmicros =>
    have hn : nanos / 1000 * Nat.pow 10 (9 - 6) = nanos := Nat.div_mul_cancel
      (Nat.dvd_of_mod_eq_zero hmicros)
    rw [hdigits 6 _ (by decide) (by decide) (by omega) (by omega), hn]
  · have hn : nanos * Nat.pow 10 (9 - 9) = nanos := Nat.mul_one nanos
    rw [hdigits 9 _ (by decide) (by decide) (by omega) (by omega), hn]

/-! ## Instants -/

theorem year_ofDays (t : Instant) :
    -262143 ≤ (Date.ofDays (t.seconds / 86400)).year ∧
      (Date.ofDays (t.seconds / 86400)).year ≤ 262142 := by
  have hlow : Date.daysBeforeYear (-262143) ≤ t.seconds / 86400 + Date.epoch := by
    have := t.seconds_ge
    simp only [Date.daysBeforeYear, Date.epoch]
    omega
  have hhigh : t.seconds / 86400 + Date.epoch < Date.daysBeforeYear (262142 + 1) := by
    have := t.seconds_le
    simp only [Date.daysBeforeYear, Date.epoch]
    omega
  rw [(Date.ofDays_spec _).1]
  exact Date.yearOf_mem hlow hhigh

/-- The parts of an instant are put together again. A leap second ends a minute, so its second of
the minute reads 60. -/
theorem assemble_parts (t : Instant) :
    let clock := t.secondOfDay.toNat
    assemble (Date.ofDays (t.seconds / 86400)) (clock / 3600) (clock / 60 % 60)
      (clock % 60 + t.nanos / 1000000000) (t.nanos % 1000000000) 0 = .ok t := by
  intro clock
  obtain ⟨hyear, hvalid, hdays⟩ := Date.ofDays_spec (t.seconds / 86400)
  obtain ⟨hmin, hmax⟩ := year_ofDays t
  have hnanos := t.nanos_lt
  have hclock : (clock : Int) = t.seconds % 86400 := by
    simp only [clock, Instant.secondOfDay]
    omega
  -- Only the last second of a minute can run past its end.
  have hleap : (if clock % 60 + t.nanos / 1000000000 = 60 then 1 else 0) = t.nanos / 1000000000 := by
    have hminute := t.leap_at_minute_end
    split <;> omega
  have hseconds : (Date.ofDays (t.seconds / 86400)).toDays * 86400 +
      ((clock / 3600 * 3600 + clock / 60 % 60 * 60 +
        (clock % 60 + t.nanos / 1000000000 - t.nanos / 1000000000) : Nat) : Int) - 0 = t.seconds := by
    rw [hdays]
    omega
  have hrest : t.nanos / 1000000000 * 1000000000 + t.nanos % 1000000000 = t.nanos := by omega
  unfold assemble
  rw [if_neg (by simp [hvalid]; omega), if_neg (by decide)]
  dsimp only
  rw [hleap, hseconds, hrest, Instant.of?_self]

theorem toList_text (t : Instant) :
    let date := Date.ofDays (t.seconds / 86400)
    let clock := t.secondOfDay.toNat
    (text t).toList = (yearText date.year).toList ++ '-' :: ((padded 2 date.month).toList ++
      '-' :: ((padded 2 date.day).toList ++ 'T' :: ((padded 2 (clock / 3600)).toList ++
      ':' :: ((padded 2 (clock / 60 % 60)).toList ++
      ':' :: ((padded 2 (clock % 60 + t.nanos / 1000000000)).toList ++
      ((fractionText (t.nanos % 1000000000)).toList ++ ['Z'])))))) := by
  have hs : ∀ s : String, toString s = s := fun _ => rfl
  simp [text, localText, hs]

@[simp] theorem read_text (t : Instant) : read (text t) = .ok t := by
  -- Each part is read whatever is behind it, so the parts can be read in a row.
  have hyear (rest : List Char) := year_yearText (year_ofDays t) rest
  obtain ⟨⟨hm, hm'⟩, hd, hd'⟩ := Date.isValid_iff.mp (Date.ofDays_spec (t.seconds / 86400)).2.1
  have hlength := Date.monthLength_le (Date.ofDays (t.seconds / 86400)).year
    (Date.ofDays (t.seconds / 86400)).month
  have hclock : t.secondOfDay.toNat < 86400 := by
    simp only [Instant.secondOfDay]
    omega
  have hsecond : t.secondOfDay.toNat % 60 + t.nanos / 1000000000 ≤ 60 := by
    have := t.nanos_lt
    have := t.leap_at_minute_end
    simp only [Instant.secondOfDay]
    omega
  have hmonth (rest : List Char) := part_padded 1 12 hm hm' (by omega) rest
  have hday (rest : List Char) := part_padded 1 31 hd (by omega) (by omega) rest
  have hhour (rest : List Char) := part_padded 0 23
    (n := t.secondOfDay.toNat / 3600) (by omega) (by omega) (by omega) rest
  have hminute (rest : List Char) := part_padded 0 59
    (n := t.secondOfDay.toNat / 60 % 60) (by omega) (by omega) (by omega) rest
  have hsec (rest : List Char) := part_padded 0 60
    (n := t.secondOfDay.toNat % 60 + t.nanos / 1000000000) (by omega) hsecond (by omega) rest
  have hnanos : t.nanos % 1000000000 < 1000000000 := Nat.mod_lt _ (by decide)
  have hfraction := fraction_fractionText hnanos (c := 'Z') (by decide) (by decide) []
  have hdash (rest : List Char) := mark_cons (c := '-') (by decide) rest
  have hcolon (rest : List Char) := mark_cons (c := ':') (by decide) rest
  have hassemble := assemble_parts t
  dsimp only at hassemble
  have hz : Text.trimStart ['Z'] = ['Z'] := rfl
  have hoffset : offset ['Z'] = .ok (0, []) := rfl
  have hend : (Text.trimStart []).isEmpty = true := rfl
  have hlist := toList_text t
  dsimp only at hlist
  simp only [read, hlist, hyear, hdash, hmonth, hday, hhour, hcolon, hminute, hsec, hfraction, hz,
    hoffset, hend, bind, Except.bind]
  exact hassemble

end AddressExchange.Rfc3339
