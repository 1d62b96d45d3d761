import AddressExchange.Text.Literal
import AddressExchange.Text.Utf8
import Mathlib.Algebra.Group.Int.Defs

/-!
# Reading back what was written

Numbers written in decimal and texts written as UTF-8 are read back as what they were.
-/

namespace AddressExchange.Text

/-! ## Digits -/

theorem toNat_of_isDigit {c : Char} (h : c.isDigit = true) : 48 ≤ c.toNat ∧ c.toNat ≤ 57 :=
  Char.isDigit_iff_toNat.mp h

theorem digit?_of_isDigit {c : Char} (h : c.isDigit = true) : digit? c = some (c.toNat - 48) := by
  exact if_pos (toNat_of_isDigit h)

/-- Digits are read behind those that stand for `n`. -/
private theorem foldl_digits {cs : List Char} (h : ∀ c ∈ cs, c.isDigit = true) (n : Nat) :
    cs.foldl (fun n c => do return (← n) * 10 + (← digit? c)) (some n) =
      some (Nat.ofDigitChars 10 cs n) := by
  induction cs generalizing n with
  | nil => rfl
  | cons c cs ih =>
    have hc := digit?_of_isDigit (h c (by simp))
    rw [List.foldl_cons, Nat.ofDigitChars_cons, hc, Nat.mul_comm]
    exact ih (fun d hd => h d (by simp [hd])) (n * 10 + (c.toNat - 48))

/-- The number of a list of digits that is not empty. -/
theorem digits?_eq_ofDigitChars {cs : List Char} (hne : cs ≠ []) (h : ∀ c ∈ cs, c.isDigit = true) :
    digits? cs = some (Nat.ofDigitChars 10 cs 0) := by
  cases cs with
  | nil => exact absurd rfl hne
  | cons c cs => exact foldl_digits h 0

theorem isDigit_of_mem_toDigits {n : Nat} {c : Char} (h : c ∈ Nat.toDigits 10 n) :
    c.isDigit = true :=
  Nat.isDigit_of_mem_toDigits (by decide) (by decide) h

@[simp] theorem digits?_toDigits (n : Nat) : digits? (Nat.toDigits 10 n) = some n := by
  rw [digits?_eq_ofDigitChars Nat.toDigits_ne_nil fun _ h => isDigit_of_mem_toDigits h,
    Nat.ofDigitChars_ten_toDigits]

/-! ## Integers -/

/-- An integer is written as its digits, with a sign in front if it is negative. -/
theorem toList_toString_int (i : Int) :
    (toString i).toList = if i < 0 then '-' :: Nat.toDigits 10 i.natAbs
      else Nat.toDigits 10 i.natAbs := by
  -- The library writes both constructors in its own way.
  cases i with
  | ofNat n =>
    rw [if_neg (by simp), Int.toString_eq_repr, Int.repr]
    exact Nat.toList_repr
  | negSucc n =>
    rw [if_pos (Int.negSucc_lt_zero n), Int.toString_eq_repr, Int.repr]
    simp

/-- Digits are no sign. -/
theorem signed?_of_digits {s : String} (hne : s.toList ≠ [])
    (h : ∀ c ∈ s.toList, c.isDigit = true) :
    signed? s = some ((Nat.ofDigitChars 10 s.toList 0 : Nat) : Int) := by
  have hd := digits?_eq_ofDigitChars hne h
  unfold signed?
  split
  -- Neither sign is a digit.
  · next ds hs => exact absurd (h '-' (by simp [hs])) (by decide)
  · next ds hs => exact absurd (h '+' (by simp [hs])) (by decide)
  · rw [hd]
    rfl

@[simp] theorem signed?_toString (i : Int) : signed? (toString i) = some i := by
  have hl := toList_toString_int i
  by_cases hi : i < 0
  · rw [if_pos hi] at hl
    have hn : -(i.natAbs : Int) = i := by omega
    simp only [signed?, hl, digits?_toDigits]
    exact congrArg some hn
  · rw [if_neg hi] at hl
    rw [signed?_of_digits (hl ▸ Nat.toDigits_ne_nil) fun c hc => isDigit_of_mem_toDigits (hl ▸ hc),
      hl, Nat.ofDigitChars_ten_toDigits, Option.some.injEq]
    omega

theorem int64?_toString {i : Int}
    (h : -9223372036854775808 ≤ i ∧ i ≤ 9223372036854775807) : int64? (toString i) = some i := by
  rw [int64?, integer?, signed?_toString]
  simp [h]

/-! ## Literals -/

/-- Are the characters decimal digits, at least one? -/
structure IsNumber (cs : List Char) : Prop where
  ne_nil : cs ≠ []
  isDigit : ∀ c ∈ cs, c.isDigit = true

/-- Are the characters the literal of an integer? It has at most one sign, in front of its digits. -/
inductive IsInteger : List Char → Int → Prop where
  | unsigned {ds : List Char} (h : IsNumber ds) : IsInteger ds (Nat.ofDigitChars 10 ds 0)
  | plus {ds : List Char} (h : IsNumber ds) : IsInteger ('+' :: ds) (Nat.ofDigitChars 10 ds 0)
  | minus {ds : List Char} (h : IsNumber ds) : IsInteger ('-' :: ds) (-Nat.ofDigitChars 10 ds 0)

/-- Is the text the literal of an integer of 64 bits with a sign? -/
structure IsInt64 (s : String) (n : Int) : Prop where
  isInteger : IsInteger s.toList n
  low : -2 ^ 63 ≤ n
  high : n < 2 ^ 63

theorem isDigit_of_digit? {c : Char} {n : Nat} (h : digit? c = some n) : c.isDigit = true := by
  unfold digit? at h
  split at h
  · next hc => exact Char.isDigit_iff_toNat.mpr hc
  · cases h

/-- What is no digit spoils the number, wherever it stands. -/
private theorem isDigit_of_foldl {cs : List Char} {start : Option Nat} {n : Nat}
    (h : cs.foldl (fun n c => do return (← n) * 10 + (← digit? c)) start = some n) :
    start.isSome ∧ ∀ c ∈ cs, c.isDigit = true := by
  induction cs generalizing start with
  | nil =>
    cases h
    exact ⟨rfl, nofun⟩
  | cons c cs ih =>
    obtain ⟨hstart, hcs⟩ := ih h
    obtain ⟨_, hsum⟩ := Option.isSome_iff_exists.mp hstart
    obtain ⟨m, hm, hdigit⟩ := Option.bind_eq_some_iff.mp hsum
    obtain ⟨d, hd, -⟩ := Option.bind_eq_some_iff.mp hdigit
    refine ⟨hm ▸ rfl, fun c' hc' => ?_⟩
    cases hc' with
    | head => exact isDigit_of_digit? hd
    | tail _ hc' => exact hcs c' hc'

theorem digits?_eq_some {cs : List Char} {n : Nat} :
    digits? cs = some n ↔ IsNumber cs ∧ n = Nat.ofDigitChars 10 cs 0 := by
  constructor
  · intro h
    have hcs : IsNumber cs := by
      cases cs with
      | nil => cases h
      | cons c cs => exact ⟨List.cons_ne_nil _ _, (isDigit_of_foldl h).2⟩
    rw [digits?_eq_ofDigitChars hcs.ne_nil hcs.isDigit] at h
    exact ⟨hcs, (Option.some.inj h).symm⟩
  · rintro ⟨hcs, rfl⟩
    exact digits?_eq_ofDigitChars hcs.ne_nil hcs.isDigit

theorem signed?_eq_some {s : String} {n : Int} : signed? s = some n ↔ IsInteger s.toList n := by
  constructor
  · intro h
    unfold signed? at h
    split at h
    all_goals
      obtain ⟨_, hvalue, rfl⟩ := Option.map_eq_some_iff.mp h
      obtain ⟨_, hdigits, hvalue⟩ := Option.bind_eq_some_iff.mp hvalue
      obtain ⟨hds, rfl⟩ := digits?_eq_some.mp hdigits
      cases hvalue
    · next hs => exact hs ▸ .minus hds
    · next hs => exact hs ▸ .plus hds
    · exact .unsigned hds
  · intro h
    generalize hs : s.toList = cs at h
    cases h with
    | unsigned h =>
      subst hs
      exact signed?_of_digits h.ne_nil h.isDigit
    | plus h =>
      simp only [signed?, hs, digits?_eq_some.mpr ⟨h, rfl⟩]
      rfl
    | minus h =>
      simp only [signed?, hs, digits?_eq_some.mpr ⟨h, rfl⟩]
      rfl

/-- The reader of literals accepts these and no other texts. -/
theorem int64?_eq_some {s : String} {n : Int} : int64? s = some n ↔ IsInt64 s n := by
  simp only [int64?, integer?, Option.filter_eq_some_iff, signed?_eq_some, Bool.and_eq_true,
    decide_eq_true_eq]
  constructor
  · rintro ⟨hs, hlow, hhigh⟩
    exact ⟨hs, hlow, Int.lt_add_one_of_le hhigh⟩
  · rintro ⟨hs, hlow, hhigh⟩
    exact ⟨hs, hlow, Int.le_of_lt_add_one hhigh⟩

/-! ## UTF-8 -/

@[simp] theorem decode?_utf8 (s : String) : Utf8.decode? (utf8 s) = some s := by
  -- As byte arrays the bytes are those that the text itself holds, so they are valid.
  have hs : (utf8 s).toByteArray = s.toByteArray := by
    apply ByteArray.ext
    rw [utf8, List.data_toByteArray, String.toUTF8_eq_toByteArray]
  have hv : (utf8 s).toByteArray.IsValidUTF8 := hs ▸ s.isValidUTF8
  rw [Utf8.decode?, String.fromUTF8?, dif_pos hv, Option.some.injEq, ← String.toByteArray_inj]
  exact hs

@[simp] theorem decode_utf8 (s : String) : Utf8.decode (utf8 s) = .ok s := by
  have h := decode?_utf8 s
  simp only [Utf8.decode?] at h
  simp only [Utf8.decode, h]

/-- Bytes that are read as a text are those of the text. -/
theorem decode_eq_ok {bs : Bytes} {s : String} : Utf8.decode bs = .ok s ↔ bs = utf8 s := by
  constructor
  · intro h
    unfold Utf8.decode at h
    split at h
    · next hs =>
      cases h
      unfold String.fromUTF8? at hs
      split at hs
      · cases hs
        rw [utf8, String.toUTF8_eq_toByteArray]
        exact List.data_toByteArray.symm ▸ rfl
      · cases hs
    · cases h
  · rintro rfl
    exact decode_utf8 s

theorem decode_eq_error {bs : Bytes} (h : ∀ s, bs ≠ utf8 s) :
    Utf8.decode bs = .error (Utf8.fault 0 0 bs) := by
  cases hd : Utf8.decode bs with
  | ok s => exact absurd (decode_eq_ok.mp hd) (h s)
  | error e =>
    unfold Utf8.decode at hd
    split at hd
    · cases hd
    · exact hd.symm

/-- The bytes of a text are those of its characters. -/
theorem utf8_ofList (cs : List Char) : utf8 (String.ofList cs) = cs.flatMap String.utf8EncodeChar := by
  rw [utf8, String.toUTF8_eq_toByteArray, String.toByteArray_ofList, List.utf8Encode,
    List.toList_data_toByteArray]

theorem utf8_eq_flatMap (s : String) : utf8 s = s.toList.flatMap String.utf8EncodeChar := by
  rw [← utf8_ofList, String.ofList_toList]

theorem length_utf8 (s : String) : (utf8 s).length = s.utf8ByteSize := by
  simp [utf8]

/-- A character has at most four bytes. -/
theorem length_utf8_le (s : String) : (utf8 s).length ≤ 4 * s.toList.length := by
  rw [utf8_eq_flatMap]
  induction s.toList with
  | nil => exact Nat.le_refl _
  | cons c cs ih =>
    have hc := c.utf8Size_le_four
    rw [List.flatMap_cons, List.length_append, String.length_utf8EncodeChar, List.length_cons]
    omega

end AddressExchange.Text
