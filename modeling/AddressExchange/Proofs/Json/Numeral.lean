import AddressExchange.Json.Numeral
import AddressExchange.Proofs.Json.Token

/-!
# Integers of JSON are read back

An integer is written as its digits, without a zero in front but behind a sign if it is negative, and
read back up to the first byte that does not belong to a number.
-/

namespace AddressExchange.Json

/-! ## Digits -/

/-- The byte of a character. -/
def charByte (c : Char) : UInt8 := UInt8.ofNat c.toNat

theorem utf8EncodeChar_of_isDigit {c : Char} (h : c.isDigit = true) :
    String.utf8EncodeChar c = [charByte c] := by
  have hc := Text.toNat_of_isDigit h
  exact if_pos (show c.toNat ≤ 0x7f by omega)

theorem toNat_charByte {c : Char} (h : c.isDigit = true) : (charByte c).toNat = c.toNat := by
  have hc := Text.toNat_of_isDigit h
  rw [charByte, UInt8.toNat_ofNat', Nat.mod_eq_of_lt (by omega)]

theorem isDigit_charByte {c : Char} (h : c.isDigit = true) : isDigit (charByte c) = true := by
  have hn := toNat_charByte h
  have hc := Text.toNat_of_isDigit h
  simp only [isDigit, Bool.and_eq_true, decide_eq_true_eq, UInt8.le_iff_toNat_le, hn]
  exact ⟨by show 48 ≤ _; omega, by show _ ≤ 57; omega⟩

/-- The digits of a natural number as bytes. -/
def digits (n : Nat) : Bytes := (Nat.toDigits 10 n).map charByte

theorem ascii_natural (n : Nat) : ascii (toString (n : Int)) = digits n := by
  have hl : (toString (n : Int)).toList = Nat.toDigits 10 n := by
    rw [Text.toList_toString_int, if_neg (by omega)]
    rfl
  rw [ascii, Text.utf8_eq_flatMap, hl, digits, List.map_eq_flatMap]
  exact List.flatMap_congr fun c hc => utf8EncodeChar_of_isDigit (Text.isDigit_of_mem_toDigits hc)

/-- A negative number has a sign in front of its digits. -/
theorem ascii_negative {n : Int} (h : n < 0) : ascii (toString n) = 0x2d :: digits n.natAbs := by
  have hl : (toString n).toList = '-' :: Nat.toDigits 10 n.natAbs := by
    rw [Text.toList_toString_int, if_pos h]
  have hsign : String.utf8EncodeChar '-' = [0x2d] := rfl
  rw [ascii, Text.utf8_eq_flatMap, hl, List.flatMap_cons, hsign, List.singleton_append, digits,
    List.map_eq_flatMap]
  exact congrArg _ <| List.flatMap_congr fun c hc =>
    utf8EncodeChar_of_isDigit (Text.isDigit_of_mem_toDigits hc)

theorem digits_ne_nil (n : Nat) : digits n ≠ [] := by
  simp [digits]

theorem isDigit_of_mem_digits {n : Nat} {b : UInt8} (h : b ∈ digits n) : isDigit b = true := by
  obtain ⟨c, hc, rfl⟩ := List.mem_map.mp h
  exact isDigit_charByte (Text.isDigit_of_mem_toDigits hc)

theorem digits_eq_cons (n : Nat) : ∃ b bs, digits n = b :: bs ∧ isDigit b = true := by
  obtain ⟨b, bs, hb⟩ := List.exists_cons_of_ne_nil (digits_ne_nil n)
  exact ⟨b, bs, hb, isDigit_of_mem_digits (hb ▸ List.mem_cons_self)⟩

theorem digitsValue_digits (n : Nat) : digitsValue (digits n) = n := by
  have hfold (cs : List Char) (h : ∀ c ∈ cs, c.isDigit = true) (m : Nat) :
      (cs.map charByte).foldl (fun n d => n * 10 + (d - 0x30).toNat) m =
        Nat.ofDigitChars 10 cs m := by
    induction cs generalizing m with
    | nil => rfl
    | cons c cs ih =>
      have hc := h c List.mem_cons_self
      have hsub : (charByte c - 0x30).toNat = c.toNat - '0'.toNat := by
        have hn := toNat_charByte hc
        have hle := (Text.toNat_of_isDigit hc).1
        rw [UInt8.toNat_sub_of_le _ _ (UInt8.le_iff_toNat_le.mpr (by rw [hn]; exact hle)), hn]
        rfl
      rw [List.map_cons, List.foldl_cons, hsub, Nat.ofDigitChars_cons, Nat.mul_comm m]
      exact ih (fun d hd => h d (List.mem_cons_of_mem c hd)) _
  rw [digitsValue, digits, hfold _ fun c hc => Text.isDigit_of_mem_toDigits hc,
    Nat.ofDigitChars_ten_toDigits]

private theorem digitChar_eq_zero : ∀ n < 10, charByte (Nat.digitChar n) = 0x30 → n = 0 := by
  decide

/-- Only zero is written with a zero in front. -/
theorem digits_eq_zero_cons {n : Nat} {rest : Bytes} (h : digits n = 0x30 :: rest) : n = 0 := by
  induction n using Nat.strongRecOn generalizing rest with
  | ind n ih =>
    by_cases hn : n < 10
    · rw [digits, Nat.toDigits_of_lt_base hn] at h
      exact digitChar_eq_zero n hn (List.cons.inj h).1
    · -- The digits of `n / 10` are in front, and none of them is all there is.
      have hsplit : digits n = digits (n / 10) ++ [charByte (Nat.digitChar (n % 10))] := by
        rw [digits, Nat.toDigits_of_base_le (by decide) (by omega), List.map_append]
        rfl
      obtain ⟨b, bs, hb⟩ := List.exists_cons_of_ne_nil (digits_ne_nil (n / 10))
      rw [hsplit, hb, List.cons_append, List.cons.injEq] at h
      have hzero := ih (n / 10) (by omega) (h.1 ▸ hb)
      omega

/-! ## Numbers -/

/-- May the bytes stand behind a value? -/
def Delimited (rest : Bytes) : Prop := ∀ b ∈ rest.head?, b ∈ [0x2c, 0x5d, 0x7d, 0x0a]

private theorem delimiter_spec : ∀ b : UInt8, b ∈ [0x2c, 0x5d, 0x7d, 0x0a] →
    isDigit b = false ∧ b ≠ 0x2e ∧ b ≠ 0x65 ∧ b ≠ 0x45 := by
  decide +kernel

theorem spanDigits_append {ds rest : Bytes} (hd : ∀ b ∈ ds, isDigit b = true) (h : Delimited rest) :
    spanDigits (ds ++ rest) = (ds, rest) := by
  rw [spanDigits, List.takeWhile_append_of_pos hd, List.dropWhile_append_of_pos hd]
  cases rest with
  | nil => simp
  | cons b rest =>
    have hb := (delimiter_spec b (h b rfl)).1
    simp [hb]

theorem wholePart_digits (atEnd : Cause) (n : Nat) {rest : Bytes} (h : Delimited rest) :
    wholePart atEnd (digits n ++ rest) = .ok (digits n, rest) := by
  have hspan := spanDigits_append (fun _ hb => isDigit_of_mem_digits (n := n) hb) h
  obtain ⟨b, bs, hb, hdigit⟩ := digits_eq_cons n
  rw [hb, List.cons_append] at hspan ⊢
  unfold wholePart
  split
  · next heq => cases heq
  · next d tail heq =>
    -- A zero in front is all there is, so no digit follows it.
    obtain ⟨hzero, htail⟩ := List.cons.inj heq
    have hn : n = 0 := digits_eq_zero_cons (hzero ▸ hb)
    subst hn
    obtain ⟨-, hbs⟩ := List.cons.inj (hb.symm.trans (show digits 0 = [0x30] by decide))
    rw [hbs, List.nil_append] at htail
    have hd := (delimiter_spec d (h d (by rw [htail]; rfl))).1
    rw [hd, hzero, hbs, ← htail]
    rfl
  · next heq =>
    cases heq
    rw [if_pos hdigit, hspan]

private theorem fractionPart_delimited (atEnd : Cause) {rest : Bytes} (h : Delimited rest) :
    fractionPart atEnd rest = .ok ([], rest) := by
  unfold fractionPart
  split
  · next tail => exact absurd rfl (delimiter_spec 0x2e (h _ rfl)).2.1
  · rfl

private theorem exponentPart_delimited (atEnd : Cause) {rest : Bytes} (h : Delimited rest) :
    exponentPart atEnd rest = .ok (none, rest) := by
  cases rest with
  | nil => rfl
  | cons b rest =>
    obtain ⟨-, -, he, hE⟩ := delimiter_spec b (h b rfl)
    exact if_neg (by simp [he, hE])

theorem numeral_digits (atEnd : Cause) (n : Nat) {rest : Bytes} (h : Delimited rest) :
    numeral atEnd (digits n ++ rest) = .ok (⟨false, digits n, [], none⟩, rest) := by
  have hwhole := wholePart_digits atEnd n h
  obtain ⟨b, bs, hb, hdigit⟩ := digits_eq_cons n
  rw [hb, List.cons_append] at hwhole ⊢
  unfold numeral
  split
  next negative tail heq =>
  split at heq
  · next hminus =>
    -- A digit is no sign.
    cases hminus
    exact absurd hdigit (by decide)
  · cases heq
    simp only [hwhole, fractionPart_delimited atEnd h, exponentPart_delimited atEnd h, bind,
      Except.bind]

theorem integer?_digits {n : Nat} (h : n < UInt64.size) :
    Numeral.integer? ⟨false, digits n, [], none⟩ = some (n : Int) := by
  simp [Numeral.integer?, digitsValue_digits, h]

theorem numeral_negative (atEnd : Cause) (n : Nat) {rest : Bytes} (h : Delimited rest) :
    numeral atEnd (0x2d :: (digits n ++ rest)) = .ok (⟨true, digits n, [], none⟩, rest) := by
  unfold numeral
  simp only [wholePart_digits atEnd n h, fractionPart_delimited atEnd h,
    exponentPart_delimited atEnd h, bind, Except.bind]

theorem integer?_negative {n : Nat} (hpos : 0 < n) (h : n ≤ 9223372036854775808) :
    Numeral.integer? ⟨true, digits n, [], none⟩ = some (-(n : Int)) := by
  simp [Numeral.integer?, digitsValue_digits, hpos, h]

/-- An integer that fits 64 bits, with or without a sign, is read back. -/
theorem numeral_integer (atEnd : Cause) {n : Int} (low : -9223372036854775808 ≤ n)
    (high : n < UInt64.size) {rest : Bytes} (h : Delimited rest) :
    ∃ m, numeral atEnd (ascii (toString n) ++ rest) = .ok (m, rest) ∧ m.integer? = some n := by
  by_cases hn : n < 0
  · have hint := integer?_negative (n := n.natAbs) (by omega) (by omega)
    rw [show -(n.natAbs : Int) = n by omega] at hint
    rw [ascii_negative hn, List.cons_append]
    exact ⟨_, numeral_negative atEnd n.natAbs h, hint⟩
  · obtain ⟨n, rfl⟩ := Int.eq_ofNat_of_zero_le (Int.not_lt.mp hn)
    rw [ascii_natural]
    exact ⟨_, numeral_digits atEnd n h, integer?_digits (Int.ofNat_lt.mp high)⟩

/-- An integer begins with a sign or a digit. -/
theorem ascii_integer_head (n : Int) :
    ∃ b bs, ascii (toString n) = b :: bs ∧ (b = 0x2d || isDigit b) = true := by
  by_cases hn : n < 0
  · exact ⟨_, _, ascii_negative hn, rfl⟩
  · obtain ⟨n, rfl⟩ := Int.eq_ofNat_of_zero_le (Int.not_lt.mp hn)
    obtain ⟨b, bs, hb, hdigit⟩ := digits_eq_cons n
    exact ⟨b, bs, (ascii_natural n).trans hb, by rw [hdigit, Bool.or_true]⟩

end AddressExchange.Json
