import AddressExchange.Json.Token
import AddressExchange.Json.Value
import AddressExchange.Proofs.Text.Literal
import Mathlib.Data.FinEnum

/-!
# Strings of JSON are read back

Each byte of a string is read back from what stands for it, and so is the whole string.
-/

namespace AddressExchange.Json

/-! ## Blanks -/

theorem skipBlanks_append {blanks : Bytes} (h : ∀ b ∈ blanks, isBlank b = true) (rest : Bytes) :
    skipBlanks (blanks ++ rest) = skipBlanks rest :=
  List.dropWhile_append_of_pos h

theorem skipBlanks_cons {b : UInt8} (h : isBlank b = false) (rest : Bytes) :
    skipBlanks (b :: rest) = b :: rest :=
  List.dropWhile_cons_of_neg (by simp [h])

/-! ## Escapes -/

/-- Control characters without a short escape are written with four digits. -/
private theorem control_spec : ∀ b : UInt8, b < 0x20 →
    Hex.value? 0x30 = some 0 ∧
    Hex.value? (if b < 0x10 then 0x30 else 0x31) = some (b >>> 4) ∧
    Hex.value? (if b &&& 15 < 10 then 48 + (b &&& 15) else 87 + (b &&& 15)) = some (b &&& 15) ∧
    Bytes.ofBigEndian [(0 : UInt8) <<< 4 ||| 0, (b >>> 4) <<< 4 ||| (b &&& 15)] = b.toNat ∧
    isLowSurrogate b.toNat = false ∧ isHighSurrogate b.toNat = false ∧ codePoint b.toNat = [b] := by
  decide +kernel

private theorem escape_control {b : UInt8} (h : b < 0x20) (rest : Bytes) :
    escape (0x75 :: 0x30 :: 0x30 :: (if b < 0x10 then 0x30 else 0x31) ::
      (if b &&& 15 < 10 then 48 + (b &&& 15) else 87 + (b &&& 15)) :: rest) = .ok ([b], 5) := by
  obtain ⟨hzero, hhigh, hlow, hvalue, hnotLow, hnotHigh, hpoint⟩ := control_spec b h
  simp only [escape, escapedPoint, fourDigits, hzero, hhigh, hlow, hvalue, hnotLow, hnotHigh, hpoint,
    bind, Except.bind]
  rfl

private theorem escape_short {s b : UInt8} (h : shortEscape? s = some b) (rest : Bytes) :
    escape (s :: rest) = .ok ([b], 1) := by
  have hu : s ≠ 0x75 := by
    rintro rfl
    have hnone : shortEscape? 0x75 = none := by decide
    rw [hnone] at h
    cases h
  unfold escape
  split
  · next heq => cases heq
  · next heq => cases heq; exact absurd rfl hu
  · next heq =>
    cases heq
    rw [h]

private theorem stringBytes_backslash {b : UInt8} (used : Bytes) {rest : Bytes}
    (h : escape (used ++ rest) = .ok ([b], used.length)) (done : Bytes) :
    stringBytes done 0 (0x5c :: (used ++ rest)) = stringBytes (b :: done) 0 rest := by
  -- The bytes that the escape took are counted down.
  have hskip (done used rest : Bytes) :
      stringBytes done used.length (used ++ rest) = stringBytes done 0 rest := by
    induction used with
    | nil => rfl
    | cons u used ih => exact ih
  rw [stringBytes, if_neg (by decide), if_pos rfl, h]
  exact hskip (b :: done) used rest

/-- What stands for a byte is read as the byte. -/
theorem stringBytes_escapeByte (done : Bytes) (b : UInt8) (rest : Bytes) :
    stringBytes done 0 (escapeByte b ++ rest) = stringBytes (b :: done) 0 rest := by
  have hshort {s : UInt8} (h : shortEscape? s = some b) :
      stringBytes done 0 ([0x5c, s] ++ rest) = stringBytes (b :: done) 0 rest :=
    stringBytes_backslash [s] (escape_short h rest) done
  -- Seven bytes have a short escape; the cases follow their order.
  unfold escapeByte
  split
  · next h => subst h; exact hshort (by decide)
  next hquote =>
  split
  · next h => subst h; exact hshort (by decide)
  next hslash =>
  split
  · next h => subst h; exact hshort (by decide)
  split
  · next h => subst h; exact hshort (by decide)
  split
  · next h => subst h; exact hshort (by decide)
  split
  · next h => subst h; exact hshort (by decide)
  split
  · next h => subst h; exact hshort (by decide)
  split
  · next hcontrol =>
    exact stringBytes_backslash [0x75, 0x30, 0x30, _, _] (escape_control hcontrol rest) done
  · next hplain =>
    rw [List.singleton_append, stringBytes, if_neg hquote, if_neg hslash, if_neg hplain]

/-! ## Strings -/

theorem stringBytes_flatMap (done bs rest : Bytes) :
    stringBytes done 0 (bs.flatMap escapeByte ++ 0x22 :: rest) = .ok (done.reverse ++ bs, rest) := by
  induction bs generalizing done with
  | nil => simp [stringBytes]
  | cons b bs ih =>
    rw [List.flatMap_cons, List.append_assoc, stringBytes_escapeByte, ih]
    simp

/-- A string is read back behind its opening quote. -/
theorem stringTail_quote (s : String) (rest : Bytes) :
    stringTail ((Text.utf8 s).flatMap escapeByte ++ 0x22 :: rest) = .ok (s, rest) := by
  rw [stringTail, stringBytes_flatMap]
  simp [bind, Except.bind]

theorem quote_append (s : String) (rest : Bytes) :
    quote s ++ rest = 0x22 :: ((Text.utf8 s).flatMap escapeByte ++ 0x22 :: rest) := by
  simp [quote]

end AddressExchange.Json
