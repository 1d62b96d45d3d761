import AddressExchange.Bytes

/-!
# Hexadecimal text

Bytes are written with two lower case digits each and read with digits of either case. A text that
cannot be read is refused at its first fault; its length comes before its digits.
-/

namespace AddressExchange.Hex

/-- The digit of a number below sixteen. -/
def digit (n : UInt8) : Char :=
  if n < 10 then Char.ofNat (48 + n.toNat) else Char.ofNat (87 + n.toNat)

/-- The text of a byte string. -/
def encode (bs : Bytes) : String :=
  String.ofList (bs.flatMap fun (b : UInt8) => [digit (b >>> 4), digit (b &&& 15)])

/-- The value of a digit, given as the byte that stands for it. -/
def value? (b : UInt8) : Option UInt8 :=
  if 48 ≤ b && b ≤ 57 then some (b - 48)
  else if 97 ≤ b && b ≤ 102 then some (b - 87)
  else if 65 ≤ b && b ≤ 70 then some (b - 55)
  else none

/-- Why a text is not hexadecimal. -/
inductive Fault where
  /-- The text has an odd number of bytes. -/
  | oddLength
  /-- The byte at an index is no digit. -/
  | notDigit (byte : UInt8) (index : Nat)
  deriving Repr, DecidableEq

/-- Reads digits in pairs; `index` is the place of the first and `done` what came before, last
byte first. -/
def pairs (index : Nat) (done : Bytes) : Bytes → Except Fault Bytes
  | high :: low :: rest =>
    match value? high, value? low with
    | none, _ => .error (.notDigit high index)
    | some _, none => .error (.notDigit low (index + 1))
    | some h, some l => pairs (index + 2) ((h <<< 4 ||| l) :: done) rest
  | _ => .ok done.reverse

/-- Reads the bytes of a text. -/
def decodeBytes (bs : Bytes) : Except Fault Bytes :=
  if bs.length % 2 = 0 then pairs 0 [] bs else .error .oddLength

/-- Reads a text. -/
def decode (s : String) : Except Fault Bytes := decodeBytes s.toUTF8.data.toList

/-- How a byte is shown between quotes, read as a character below U+0100. -/
def shown (b : UInt8) : String :=
  let code := b.toNat
  if b = 0 then "\\0"
  else if b = 9 then "\\t"
  else if b = 10 then "\\n"
  else if b = 13 then "\\r"
  else if b = 39 then "\\'"
  else if b = 92 then "\\\\"
  else if code < 32 || 127 ≤ code && code ≤ 160 || code = 173 then
    "\\u\x7b" ++ String.ofList (Nat.toDigits 16 code) ++ "\x7d"
  else String.singleton (Char.ofNat code)

/-- The wording of a fault. -/
def Fault.message : Fault → String
  | .oddLength => "Odd number of digits"
  | .notDigit byte index => s!"Invalid character '{shown byte}' at position {index}"

end AddressExchange.Hex
