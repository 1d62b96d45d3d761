import AddressExchange.Hex
import AddressExchange.Json.Fault
import AddressExchange.Text.Utf8

/-!
# Tokens of JSON

Blanks, words, strings and the marks between values, read at the start of a byte string. What is
left is handed back; a fault knows its place by what was left there.
-/

namespace AddressExchange.Json

/-- Reads something at the start of bytes and gives it with the bytes behind it. -/
abbrev Reader (α : Type) := Bytes → Except Fault (α × Bytes)

/-- Is the byte one of the four blanks of JSON? -/
def isBlank (b : UInt8) : Bool := b = 0x20 || b = 0x0a || b = 0x09 || b = 0x0d

/-- The bytes without the blanks at their start. -/
def skipBlanks (bs : Bytes) : Bytes := bs.dropWhile isBlank

/-- Is the byte a decimal digit? -/
def isDigit (b : UInt8) : Bool := 0x30 ≤ b && b ≤ 0x39

/-- Reads the bytes of a word. -/
def word : Bytes → Bytes → Except Fault Bytes
  | [], rest => .ok rest
  | _ :: _, [] => .error ⟨.endInValue, 0⟩
  | w :: ws, b :: rest => if w = b then word ws rest else .error (.before .badWord rest)

/-! ## Strings -/

/-- The number that four hexadecimal digits stand for. -/
def fourDigits (bs : Bytes) : Except Fault Nat :=
  match bs with
  | a :: b :: c :: d :: rest =>
    match Hex.value? a, Hex.value? b, Hex.value? c, Hex.value? d with
    | some a, some b, some c, some d => .ok (Bytes.ofBigEndian [a <<< 4 ||| b, c <<< 4 ||| d])
    | _, _, _, _ => .error (.before .badEscape rest)
  | _ => .error ⟨.endInString, 0⟩

/-- The UTF-8 bytes of a code point. -/
def codePoint (n : Nat) : Bytes := Text.utf8 (String.singleton (Char.ofNat n))

def isHighSurrogate (n : Nat) : Bool := 0xd800 ≤ n && n ≤ 0xdbff
def isLowSurrogate (n : Nat) : Bool := 0xdc00 ≤ n && n ≤ 0xdfff

/-- Reads the digits of an escaped code point, and with them those of a second one where the first
is half of a pair. Gives the bytes meant and how many bytes were read. -/
def escapedPoint (bs : Bytes) : Except Fault (Bytes × Nat) := do
  let first ← fourDigits bs
  if isLowSurrogate first then .error (.before .loneSurrogate (bs.drop 4))
  else if !isHighSurrogate first then .ok (codePoint first, 4)
  else match bs.drop 4 with
    | [] | [0x5c] => .error ⟨.endInString, 0⟩
    | 0x5c :: 0x75 :: rest => do
      let second ← fourDigits rest
      if isLowSurrogate second then
        .ok (codePoint (0x10000 + (first - 0xd800) * 0x400 + (second - 0xdc00)), 10)
      else .error (.before .loneSurrogate (rest.drop 4))
    | 0x5c :: _ :: rest => .error (.before .halfSurrogate rest)
    | _ :: rest => .error (.before .halfSurrogate rest)

/-- The byte that a short escape stands for. -/
def shortEscape? (b : UInt8) : Option UInt8 :=
  if b = 0x22 || b = 0x5c || b = 0x2f then some b
  else if b = 0x62 then some 0x08
  else if b = 0x66 then some 0x0c
  else if b = 0x6e then some 0x0a
  else if b = 0x72 then some 0x0d
  else if b = 0x74 then some 0x09
  else none

/-- Reads what follows a backslash. Gives the bytes meant and how many bytes were read. -/
def escape (bs : Bytes) : Except Fault (Bytes × Nat) :=
  match bs with
  | [] => .error ⟨.endInString, 0⟩
  | 0x75 :: rest => do
    let (meant, used) ← escapedPoint rest
    .ok (meant, used + 1)
  | b :: rest =>
    match shortEscape? b with
    | some meant => .ok ([meant], 1)
    | none => .error (.before .badEscape rest)

/-- Reads a string up to its closing quote. `done` holds the bytes so far, last one first; the next
`used` bytes were read with the backslash before them. -/
def stringBytes (done : Bytes) : Nat → Bytes → Except Fault (Bytes × Bytes)
  | _, [] => .error ⟨.endInString, 0⟩
  | used + 1, _ :: rest => stringBytes done used rest
  | 0, b :: rest =>
    if b = 0x22 then .ok (done.reverse, rest)
    else if b = 0x5c then
      match escape rest with
      | .error e => .error e
      | .ok (meant, used) => stringBytes (meant.reverse ++ done) used rest
    else if b < 0x20 then .error (.before .controlCharacter rest)
    else stringBytes (b :: done) 0 rest

/-- Reads a string whose opening quote is behind. -/
def stringTail : Reader String := fun bs => do
  let (bytes, rest) ← stringBytes [] 0 bs
  match Text.Utf8.decode? bytes with
  | some s => .ok (s, rest)
  | none => .error (.before .badText rest)

/-! ## Marks -/

/-- Reads the colon behind a name. -/
def colon (bs : Bytes) : Except Fault Bytes :=
  match skipBlanks bs with
  | [] => .error ⟨.endInObject, 0⟩
  | 0x3a :: rest => .ok rest
  | rest => .error (.atHead .noColon rest)

/-- What stands behind an item of a list or object. -/
inductive Next where
  /-- Another one, which begins here. -/
  | more (rest : Bytes)
  /-- The closing bracket, with this behind it. -/
  | done (rest : Bytes)

/-- Goes to the next item of a list. -/
def nextItem (first : Bool) (bs : Bytes) : Except Fault Next :=
  match skipBlanks bs with
  | [] => .error ⟨.endInList, 0⟩
  | 0x5d :: rest => .ok (.done rest)
  | b :: rest =>
    if first then .ok (.more (b :: rest))
    else if b = 0x2c then
      match skipBlanks rest with
      | [] => .error ⟨.endInValue, 0⟩
      | 0x5d :: rest => .error (.before .commaAtEnd rest)
      | item => .ok (.more item)
    else .error (.before .noCommaInList rest)

/-- Goes to the name of the next member of an object, behind its opening quote. -/
def nextName (first : Bool) (bs : Bytes) : Except Fault Next :=
  match skipBlanks bs with
  | [] => .error ⟨.endInObject, 0⟩
  | 0x7d :: rest => .ok (.done rest)
  | b :: rest =>
    if first then
      if b = 0x22 then .ok (.more rest) else .error (.before .keyNotString rest)
    else if b = 0x2c then
      match skipBlanks rest with
      | [] => .error ⟨.endInValue, 0⟩
      | 0x22 :: name => .ok (.more name)
      | 0x7d :: rest => .error (.before .commaAtEnd rest)
      | _ :: rest => .error (.before .keyNotString rest)
    else .error (.before .noCommaInObject rest)

end AddressExchange.Json
