import AddressExchange.Bytes

/-!
# UTF-8

Reading bytes as text. Bytes that are no text are refused with the place of the first fault.
-/

namespace AddressExchange.Text

/-- The bytes of a text. -/
def utf8 (s : String) : Bytes := s.toUTF8.data.toList

namespace Utf8

/-- Why bytes are not UTF-8. -/
inductive Fault where
  /-- `length` bytes at `index` begin no character. -/
  | invalid (length index : Nat)
  /-- The bytes end inside a character that begins at `index`. -/
  | incomplete (index : Nat)
  deriving Repr, DecidableEq

/-- Is `b` between the two bytes? -/
def within (low high b : UInt8) : Bool := low ≤ b && b ≤ high

/-- Is `b` one of the later bytes of a character? -/
def isTail (b : UInt8) : Bool := within 0x80 0xbf b

/-- The number of bytes of the character that `b` begins, and the range of its second byte. -/
def leader? (b : UInt8) : Option (Nat × UInt8 × UInt8) :=
  if b < 0x80 then some (1, 0, 0)
  else if within 0xc2 0xdf b then some (2, 0x80, 0xbf)
  else if b = 0xe0 then some (3, 0xa0, 0xbf)
  else if b = 0xed then some (3, 0x80, 0x9f)
  else if within 0xe1 0xef b then some (3, 0x80, 0xbf)
  else if b = 0xf0 then some (4, 0x90, 0xbf)
  else if within 0xf1 0xf3 b then some (4, 0x80, 0xbf)
  else if b = 0xf4 then some (4, 0x80, 0x8f)
  else none

/-- What the bytes begin with: the rest behind one character, or a fault at `index`. -/
def step (index : Nat) (b : UInt8) (rest : Bytes) : Except Fault (Nat × Bytes) :=
  match leader? b with
  | none => .error (.invalid 1 index)
  | some (1, _, _) => .ok (1, rest)
  | some (width, low, high) =>
    match rest with
    | [] => .error (.incomplete index)
    | second :: rest =>
      if !within low high second then .error (.invalid 1 index)
      else if width = 2 then .ok (2, rest)
      else match rest with
        | [] => .error (.incomplete index)
        | third :: rest =>
          if !isTail third then .error (.invalid 2 index)
          else if width = 3 then .ok (3, rest)
          else match rest with
            | [] => .error (.incomplete index)
            | fourth :: rest =>
              if isTail fourth then .ok (4, rest) else .error (.invalid 3 index)

/-- The first fault of bytes that are not UTF-8. `skip` counts the bytes of a character that were
checked with its first one. -/
def fault (index skip : Nat) : Bytes → Fault
  | [] => .incomplete index
  | b :: rest =>
    match skip with
    | skip + 1 => fault (index + 1) skip rest
    | 0 =>
      match step index b rest with
      | .error e => e
      | .ok (width, _) => fault (index + 1) (width - 1) rest

/-- Reads bytes as text. -/
def decode (bs : Bytes) : Except Fault String :=
  match String.fromUTF8? bs.toByteArray with
  | some s => .ok s
  | none => .error (fault 0 0 bs)

/-- The text of bytes, if they are text. -/
def decode? (bs : Bytes) : Option String := String.fromUTF8? bs.toByteArray

/-- The wording of a fault. -/
def Fault.message : Fault → String
  | .invalid length index => s!"invalid utf-8 sequence of {length} bytes from index {index}"
  | .incomplete index => s!"incomplete utf-8 byte sequence from index {index}"

end Utf8

end AddressExchange.Text
