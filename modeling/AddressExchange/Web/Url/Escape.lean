import AddressExchange.Text.Utf8
import AddressExchange.Hex

/-!
# Escaped text in URLs

A byte that a part of a URL may not hold as it is stands there as a percent sign and two upper case
digits. Each part has its own set of such bytes; controls and all beyond ASCII are in every one.
-/

namespace AddressExchange.Web.Escape

/-- Which printable ASCII characters a part may not hold. -/
structure Part where
  escaped : List Char

def fragment : Part := ⟨[' ', '"', '<', '>', '`']⟩
def path : Part := ⟨fragment.escaped ++ ['#', '?', '\x7b', '\x7d']⟩
def userinfo : Part := ⟨path.escaped ++ ['/', ':', ';', '=', '@', '[', '\\', ']', '^', '|']⟩
def query : Part := ⟨[' ', '"', '#', '<', '>', '\'']⟩

/-- A hexadecimal digit in upper case. -/
def digit (n : UInt8) : Char := (Hex.digit n).toUpper

/-- The escape of a byte. -/
def escape (b : UInt8) : List Char := ['%', digit (b >>> 4), digit (b &&& 15)]

/-- A character as a part holds it. -/
def encodeChar (part : Part) (c : Char) : List Char :=
  if c.toNat < 0x20 || 0x7f ≤ c.toNat || part.escaped.contains c then
    (Text.utf8 c.toString).flatMap escape
  else [c]

/-- A text as a part holds it. -/
def encode (part : Part) (cs : List Char) : String := String.ofList (cs.flatMap (encodeChar part))

/-- The bytes with their escapes replaced; a percent sign that begins none stays. -/
def decode : Bytes → Bytes
  | 0x25 :: high :: low :: rest =>
    match Hex.value? high, Hex.value? low with
    | some h, some l => (h <<< 4 ||| l) :: decode rest
    | _, _ => 0x25 :: decode (high :: low :: rest)
  | b :: rest => b :: decode rest
  | [] => []

end AddressExchange.Web.Escape
