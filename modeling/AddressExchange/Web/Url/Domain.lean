import AddressExchange.Web.Url.Punycode

/-!
# Domain names

A domain name is brought to lower case and to ASCII. Characters that no name may hold are refused.
-/

namespace AddressExchange.Web.Domain

/-- What becomes of a character of a name. -/
inductive Fate where
  | keep
  | become (cs : List Char)
  | refuse

/-- Ranges of capitals that lie a fixed way before their small letters. -/
def capitals : List (Nat × Nat × Nat) :=
  [(0x41, 0x5a, 32), (0xc0, 0xd6, 32), (0xd8, 0xde, 32), (0x391, 0x3a1, 32), (0x3a3, 0x3ab, 32),
   (0x400, 0x40f, 80), (0x410, 0x42f, 32), (0x531, 0x556, 48), (0x10400, 0x10427, 40)]

/-- Ranges in which a capital with an even number lies before its small letter. -/
def evenPairs : List (Nat × Nat) :=
  [(0x100, 0x12f), (0x132, 0x137), (0x14a, 0x177), (0x1de, 0x1ef), (0x1f8, 0x21f), (0x222, 0x233),
   (0x370, 0x373), (0x3d8, 0x3ef), (0x460, 0x481), (0x48a, 0x4bf), (0x4d0, 0x52f), (0x1e00, 0x1e95),
   (0x1ea0, 0x1eff)]

/-- Ranges in which a capital with an odd number lies before its small letter. -/
def oddPairs : List (Nat × Nat) := [(0x139, 0x148), (0x179, 0x17e), (0x1cd, 0x1dc), (0x4c1, 0x4ce)]

/-- Single characters that stand for others. -/
def others : List (Nat × List Char) :=
  [(0xaa, ['a']), (0xba, ['o']), (0xb2, ['2']), (0xb3, ['3']), (0xb9, ['1']), (0xb5, ['μ']),
   (0x130, ['i', '\u0307']), (0x178, ['ÿ']), (0x17f, ['s']), (0x386, ['ά']), (0x388, ['έ']),
   (0x389, ['ή']), (0x38a, ['ί']), (0x38c, ['ό']), (0x38e, ['ύ']), (0x38f, ['ώ']), (0x4c0, ['ӏ']),
   (0x1e9e, ['s', 's']), (0x2122, ['t', 'm']), (0x212a, ['k']), (0x212b, ['å']), (0x3002, ['.']),
   (0xff61, ['.']), (0xfb00, ['f', 'f']), (0xfb01, ['f', 'i']), (0xfb02, ['f', 'l'])]

/-- Characters that leave no trace. -/
def ignored : List (Nat × Nat) :=
  [(0xad, 0xad), (0x34f, 0x34f), (0x200b, 0x200b), (0x2060, 0x2060), (0x2064, 0x2064),
   (0xfe00, 0xfe0f), (0xfeff, 0xfeff)]

/-- Characters that no name may hold: controls, blanks and marks that stand on one, those that are
for private use, and those of no meaning. -/
def refused : List (Nat × Nat) :=
  [(0x80, 0xa0), (0xa8, 0xa8), (0xaf, 0xaf), (0xb4, 0xb4), (0xb8, 0xb8), (0x1680, 0x1680),
   (0x2000, 0x200a), (0x200c, 0x200f), (0x2028, 0x202f), (0x205f, 0x205f), (0x2061, 0x2063),
   (0x2065, 0x206f), (0x2ff0, 0x2fff), (0x3000, 0x3000), (0xe000, 0xf8ff), (0xfff9, 0xffff),
   (0xf0000, 0x10ffff)]

def within (ranges : List (Nat × Nat)) (n : Nat) : Bool := ranges.any fun r => r.1 ≤ n && n ≤ r.2

/-- ASCII characters with a meaning of their own in URLs, beside controls and the blank. -/
def reserved : List Char := ['%', '#', '/', ':', '<', '>', '?', '@', '[', '\\', ']', '^', '|']

/-- A small letter in place of a capital. -/
def lower (n : Nat) : Option Nat :=
  match capitals.find? fun r => r.1 ≤ n && n ≤ r.2.1 with
  | some r => some (n + r.2.2)
  | none =>
    if within evenPairs n && n % 2 = 0 || within oddPairs n && n % 2 = 1 then some (n + 1) else none

/-- What becomes of a character. A wide form of an ASCII character counts as that character. -/
def fate (c : Char) : Fate :=
  let n := if 0xff01 ≤ c.toNat && c.toNat ≤ 0xff5e then c.toNat - 0xfee0 else c.toNat
  if n ≤ 0x20 || n = 0x7f || reserved.contains (Char.ofNat n) || within refused n then .refuse
  else if within ignored n then .become []
  else match others.lookup n with
    | some cs => .become cs
    | none =>
      match lower n with
      | some m => .become [Char.ofNat m]
      | none => if n = c.toNat then .keep else .become [Char.ofNat n]

/-- The characters of a name after their replacement. -/
def mapped : List Char → Option (List Char)
  | [] => some []
  | c :: cs =>
    match fate c with
    | .keep => do some (c :: (← mapped cs))
    | .become ds => do some (ds ++ (← mapped cs))
    | .refuse => none

/-- Is a text in ASCII the written form of a label that needs one? -/
def isEncoded (text : List Char) : Bool :=
  match Punycode.decode text with
  | none => false
  | some label => label.any (128 ≤ ·.toNat) && decide (mapped label = some label) &&
      text.getLast? ≠ some '-'

/-- A label in ASCII. -/
def label? (label : List Char) : Option (List Char) :=
  match label with
  | 'x' :: 'n' :: '-' :: '-' :: text =>
    if label.all (·.toNat < 128) && isEncoded text then some label else none
  | _ =>
    if label.all (·.toNat < 128) then some label
    else some ('x' :: 'n' :: '-' :: '-' :: Punycode.encode label)

/-- A name in lower case and ASCII. -/
def ascii? (name : List Char) : Option (List Char) := do
  let labels ← ((← mapped name).splitOn '.').mapM label?
  some (['.'].intercalate labels)

end AddressExchange.Web.Domain
