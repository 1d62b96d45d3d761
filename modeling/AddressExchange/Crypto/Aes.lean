import AddressExchange.Bytes

/-!
# AES

The block cipher of FIPS 197 with keys of 256 bits, in the direction of encryption.
-/

namespace AddressExchange.Aes

/-- Doubles an element of the field with 256 elements. -/
def double (a : UInt8) : UInt8 := (a <<< 1) ^^^ (if a < 0x80 then 0 else 0x1b)

/-- The product of two elements of the field, by the bits of the second. -/
def multiply (a b : UInt8) : Nat → UInt8
  | 0 => 0
  | bits + 1 => (if b &&& 1 = 0 then 0 else a) ^^^ multiply (double a) (b >>> 1) bits

/-- The inverse of an element of the field; zero is its own. -/
def inverse (a : UInt8) : UInt8 :=
  let square (x : UInt8) : UInt8 := multiply x x 8
  let rec go (x power : UInt8) : Nat → UInt8
    | 0 => power
    | n + 1 => go (square x) (multiply power (square x) 8) n
  go a 1 7

/-- The substitution of one byte. -/
def substitute (a : UInt8) : UInt8 :=
  let b := inverse a
  let turned (n : UInt8) : UInt8 := (b <<< n) ||| (b >>> (8 - n))
  b ^^^ turned 1 ^^^ turned 2 ^^^ turned 3 ^^^ turned 4 ^^^ 0x63

/-- The substitution of all bytes. -/
def substitutions : Array UInt8 := (Array.range 256).map fun n => substitute (.ofNat n)

/-- The substitution of a byte, looked up. -/
@[inline] def sub (a : UInt8) : UInt8 := substitutions.getD a.toNat 0

/-! ## Keys -/

/-- A word of four bytes. -/
structure Word where
  b0 : UInt8
  b1 : UInt8
  b2 : UInt8
  b3 : UInt8
  deriving Inhabited

namespace Word

@[inline] def xor (a b : Word) : Word :=
  ⟨a.b0 ^^^ b.b0, a.b1 ^^^ b.b1, a.b2 ^^^ b.b2, a.b3 ^^^ b.b3⟩
def sub (a : Word) : Word := ⟨Aes.sub a.b0, Aes.sub a.b1, Aes.sub a.b2, Aes.sub a.b3⟩
def turn (a : Word) : Word := ⟨a.b1, a.b2, a.b3, a.b0⟩
def toBytes (a : Word) : Bytes := [a.b0, a.b1, a.b2, a.b3]

def ofBytes : Bytes → Word
  | [a, b, c, d] => ⟨a, b, c, d⟩
  | _ => ⟨0, 0, 0, 0⟩

/-- Mixes the bytes of a column. -/
@[inline] def mix (a : Word) : Word :=
  let all := a.b0 ^^^ a.b1 ^^^ a.b2 ^^^ a.b3
  ⟨a.b0 ^^^ all ^^^ double (a.b0 ^^^ a.b1), a.b1 ^^^ all ^^^ double (a.b1 ^^^ a.b2),
    a.b2 ^^^ all ^^^ double (a.b2 ^^^ a.b3), a.b3 ^^^ all ^^^ double (a.b3 ^^^ a.b0)⟩

end Word

/-- The words of a key, eight more at a time, as often as there are round constants. -/
def expand (words : Array Word) : List UInt8 → Array Word
  | [] => words
  | constant :: constants =>
    let next (ws : Array Word) (i : Nat) : Array Word :=
      let last := ws.getD (ws.size - 1) default
      let changed :=
        if i = 0 then last.turn.sub.xor ⟨constant, 0, 0, 0⟩
        else if i = 4 then last.sub
        else last
      ws.push ((ws.getD (ws.size - 8) default).xor changed)
    expand ((List.range 8).foldl next words) constants

/-- The words of a key of 32 bytes: four for each of the fifteen round keys, and some to spare. -/
def schedule (key : Bytes) : Array Word :=
  expand ((Bytes.pieces 4 key).map Word.ofBytes).toArray [1, 2, 4, 8, 16, 32, 64]

/-! ## Blocks -/

/-- A block of sixteen bytes, as its columns. -/
structure Block where
  c0 : Word
  c1 : Word
  c2 : Word
  c3 : Word

namespace Block

def toBytes (s : Block) : Bytes := s.c0.toBytes ++ s.c1.toBytes ++ s.c2.toBytes ++ s.c3.toBytes

def ofBytes (bs : Bytes) : Block :=
  let word (i : Nat) : Word := .ofBytes ((bs.drop (4 * i)).take 4)
  ⟨word 0, word 1, word 2, word 3⟩

/-- Adds the round key whose words begin at a place. -/
def addKey (words : Array Word) (place : Nat) (s : Block) : Block :=
  ⟨s.c0.xor (words.getD place default), s.c1.xor (words.getD (place + 1) default),
    s.c2.xor (words.getD (place + 2) default), s.c3.xor (words.getD (place + 3) default)⟩

/-- Substitutes all bytes and shifts the rows. -/
def subShift (s : Block) : Block :=
  let column (a b c d : Word) : Word := ⟨sub a.b0, sub b.b1, sub c.b2, sub d.b3⟩
  ⟨column s.c0 s.c1 s.c2 s.c3, column s.c1 s.c2 s.c3 s.c0, column s.c2 s.c3 s.c0 s.c1,
    column s.c3 s.c0 s.c1 s.c2⟩

def mix (s : Block) : Block := ⟨s.c0.mix, s.c1.mix, s.c2.mix, s.c3.mix⟩

end Block

/-- Encrypts a block under the words of a key. -/
def encryptBlock (words : Array Word) (block : Bytes) : Bytes :=
  let start := (Block.ofBytes block).addKey words 0
  let inner := (List.range 13).foldl (fun s i => s.subShift.mix.addKey words (4 * (i + 1))) start
  (inner.subShift.addKey words 56).toBytes

end AddressExchange.Aes
