/-!
# Byte strings

Byte strings as lists, and numbers of a fixed width inside them.
-/

namespace AddressExchange

/-- A byte string. -/
abbrev Bytes := List UInt8

namespace Bytes

/-- The lowest `width` bytes of a number, least significant first. -/
def littleEndian : Nat → Nat → Bytes
  | 0, _ => []
  | width + 1, n => UInt8.ofNat n :: littleEndian width (n / 256)

/-- The lowest `width` bytes of a number, most significant first. -/
def bigEndian (width n : Nat) : Bytes := (littleEndian width n).reverse

/-- The number written with its least significant byte first. -/
def ofLittleEndian (bs : Bytes) : Nat := bs.foldr (fun b n => b.toNat + 256 * n) 0

/-- The number written with its most significant byte first. -/
def ofBigEndian (bs : Bytes) : Nat := bs.foldl (fun n b => n * 256 + b.toNat) 0

/-- Exclusive or, byte by byte, as long as both last. -/
def xor (a b : Bytes) : Bytes := a.zipWith (· ^^^ ·) b

/-- `n` zero bytes. -/
def zeros (n : Nat) : Bytes := List.replicate n 0

/-- The first `n` bytes and the rest, if there are that many. -/
def splitAt? (n : Nat) (bs : Bytes) : Option (Bytes × Bytes) :=
  if n ≤ bs.length then some (bs.take n, bs.drop n) else none

/-- The bytes in pieces of `n`; the last piece may be shorter. -/
def pieces (n : Nat) : Bytes → List Bytes
  | [] => []
  | b :: bs =>
    if n = 0 then [] else (b :: bs).take n :: pieces n ((b :: bs).drop n)
termination_by bs => bs.length
decreasing_by simp; omega

/-- The bytes brought to a length: cut, or filled up with zeros. -/
def resize (n : Nat) (bs : Bytes) : Bytes := (bs ++ zeros n).take n

@[simp] theorem length_resize (n : Nat) (bs : Bytes) : (resize n bs).length = n := by
  simp [resize, zeros]

@[simp] theorem length_littleEndian (width n : Nat) : (littleEndian width n).length = width := by
  induction width generalizing n with
  | zero => rfl
  | succ width ih => simp [littleEndian, ih]

@[simp] theorem length_bigEndian (width n : Nat) : (bigEndian width n).length = width := by
  simp [bigEndian]

end Bytes

end AddressExchange
