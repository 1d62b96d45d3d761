import AddressExchange.Crypto.Keccak

/-!
# Polynomials of ML-KEM

Polynomials with 256 coefficients modulo 3329, the number-theoretic transform under which they are
multiplied, their packing into bytes, and the two ways in which they are drawn at random.
-/

namespace AddressExchange.MlKem

/-- The modulus of coefficients. -/
def modulus : Nat := 3329

/-- A polynomial, or its transform: 256 coefficients below the modulus. -/
abbrev Polynomial := Array Nat

namespace Polynomial

@[inline] def at_ (f : Polynomial) (i : Nat) : Nat := f.getD i 0

def zero : Polynomial := Array.replicate 256 0

def add (f g : Polynomial) : Polynomial :=
  Array.ofFn fun (i : Fin 256) => (f.at_ i + g.at_ i) % modulus

def subtract (f g : Polynomial) : Polynomial :=
  Array.ofFn fun (i : Fin 256) => (f.at_ i + modulus - g.at_ i) % modulus

/-! ## The transform -/

/-- A number of seven bits with its bits in reverse. -/
def reverse7 (n : Nat) : Nat :=
  (List.range 7).foldl (fun r i => 2 * r + (n >>> i) % 2) 0

/-- The powers of 17, a root of unity of order 256. -/
def power17 : Nat → Nat
  | 0 => 1
  | n + 1 => power17 n * 17 % modulus

/-- The roots that the layers of the transform multiply by. -/
def roots : Array Nat := (Array.range 128).map fun n => power17 (reverse7 n)

/-- The roots that products of transforms are reduced by. -/
def squareRoots : Array Nat := (Array.range 128).map fun n => power17 (2 * reverse7 n + 1)

/-- One layer of the transform; `width` is the distance of the coefficients that are combined. -/
def layer (f : Polynomial) (width : Nat) : Polynomial :=
  Array.ofFn fun (i : Fin 256) =>
    let j := i.val
    let root := roots.getD (128 / width + j / (2 * width)) 0
    if j % (2 * width) < width then (f.at_ j + root * f.at_ (j + width)) % modulus
    else (f.at_ (j - width) + modulus - root * f.at_ j % modulus) % modulus

/-- The transform of a polynomial. -/
def transform (f : Polynomial) : Polynomial := [128, 64, 32, 16, 8, 4, 2].foldl layer f

/-- One layer of the way back. -/
def layerBack (f : Polynomial) (width : Nat) : Polynomial :=
  Array.ofFn fun (i : Fin 256) =>
    let j := i.val
    let root := roots.getD (256 / width - 1 - j / (2 * width)) 0
    if j % (2 * width) < width then (f.at_ j + f.at_ (j + width)) % modulus
    else root * (f.at_ j + modulus - f.at_ (j - width)) % modulus

/-- The polynomial of a transform. The factor is the inverse of 128. -/
def transformBack (f : Polynomial) : Polynomial :=
  ([2, 4, 8, 16, 32, 64, 128].foldl layerBack f).map fun c => c * 3303 % modulus

/-- The product of two transforms, pair by pair. -/
def multiply (f g : Polynomial) : Polynomial :=
  Array.ofFn fun (i : Fin 256) =>
    let j := i.val / 2 * 2
    if i.val % 2 = 0 then
      (f.at_ j * g.at_ j + f.at_ (j + 1) * g.at_ (j + 1) % modulus * squareRoots.getD (j / 2) 0) %
        modulus
    else (f.at_ j * g.at_ (j + 1) + f.at_ (j + 1) * g.at_ j) % modulus

/-- The sum of the products of two rows of transforms. -/
def dot (fs gs : List Polynomial) : Polynomial := (fs.zipWith multiply gs).foldl add zero

/-! ## Packing -/

/-- Packs numbers of `bits` bits into bytes, lowest bits first. -/
def pack (bits : Nat) (f : Polynomial) : Bytes :=
  Bytes.littleEndian (32 * bits) (f.foldr (fun c n => c + (n <<< bits)) 0)

/-- The numbers of `bits` bits that bytes hold. -/
def unpack (bits : Nat) (bs : Bytes) : Polynomial :=
  let n := Bytes.ofLittleEndian bs
  Array.ofFn fun (i : Fin 256) => (n >>> (bits * i.val)) % (1 <<< bits)

/-- Reads whole coefficients, which are reduced. -/
def unpackWhole (bs : Bytes) : Polynomial := (unpack 12 bs).map (· % modulus)

/-- Rounds coefficients to `bits` bits. -/
def compress (bits : Nat) (f : Polynomial) : Polynomial :=
  f.map fun c => ((c <<< bits) * 2 + modulus) / (2 * modulus) % (1 <<< bits)

/-- The coefficients that were rounded, up to the error of rounding. -/
def decompress (bits : Nat) (f : Polynomial) : Polynomial :=
  f.map fun c => (modulus * c * 2 + (1 <<< bits)) >>> (bits + 1)

/-! ## Drawing -/

/-- Takes from bytes all numbers of twelve bits that are below the modulus, until there are enough
of them. -/
def takeSmall (f : Polynomial) : Bytes → Polynomial
  | a :: b :: c :: rest =>
    let low := a.toNat + 256 * (b.toNat % 16)
    let high := b.toNat / 16 + 16 * c.toNat
    let f := if low < modulus && f.size < 256 then f.push low else f
    let f := if high < modulus && f.size < 256 then f.push high else f
    takeSmall f rest
  | _ => f

/-- Draws coefficients from a stream, block by block. A block holds 112 numbers, most of them small
enough, so the bound on blocks is never met. -/
def fill (f : Polynomial) (s : Keccak.State) : Nat → Polynomial
  | 0 => f
  | blocks + 1 =>
    let f := takeSmall f (Keccak.output Keccak.streamRate s)
    if 256 ≤ f.size then f else fill f (Keccak.permute s) blocks

/-- A uniform transform, drawn from a seed. -/
def uniform (seed : Bytes) : Polynomial := fill #[] (Keccak.stream seed) 1000

/-- A polynomial with small coefficients, drawn from the halves of bytes: each is the difference of
two sums of two bits. -/
def small (bs : Bytes) : Polynomial :=
  let coefficient (n : Nat) : Nat :=
    (n % 2 + n / 2 % 2 + modulus - n / 4 % 2 - n / 8 % 2) % modulus
  (bs.flatMap fun b => [coefficient (b.toNat % 16), coefficient (b.toNat / 16)]).toArray

end Polynomial

end AddressExchange.MlKem
