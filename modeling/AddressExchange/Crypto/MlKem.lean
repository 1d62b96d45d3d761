import AddressExchange.Crypto.MlKem.Polynomial
import AddressExchange.Keys

/-!
# ML-KEM-768

The key encapsulation of FIPS 203 with rows of three polynomials. A ciphertext that was not made for
a key yields a secret all the same, which nobody can foretell, and no fault.
-/

namespace AddressExchange.MlKem

/-- The number of polynomials in a row. -/
def rank : Nat := 3

/-- The bytes of a key that hold its row. -/
def rowSize : Nat := 1152

/-- The transforms of a row of whole coefficients. -/
def readRow (bs : Bytes) : List Polynomial := (Bytes.pieces 384 bs).map .unpackWhole

def writeRow (row : List Polynomial) : Bytes := row.flatMap (·.pack 12)

/-- An entry of the matrix that a seed gives. -/
def entry (seed : Bytes) (row column : Nat) : Polynomial :=
  .uniform (seed ++ [UInt8.ofNat column, UInt8.ofNat row])

/-- A polynomial with small coefficients, the one of a number that a seed gives. -/
def drawSmall (seed : Bytes) (n : Nat) : Polynomial :=
  .small (Keccak.shake256 (seed ++ [UInt8.ofNat n]) 128)

/-- What a public key is read as. -/
structure Encryption where
  row : List Polynomial
  seed : Bytes

namespace Encryption

def ofBytes (bs : Bytes) : Encryption := ⟨readRow (bs.take rowSize), bs.drop rowSize⟩
def toBytes (e : Encryption) : Bytes := writeRow e.row ++ e.seed

/-- Encrypts 32 bytes with the coins that a seed gives. -/
def encrypt (e : Encryption) (message coins : Bytes) : Bytes :=
  let ys := (List.range rank).map fun i => (drawSmall coins i).transform
  let us := (List.range rank).map fun i =>
    let column := (List.range rank).map fun j => entry e.seed j i
    (Polynomial.dot column ys).transformBack.add (drawSmall coins (rank + i))
  let v := ((Polynomial.dot e.row ys).transformBack.add (drawSmall coins (2 * rank))).add
    ((Polynomial.unpack 1 message).decompress 1)
  us.flatMap (fun u => (u.compress 10).pack 10) ++ (v.compress 4).pack 4

end Encryption

/-- Decrypts 32 bytes with the row of a secret key. -/
def decrypt (row : List Polynomial) (ciphertext : Bytes) : Bytes :=
  let us := (Bytes.pieces 320 (ciphertext.take 960)).map fun bs =>
    ((Polynomial.unpack 10 bs).decompress 10).transform
  let v := (Polynomial.unpack 4 (ciphertext.drop 960)).decompress 4
  ((v.subtract (Polynomial.dot row us).transformBack).compress 1).pack 1

/-! ## The scheme -/

/-- The key pair of 64 random bytes. -/
def generate (random : Bytes) : KeyPair :=
  let random := Bytes.resize 64 random
  let seeds := Keccak.sha3_512 (random.take 32 ++ [UInt8.ofNat rank])
  let (seed, noise) := (seeds.take 32, seeds.drop 32)
  let secrets := (List.range rank).map fun i => (drawSmall noise i).transform
  let row := (List.range rank).map fun i =>
    let matrixRow := (List.range rank).map fun j => entry seed i j
    (Polynomial.dot matrixRow secrets).add (drawSmall noise (rank + i)).transform
  let publicKey := (Encryption.mk row seed).toBytes
  let secretKey := writeRow secrets ++ publicKey ++ Keccak.sha3_256 publicKey ++ random.drop 32
  ⟨⟨Bytes.resize _ publicKey, Bytes.length_resize _ _⟩,
    ⟨Bytes.resize _ secretKey, Bytes.length_resize _ _⟩⟩

/-- A shared secret and the ciphertext that carries it to the holder of a key, from 32 random
bytes. -/
def encapsulate (key : PublicKey) (random : Bytes) : KemCiphertext × Bytes :=
  let message := Bytes.resize 32 random
  let e := Encryption.ofBytes key.bytes
  let secrets := Keccak.sha3_512 (message ++ Keccak.sha3_256 e.toBytes)
  let ciphertext := e.encrypt message (secrets.drop 32)
  (⟨Bytes.resize _ ciphertext, Bytes.length_resize _ _⟩, secrets.take 32)

/-- The shared secret that a ciphertext carries. It is encrypted again, and unless this gives the
same ciphertext, the secret is derived from the ciphertext and a part of the key that nobody else
has. -/
def decapsulate (key : SecretKey) (ciphertext : KemCiphertext) : Bytes :=
  let row := readRow (key.bytes.take rowSize)
  let e := Encryption.ofBytes ((key.bytes.drop rowSize).take Protocol.publicKeySize)
  let behind := key.bytes.drop (rowSize + Protocol.publicKeySize)
  let (publicHash, refusal) := (behind.take 32, behind.drop 32)
  let message := decrypt row ciphertext.bytes
  let secrets := Keccak.sha3_512 (message ++ publicHash)
  if e.encrypt message (secrets.drop 32) = ciphertext.bytes then secrets.take 32
  else Keccak.shake256 (refusal ++ ciphertext.bytes) 32

end AddressExchange.MlKem
