import AddressExchange.Crypto.Aes

/-!
# Sealing

Authenticated encryption by AES in Galois/Counter Mode, with nonces of twelve bytes. A sealed
message is sixteen bytes longer than the message and opens only with the key, nonce and associated
data that it was sealed with.
-/

namespace AddressExchange.Gcm

/-! ## The authenticator -/

/-- An element of the field with 2 ^ 128 elements, its first bit the highest. -/
structure Element where
  high : UInt64
  low : UInt64

namespace Element

@[inline] def xor (a b : Element) : Element := ⟨a.high ^^^ b.high, a.low ^^^ b.low⟩

/-- Multiplies by the variable. -/
@[inline] def shift (a : Element) : Element :=
  let carry : UInt64 := if a.low &&& 1 = 0 then 0 else 0xe100000000000000
  ⟨(a.high >>> 1) ^^^ carry, (a.low >>> 1) ||| (a.high <<< 63)⟩

/-- Adds the product of `a` with the first bits of `b` to `sum`. -/
def multiplyAux (sum a b : Element) : Nat → Element
  | 0 => sum
  | bits + 1 =>
    let sum := if b.high &&& 0x8000000000000000 = 0 then sum else sum.xor a
    multiplyAux sum a.shift ⟨(b.high <<< 1) ||| (b.low >>> 63), b.low <<< 1⟩ bits

def multiply (a b : Element) : Element := multiplyAux ⟨0, 0⟩ a b 128

/-- The number of eight bytes, the first of them highest. -/
def half (bs : Bytes) : UInt64 := bs.foldl (fun n b => (n <<< 8) ||| b.toUInt64) 0

/-- The element of a block; a short block is filled up with zeros. -/
def ofBytes (bs : Bytes) : Element :=
  let bs := Bytes.resize 16 bs
  ⟨half (bs.take 8), half (bs.drop 8)⟩

def toBytes (a : Element) : Bytes := Bytes.bigEndian 8 a.high.toNat ++ Bytes.bigEndian 8 a.low.toNat

end Element

/-- The blocks that are authenticated: the associated data, the sealed text and their lengths. -/
def authenticated (data sealed_ : Bytes) : List Bytes :=
  Bytes.pieces 16 data ++ Bytes.pieces 16 sealed_ ++
    [Bytes.bigEndian 8 (8 * data.length) ++ Bytes.bigEndian 8 (8 * sealed_.length)]

/-- The hash of blocks under a hash key. -/
def digest (key : Element) (blocks : List Bytes) : Element :=
  blocks.foldl (fun sum block => (sum.xor (.ofBytes block)).multiply key) ⟨0, 0⟩

/-! ## Encryption -/

/-- The counter block with a number. -/
def counterBlock (nonce : Bytes) (n : Nat) : Bytes := nonce ++ Bytes.bigEndian 4 n

/-- Adds the stream of encrypted counters to a text, which encrypts and decrypts it. -/
def addStream (words : Array Aes.Word) (nonce text : Bytes) : Bytes :=
  ((Bytes.pieces 16 text).zipIdx 2).flatMap fun (piece, n) =>
    Bytes.xor piece (Aes.encryptBlock words (counterBlock nonce n))

/-- The tag of a sealed text. -/
def tag (words : Array Aes.Word) (nonce data sealed_ : Bytes) : Bytes :=
  let key := Element.ofBytes (Aes.encryptBlock words (Bytes.zeros 16))
  Bytes.xor (digest key (authenticated data sealed_)).toBytes
    (Aes.encryptBlock words (counterBlock nonce 1))

/-- Seals a message together with associated data. -/
def sealWith (key nonce message data : Bytes) : Bytes :=
  let words := Aes.schedule key
  let sealed_ := addStream words nonce message
  sealed_ ++ tag words nonce data sealed_

/-- Opens a sealed message, if its tag is right. -/
def openWith (key nonce sealed_ data : Bytes) : Option Bytes :=
  if sealed_.length < 16 then none
  else
    let words := Aes.schedule key
    let text := sealed_.take (sealed_.length - 16)
    if sealed_.drop (sealed_.length - 16) = tag words nonce data text then
      some (addStream words nonce text)
    else none

end AddressExchange.Gcm
