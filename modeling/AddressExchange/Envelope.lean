import AddressExchange.Cipher
import AddressExchange.Crypto.Gcm
import AddressExchange.Crypto.Hash
import AddressExchange.Crypto.MlKem

/-!
# Envelopes

A message of any length for the holder of a key. A session key seals the message; the session key is
sealed in turn, under a key derived from a shared secret that the envelope carries. Each seal covers
all that stands before it, so an envelope that was changed anywhere does not open.
-/

namespace AddressExchange

/-- The two primitives that envelopes are made of. -/
structure Suite where
  generate : Bytes → KeyPair
  /-- A shared secret for the holder of a key, with the ciphertext that carries it. -/
  encapsulate : PublicKey → Bytes → KemCiphertext × Bytes
  decapsulate : SecretKey → KemCiphertext → Bytes
  /-- Seals a message with associated data under a key and a nonce. -/
  sealWith : (key nonce message data : Bytes) → Bytes
  openWith : (key nonce sealed_ data : Bytes) → Option Bytes

/-- ML-KEM-768 with AES-256-GCM. -/
def Suite.standard : Suite where
  generate := MlKem.generate
  encapsulate := MlKem.encapsulate
  decapsulate := MlKem.decapsulate
  sealWith := Gcm.sealWith
  openWith := Gcm.openWith

namespace Envelope

/-- What is random about an envelope. -/
structure Coins where
  sessionKey : Bytes
  kemSeed : Bytes
  wrapNonce : Bytes
  payloadNonce : Bytes
  sessionKey_length : sessionKey.length = Protocol.sessionKeySize
  wrapNonce_length : wrapNonce.length = Protocol.nonceSize
  payloadNonce_length : payloadNonce.length = Protocol.nonceSize

/-- Coins out of random bytes. -/
def Coins.ofBytes (random : Bytes) : Coins where
  sessionKey := Bytes.resize Protocol.sessionKeySize random
  kemSeed := (random.drop 32).take 32
  wrapNonce := Bytes.resize Protocol.nonceSize (random.drop 64)
  payloadNonce := Bytes.resize Protocol.nonceSize (random.drop 76)
  sessionKey_length := Bytes.length_resize _ _
  wrapNonce_length := Bytes.length_resize _ _
  payloadNonce_length := Bytes.length_resize _ _

/-- The key that the session key is sealed under. -/
def wrapKey (secret : Bytes) (ciphertext : KemCiphertext) : Bytes :=
  Hash.many Protocol.keyWrapDomain [secret, ciphertext.bytes] Protocol.sessionKeySize

/-! ## The layout -/

/-- The length of a sealed session key. -/
def wrappedSize : Nat := Protocol.sessionKeySize + Protocol.tagSize

/-- All that stands before the nonce of the session key. -/
def opening (ciphertext : KemCiphertext) : Bytes :=
  Text.utf8 Protocol.envelopeMagic ++ Protocol.envelopeVersion ::
    (Bytes.bigEndian 2 Protocol.kemCiphertextSize ++ ciphertext.bytes)

/-- All that stands before the sealed message. -/
def header (ciphertext : KemCiphertext) (wrapNonce wrapped payloadNonce : Bytes)
    (payloadSize : Nat) : Bytes :=
  opening ciphertext ++ wrapNonce ++ Bytes.bigEndian 2 wrappedSize ++ wrapped ++ payloadNonce ++
    Bytes.bigEndian 4 payloadSize

/-- The length of all that stands before the sealed message. -/
def headerSize : Nat :=
  4 + 1 + 2 + Protocol.kemCiphertextSize + Protocol.nonceSize + 2 + wrappedSize +
    Protocol.nonceSize + 4

/-- The parts of an envelope. -/
structure Parts where
  ciphertext : KemCiphertext
  wrapNonce : Bytes
  wrapped : Bytes
  payloadNonce : Bytes
  payload : Bytes

/-- The bytes of an envelope. -/
def Parts.toBytes (p : Parts) : Bytes :=
  header p.ciphertext p.wrapNonce p.wrapped p.payloadNonce p.payload.length ++ p.payload

/-- Reads `n` bytes. -/
def take (n : Nat) (bs : Bytes) : Option (Bytes × Bytes) := Bytes.splitAt? n bs

/-- Reads a fixed string of bytes. -/
def expect (wanted bs : Bytes) : Option Bytes := do
  let (found, rest) ← take wanted.length bs
  if found = wanted then some rest else none

/-- The parts that bytes are laid out as. -/
def Parts.ofBytes? (bs : Bytes) : Option Parts := do
  let rest ← expect (Text.utf8 Protocol.envelopeMagic) bs
  let rest ← expect [Protocol.envelopeVersion] rest
  let rest ← expect (Bytes.bigEndian 2 Protocol.kemCiphertextSize) rest
  let (ct, rest) ← take Protocol.kemCiphertextSize rest
  let ciphertext ← (KemCiphertext.ofBytes ct).toOption
  let (wrapNonce, rest) ← take Protocol.nonceSize rest
  let rest ← expect (Bytes.bigEndian 2 wrappedSize) rest
  let (wrapped, rest) ← take wrappedSize rest
  let (payloadNonce, rest) ← take Protocol.nonceSize rest
  let (size, payload) ← take 4 rest
  if payload.length = Bytes.ofBigEndian size then
    some ⟨ciphertext, wrapNonce, wrapped, payloadNonce, payload⟩
  else none

/-! ## Sealing and opening -/

/-- Seals a message for the holder of a key. -/
def encrypt (suite : Suite) (coins : Coins) (message : Bytes) (recipient : PublicKey) :
    Except Failure Bytes :=
  let payloadSize := message.length + Protocol.tagSize
  if UInt32.size ≤ payloadSize then .error (.encryption "payload too large")
  else
    let (ciphertext, secret) := suite.encapsulate recipient coins.kemSeed
    let wrapped := suite.sealWith (wrapKey secret ciphertext) coins.wrapNonce coins.sessionKey
      (opening ciphertext)
    let front := header ciphertext coins.wrapNonce wrapped coins.payloadNonce payloadSize
    .ok (front ++ suite.sealWith coins.sessionKey coins.payloadNonce message front)

/-- Opens the parts of an envelope. -/
def Parts.open_ (suite : Suite) (p : Parts) (secret : SecretKey) : Option Bytes := do
  let key := wrapKey (suite.decapsulate secret p.ciphertext) p.ciphertext
  let sessionKey ← suite.openWith key p.wrapNonce p.wrapped (opening p.ciphertext)
  if sessionKey.length = Protocol.sessionKeySize then
    suite.openWith sessionKey p.payloadNonce p.payload
      (header p.ciphertext p.wrapNonce p.wrapped p.payloadNonce p.payload.length)
  else none

/-- Opens an envelope. Whatever is wrong with it, the failure is the same. -/
def decrypt (suite : Suite) (blob : Bytes) (secret : SecretKey) : Except Failure Bytes :=
  match (Parts.ofBytes? blob).bind (·.open_ suite secret) with
  | some message => .ok message
  | none => .error .decryption

/-- Envelopes as a cipher. -/
def cipher (suite : Suite) : Cipher where
  generate := suite.generate
  encrypt random message recipient := encrypt suite (.ofBytes random) message recipient
  decrypt := decrypt suite

/-- Do the two keys of a pair belong together? A secret is sent from one to the other. -/
def isPair (suite : Suite) (pair : KeyPair) (random : Bytes) : Bool :=
  let (ciphertext, secret) := suite.encapsulate pair.publicKey random
  suite.decapsulate pair.secretKey ciphertext = secret

end Envelope

end AddressExchange
