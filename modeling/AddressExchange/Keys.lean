import AddressExchange.Hex
import AddressExchange.Protocol
import AddressExchange.Text.Blank

/-!
# Keys

Public and secret keys of the key encapsulation, ciphertexts, and payer ids: byte strings of a fixed
length, with their forms in hexadecimal text.
-/

namespace AddressExchange

/-- Why something is no key. -/
inductive KeyFault where
  | size (expected actual : Nat)
  | notHex (fault : Hex.Fault)
  deriving DecidableEq, Repr

/-- A key that others encrypt to. -/
structure PublicKey where
  bytes : Bytes
  length_eq : bytes.length = Protocol.publicKeySize
  deriving DecidableEq

/-- A key that decrypts. -/
structure SecretKey where
  bytes : Bytes
  length_eq : bytes.length = Protocol.secretKeySize
  deriving DecidableEq

/-- A public key with the secret key that belongs to it. -/
structure KeyPair where
  publicKey : PublicKey
  secretKey : SecretKey
  deriving DecidableEq

/-- A shared secret as it travels. -/
structure KemCiphertext where
  bytes : Bytes
  length_eq : bytes.length = Protocol.kemCiphertextSize
  deriving DecidableEq

/-- What a wallet is known by. -/
structure PayerId where
  bytes : Bytes
  length_eq : bytes.length = Protocol.payerIdSize
  deriving DecidableEq

namespace PublicKey

def ofBytes (bs : Bytes) : Except KeyFault PublicKey :=
  if h : bs.length = Protocol.publicKeySize then .ok ⟨bs, h⟩
  else .error (.size Protocol.publicKeySize bs.length)

/-- The key as text. -/
def toHex (k : PublicKey) : String := Hex.encode k.bytes

/-- Reads a key from a text; blanks around it do not count. -/
def ofHex (s : String) : Except KeyFault PublicKey :=
  match Hex.decode (Text.trim s) with
  | .ok bs => ofBytes bs
  | .error e => .error (.notHex e)

/-- The two ends of the key, to tell keys apart by. -/
def summary (k : PublicKey) : String :=
  s!"KemPublicKey({Hex.encode (k.bytes.take 8)}...{Hex.encode (k.bytes.drop 1176)})"

end PublicKey

namespace SecretKey

def ofBytes (bs : Bytes) : Except KeyFault SecretKey :=
  if h : bs.length = Protocol.secretKeySize then .ok ⟨bs, h⟩
  else .error (.size Protocol.secretKeySize bs.length)

/-- The key as text. -/
def toHex (k : SecretKey) : String := Hex.encode k.bytes

/-- Reads a key from a text; blanks around it do not count. -/
def ofHex (s : String) : Except KeyFault SecretKey :=
  match Hex.decode (Text.trim s) with
  | .ok bs => ofBytes bs
  | .error e => .error (.notHex e)

/-- What is shown in the place of a secret key. -/
def summary (_ : SecretKey) : String := "KemSecretKey([REDACTED])"

end SecretKey

/-- The pair without its secret. -/
def KeyPair.summary (pair : KeyPair) : String :=
  "KeyPair \x7b public: " ++ pair.publicKey.summary ++ ", secret: \"[REDACTED]\" \x7d"

namespace KemCiphertext

def ofBytes (bs : Bytes) : Except KeyFault KemCiphertext :=
  if h : bs.length = Protocol.kemCiphertextSize then .ok ⟨bs, h⟩
  else .error (.size Protocol.kemCiphertextSize bs.length)

def summary (c : KemCiphertext) : String := s!"KemCiphertext({c.bytes.length} bytes)"

end KemCiphertext

namespace PayerId

/-- The id as text. -/
def toHex (id : PayerId) : String := Hex.encode id.bytes

def summary (id : PayerId) : String := s!"PayerId({id.toHex})"

end PayerId

end AddressExchange
