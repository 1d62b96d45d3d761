import AddressExchange.Cipher

/-!
# A cipher that hides nothing

A stand-in for encryption where only the course of an exchange is looked at: keys are one byte
repeated, and a blob is the message behind the byte of the key that it is for.
-/

namespace AddressExchange

/-- The key pair both halves of which are one byte repeated. -/
def KeyPair.filled (b : UInt8) : KeyPair :=
  ⟨⟨List.replicate _ b, List.length_replicate⟩, ⟨List.replicate _ b, List.length_replicate⟩⟩

/-- The payer id that is one byte repeated. -/
def PayerId.filled (b : UInt8) : PayerId := ⟨List.replicate _ b, List.length_replicate⟩

/-- The cipher that labels messages with the first byte of the key. Keys that begin with one byte
are refused, for a reason that is handed in. -/
def Cipher.labelled (refused : UInt8) (reason : String) : Cipher where
  generate random := .filled (random.headD 0)
  encrypt _ message recipient :=
    let label := recipient.bytes.headD 0
    if label = refused then .error (.encryption reason) else .ok (label :: message)
  decrypt
    | label :: message, secret =>
      if secret.bytes.head? = some label then .ok message else .error .decryption
    | [], _ => .error .decryption

end AddressExchange
