import AddressExchange.Text.Utf8

/-!
# Constants of the protocol

Sizes of keys and frames, the separators of hashing, the marks of the wire format, and the defaults
of a deployment.
-/

namespace AddressExchange.Protocol

/-! ## Key encapsulation and envelopes -/

def publicKeySize : Nat := 1184
def secretKeySize : Nat := 2400
def kemCiphertextSize : Nat := 1088
def sharedSecretSize : Nat := 32
def sessionKeySize : Nat := 32
def nonceSize : Nat := 12
def tagSize : Nat := 16

/-- The text that an envelope begins with. -/
def envelopeMagic : String := "BRIT"

def envelopeVersion : UInt8 := 1

/-- The separator under which the key that wraps session keys is derived. -/
def keyWrapDomain : Bytes := Text.utf8 "BRIT_KEY_WRAP_V1"

/-- The separator under which payer ids are derived. -/
def payerIdDomain : Bytes := Text.utf8 "BRIT_PAYER_ID_V1"

/-- The fewest bytes of a wallet seed. -/
def minSeedSize : Nat := 16

/-! ## Wire format -/

def version : Nat := 1

/-- What ends a row. -/
def rowEnd : Char := '\n'

/-- What the date row holds when there is no date. -/
def noDate : String := "not-present"

def payerIdSize : Nat := 20

/-! ## Deployment -/

def defaultCohortSize : Nat := 4
def defaultRotationSeconds : Nat := 86400

/-- Where the Matcher takes requests. -/
def matcherPath : String := "/brit"

def envelopeContentType : String := "application/octet-stream"

/-- The longest answer that a payer takes from the network unless told otherwise. -/
def defaultResponseCap : Nat := 1048576

end AddressExchange.Protocol
