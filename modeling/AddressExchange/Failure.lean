import AddressExchange.Files
import AddressExchange.Json.Fault
import AddressExchange.Keys
import AddressExchange.Time.Instant

/-!
# Failures

Everything that can go wrong in an exchange, in the pool or on the way between them, by its cause.
Only a failed transport is worth another try.
-/

namespace AddressExchange

/-- The wording of a fault in a key. -/
def KeyFault.message : KeyFault → String
  | .size expected actual => s!"Invalid key: expected {expected} bytes, got {actual}"
  | .notHex fault => s!"Invalid hex encoding: {fault.message}"

/-- Why a message is malformed. -/
inductive Malformed where
  | notText (fault : Text.Utf8.Fault)
  | noDateRow
  | dateRow (row : String)
  | instant (millis : Int)
  | requestRows (count : Nat)
  | payerIdText (fault : Hex.Fault)
  | payerIdSize (actual : Nat)
  | replyKey (fault : KeyFault)
  /-- A reason given from outside. -/
  | other (reason : String)
  deriving DecidableEq, Repr

/-- The wording of the reason. -/
def Malformed.message : Malformed → String
  | .notText fault => s!"not UTF-8: {fault.message}"
  | .noDateRow => "require 2 or more rows"
  | .dateRow row => s!"date row is neither millis nor '{Protocol.noDate}': '{row}'"
  | .instant millis => s!"timestamp out of range: {millis}"
  | .requestRows count => s!"request needs payer id and reply key rows, got {count} rows"
  | .payerIdText fault => s!"payer id is not hex: {fault.message}"
  | .payerIdSize actual => s!"payer id must be {Protocol.payerIdSize} bytes, got {actual}"
  | .replyKey fault => s!"reply key: {fault.message}"
  | .other reason => reason

/-- Why an address is refused. -/
inductive BadAddress where
  | empty
  | tooLong
  | blank
  | known (address : String)
  /-- A reason given from outside. -/
  | other (reason : String)
  deriving DecidableEq, Repr

/-- The longest address, in bytes. -/
def addressSizeLimit : Nat := 128

/-- The wording of the reason. -/
def BadAddress.message : BadAddress → String
  | .empty => "address cannot be empty"
  | .tooLong => s!"address longer than {addressSizeLimit} bytes"
  | .blank => "address cannot contain whitespace"
  | .known address => s!"{address} is already in the pool"
  | .other reason => reason

/-- What is wrong with a pool, its file or a list of addresses. -/
inductive BadPool where
  | notInPool (address : String)
  | snapshotVersion (version : Nat)
  | lineFields (line : Nat)
  | lineTime (line : Nat)
  /-- A reason given from outside. -/
  | other (reason : String)
  deriving DecidableEq, Repr

/-- The wording of the reason. -/
def BadPool.message : BadPool → String
  | .notInPool address => s!"cohort address {address} is not in the pool"
  | .snapshotVersion version => s!"unsupported pool snapshot version {version}"
  | .lineFields line => s!"line {line}: expected '<address> [activation-millis]'"
  | .lineTime line => s!"line {line}: invalid activation time"
  | .other reason => reason

/-- What went wrong. -/
inductive Failure where
  | versionMismatch (expected : Nat) (actual : String)
  | malformed (reason : Malformed)
  /-- A blob could not be opened; why is not told. -/
  | decryption
  | encryption (reason : String)
  | keySize (expected actual : Nat)
  | transport (reason : String)
  | invalidAddress (reason : BadAddress)
  | pool (reason : BadPool)
  | file (fault : FileFault)
  | json (place : Json.Place)
  | hex (fault : Hex.Fault)
  | config (reason : String)
  | internal (reason : String)
  deriving DecidableEq, Repr

namespace Failure

/-- The failure that a fault in a key is. -/
def ofKey : KeyFault → Failure
  | .size expected actual => .keySize expected actual
  | .notHex fault => .hex fault

/-- The wording of a failure. -/
def message : Failure → String
  | versionMismatch expected actual =>
    s!"Protocol version mismatch: expected {expected}, got '{actual}'"
  | malformed reason => s!"Malformed message: {reason.message}"
  | decryption => "Decryption failed"
  | encryption reason => s!"Encryption failed: {reason}"
  | keySize expected actual => s!"Invalid key: expected {expected} bytes, got {actual}"
  | transport reason => s!"Transport failure: {reason}"
  | invalidAddress reason => s!"Invalid address: {reason.message}"
  | pool reason => s!"Pool error: {reason.message}"
  | file fault => s!"I/O error: {fault.message}"
  | json place => s!"JSON error: {place.message}"
  | hex fault => s!"Invalid hex encoding: {fault.message}"
  | config reason => s!"Configuration error: {reason}"
  | internal reason => s!"Internal error: {reason}"

/-- The wordings of what is behind a failure, outermost first. -/
def causes : Failure → List String
  | file fault => [fault.message]
  | json place => [place.message]
  | hex fault => [fault.message]
  | _ => []

/-- May the whole exchange be tried again? -/
def isRecoverable : Failure → Bool
  | transport _ => true
  | _ => false

/-- Did the failure come out of the wire format? -/
def isWire : Failure → Bool
  | versionMismatch _ _ | malformed _ => true
  | _ => false

/-- Is the failure one of cryptography? -/
def isCrypto : Failure → Bool
  | decryption | encryption _ | keySize _ _ => true
  | _ => false

end Failure

/-- The instant a number of milliseconds after 1970-01-01T00:00:00Z. -/
def Instant.ofMillis (millis : Int) : Except Failure Instant :=
  match Instant.ofMillis? millis with
  | some t => .ok t
  | none => .error (.malformed (.instant millis))

namespace PayerId

def ofBytes (bs : Bytes) : Except Failure PayerId :=
  if h : bs.length = Protocol.payerIdSize then .ok ⟨bs, h⟩
  else .error (.malformed (.payerIdSize bs.length))

/-- Reads an id from its text. -/
def ofHex (s : String) : Except Failure PayerId :=
  match Hex.decode s with
  | .ok bs => ofBytes bs
  | .error e => .error (.malformed (.payerIdText e))

end PayerId

end AddressExchange
