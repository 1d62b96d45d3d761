import AddressExchange.Failure
import AddressExchange.Json.Record
import AddressExchange.Json.Value

/-!
# Messages

What a payer sends to the Matcher, what the Matcher answers, and what the wallet keeps of the
answer. A request names the date of the last answer, so that the next one brings what is new.
-/

namespace AddressExchange

/-- What a payer asks of the Matcher. -/
structure Request where
  version : UInt32
  payerId : PayerId
  /-- The replay date of the last answer, if there was one. -/
  date : Option Instant
  /-- The key that the answer is encrypted to. -/
  replyKey : PublicKey
  deriving DecidableEq

/-- What the Matcher answers. -/
structure Response where
  version : UInt32
  /-- The date to name next time. -/
  replayDate : Option Instant
  addresses : List String
  deriving DecidableEq, Repr

/-- What a wallet keeps of an answer. -/
structure Allocation where
  addresses : List String
  /-- The date to name next time. -/
  replayDate : Option Instant
  deriving DecidableEq, Repr

namespace Request

/-- A request of the current version. -/
def make (payerId : PayerId) (date : Option Instant) (replyKey : PublicKey) : Request :=
  ⟨.ofNat Protocol.version, payerId, date, replyKey⟩

end Request

namespace Response

/-- A response of the current version. -/
def make (replayDate : Option Instant) (addresses : List String) : Response :=
  ⟨.ofNat Protocol.version, replayDate, addresses⟩

/-- The response that brings nothing. -/
def empty : Response := make none []

/-- Does the response bring no address? -/
def isEmpty (r : Response) : Bool := r.addresses.isEmpty

/-- What a wallet keeps of the response. -/
def allocation (r : Response) : Allocation := ⟨r.addresses, r.replayDate⟩

end Response

/-! ## As JSON -/

/-- An instant as JSON. -/
def Instant.toJson (t : Instant) : Json.Value := .text (Rfc3339.text t)

/-- A list of strings as JSON. -/
def Json.Value.texts (ss : List String) : Json.Value := .list (ss.map .text)

namespace Response

def toJson (r : Response) : Json.Value :=
  .object [("version", .number r.version.toNat),
    ("replay_date", .ofOption Instant.toJson r.replayDate), ("address_list", .texts r.addresses)]

def reader : Json.Reader Response := fun bs => do
  let ((version, date, addresses, ()), rest) ← Json.Members.reader "MatcherResponse"
    (.more (.required "version" Json.nat32) <| .more (.optional "replay_date" Json.instant) <|
      .more (.required "address_list" (Json.list Json.string)) .none) bs
  .ok (⟨.ofNat version, date, addresses⟩, rest)

end Response

namespace Allocation

def toJson (a : Allocation) : Json.Value :=
  .object [("addresses", .texts a.addresses),
    ("replay_date", .ofOption Instant.toJson a.replayDate)]

def reader : Json.Reader Allocation := fun bs => do
  let ((addresses, date, ()), rest) ← Json.Members.reader "AddressAllocation"
    (.more (.required "addresses" (Json.list Json.string)) <|
      .more (.optional "replay_date" Json.instant) .none) bs
  .ok (⟨addresses, date⟩, rest)

end Allocation

namespace PublicKey

/-- Reads a key that is a string of hexadecimal digits. -/
def reader : Json.Reader PublicKey := fun bs => do
  let (s, rest) ← Json.string bs
  match ofHex s with
  | .ok k => .ok (k, rest)
  | .error e => .error (.before (.mismatch (.unreadable e.message)) rest)

def toJson (k : PublicKey) : Json.Value := .text k.toHex

end PublicKey

end AddressExchange
