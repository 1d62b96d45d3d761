import AddressExchange.Failure
import AddressExchange.Json.Record
import AddressExchange.Json.Value
import AddressExchange.Web.Status
import AddressExchange.Web.Url

/-!
# The way to the Matcher

Where a payer posts its requests, and what it takes of the answer. The body of an answer arrives in
chunks; it is taken only if it is whole and no longer than a bound.
-/

namespace AddressExchange.Web

/-! ## Configuration -/

/-- Where requests go, and what bounds the answer. -/
structure TransportConfig where
  url : String
  timeoutSeconds : UInt64 := 30
  /-- The most bytes of an answer. -/
  responseCap : UInt64 := .ofNat Protocol.defaultResponseCap
  deriving DecidableEq, Repr

/-- A way to the Matcher that is fit to be used. -/
structure Endpoint where
  url : Url
  responseCap : Nat
  deriving DecidableEq, Repr

namespace TransportConfig

/-- The configuration for a Matcher's base URL. Slashes at its end do not count. -/
def forBase (base : String) : TransportConfig :=
  let kept := (base.toList.reverse.dropWhile (· = '/')).reverse
  { url := String.ofList kept ++ Protocol.matcherPath }

/-- Checks a configuration, its URL first. -/
def endpoint (c : TransportConfig) : Except Failure Endpoint :=
  match Url.parse c.url with
  | .error e => .error (.config s!"invalid Matcher URL: {e.message}")
  | .ok any =>
    let unsupported := .error (.config s!"unsupported Matcher URL scheme '{any.scheme}'")
    match any with
    | .other _ => unsupported
    | .web url =>
      if url.scheme ≠ "http" ∧ url.scheme ≠ "https" then unsupported
      else if c.timeoutSeconds = 0 then .error (.config "timeout must be non-zero")
      else if c.responseCap = 0 then .error (.config "max_response_bytes must be non-zero")
      else .ok ⟨url, c.responseCap.toNat⟩

def toJson (c : TransportConfig) : Json.Value :=
  .object [("url", .text c.url), ("timeout_seconds", .number c.timeoutSeconds.toNat),
    ("max_response_bytes", .number c.responseCap.toNat)]

def reader : Json.Reader TransportConfig := fun bs => do
  let ((url, timeout, cap, ()), rest) ← Json.Members.reader "TransportConfig"
    (.more (.required "url" Json.string) <| .more (.required "timeout_seconds" Json.nat64) <|
      .more (.orElse "max_response_bytes" Json.size Protocol.defaultResponseCap) .none) bs
  .ok (⟨url, .ofNat timeout, .ofNat cap⟩, rest)

end TransportConfig

/-! ## Answers -/

/-- What arrives of an answer. -/
structure Arrival where
  status : Status
  /-- The length of the body, where the answer tells it. -/
  declared : Option Nat
  /-- The body as it arrives; no chunk has a meaning of its own. -/
  chunks : List Bytes
  /-- What breaks the body off, if anything does. -/
  broken : Option String
  deriving DecidableEq, Repr

/-- The failure of an answer that is longer than the bound. -/
def tooLong (cap : Nat) : Failure := .transport s!"response exceeds {cap} bytes"

/-- Takes the chunks of a body one by one. `held` is what was taken so far; it never has more than
`cap` bytes. -/
def collect (cap : Nat) (broken : Option String) (held : Bytes) : List Bytes → Except Failure Bytes
  | [] =>
    match broken with
    | none => .ok held
    | some reason => .error (.transport reason)
  | chunk :: chunks =>
    if cap < held.length + chunk.length then .error (tooLong cap)
    else collect cap broken (held ++ chunk) chunks

/-- Takes the body of an answer. -/
def Arrival.take (cap : Nat) (a : Arrival) : Except Failure Bytes :=
  if !a.status.isSuccess then .error (.transport s!"HTTP {a.status.text}")
  else if a.declared.any (cap < ·) then .error (tooLong cap)
  else collect cap a.broken [] a.chunks

/-! ## Bodies on a connection -/

/-- The answer of a server that writes pieces of a body and closes the connection. Where the body
ends is told by marks in it, by its declared length, or else by the closing. A code that only
announces another answer is no answer. -/
def Arrival.ofPieces (status : Status) (marked : Bool) (declared : Option Nat)
    (pieces : List Bytes) : Except Failure Arrival :=
  let early := "connection closed before the message was complete"
  if status.code < 200 ∧ status.code ≠ 101 then .error (.transport early)
  else if status.code = 101 ∨ status.code = 204 ∨ status.code = 304 then
    .ok ⟨status, some 0, [], none⟩
  else match declared.filter fun _ => !marked with
    | none => .ok ⟨status, none, pieces, none⟩
    | some n =>
      let body := pieces.flatten
      .ok ⟨status, some n, [body.take n], if body.length < n then some early else none⟩

end AddressExchange.Web
