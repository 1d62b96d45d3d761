import AddressExchange.Cipher
import AddressExchange.Wire

/-!
# The payer's side of an exchange

One exchange asks the Matcher once. It seals its request, hands it on, and opens the answer, in this
order and each at most once; a step that fails ends it.
-/

namespace AddressExchange

/-- Where an exchange stands. -/
inductive ExchangeState where
  | built
  | encoded
  | encrypted
  | sent
  | received
  | decrypted
  | decoded
  | failed
  deriving DecidableEq, Repr

namespace ExchangeState

/-- All states, in the order in which an exchange goes through them. -/
def all : List ExchangeState :=
  [built, encoded, encrypted, sent, received, decrypted, decoded, failed]

/-- The state as messages name it. -/
def label : ExchangeState → String
  | built => "built"
  | encoded => "encoded"
  | encrypted => "encrypted"
  | sent => "sent"
  | received => "received"
  | decrypted => "decrypted"
  | decoded => "decoded"
  | failed => "failed"

end ExchangeState

/-- A label with a capital letter in front. -/
def capitalized (label : String) : String :=
  match label.toList with
  | c :: cs => String.ofList (c.toUpper :: cs)
  | [] => ""

/-- One exchange of a payer with the Matcher. -/
structure Exchange where
  state : ExchangeState
  request : Request
  /-- The keys for the answer, used for this exchange alone. -/
  replyKeys : KeyPair
  matcherKey : PublicKey

namespace Exchange

/-- Begins an exchange. The payer must be known; the keys for the answer come from random bytes. -/
def build (cipher : Cipher) (random : Bytes) (matcherKey : PublicKey) (payerId : Option PayerId)
    (date : Option Instant) : Except Failure Exchange :=
  match payerId with
  | none => .error (.config "payer id is required")
  | some id =>
    let keys := cipher.generate random
    .ok ⟨.built, .make id date keys.publicKey, keys, matcherKey⟩

/-- What a call is told that comes in a state that it is not meant for. -/
def refusal (state : ExchangeState) : Failure :=
  .internal s!"exchange step not allowed in state '{state.label}'"

/-- The exchange after a step that failed. -/
def fail (x : Exchange) : Exchange := { x with state := .failed }

/-- Encodes the request and encrypts it to the Matcher. -/
def sealRequest (cipher : Cipher) (random : Bytes) (x : Exchange) :
    Exchange × Except Failure Bytes :=
  if x.state ≠ .built then (x, .error (refusal x.state))
  else
    let encoded := Wire.encodeRequest x.request
    let x := { x with state := .encoded }
    match cipher.encrypt random encoded x.matcherKey with
    | .ok blob => ({ x with state := .encrypted }, .ok blob)
    | .error e => (x.fail, .error e)

/-- Decrypts and decodes the answer. -/
def openAnswer (cipher : Cipher) (answer : Bytes) (x : Exchange) :
    Exchange × Except Failure Allocation :=
  if x.state ≠ .encrypted ∧ x.state ≠ .sent then (x, .error (refusal x.state))
  else
    let x := { x with state := .received }
    match cipher.decrypt answer x.replyKeys.secretKey with
    | .error e => (x.fail, .error e)
    | .ok plain =>
      let x := { x with state := .decrypted }
      match Wire.decodeResponse plain with
      | .ok response => ({ x with state := .decoded }, .ok response.allocation)
      | .error e => (x.fail, .error e)

/-- A way to the Matcher: hands it a request and brings the answer. -/
abbrev Transport (σ : Type) := Bytes → StateM σ (Except Failure Bytes)

/-- Runs the whole exchange over a transport. -/
def send {σ : Type} (cipher : Cipher) (random : Bytes) (post : Transport σ) (x : Exchange) :
    StateM σ (Exchange × Except Failure Allocation) := do
  match x.sealRequest cipher random with
  | (x, .error e) => pure (x, .error e)
  | (x, .ok blob) =>
    let x := { x with state := .sent }
    match ← post blob with
    | .error e => pure (x.fail, .error e)
    | .ok answer => pure (x.openAnswer cipher answer)

/-- The exchange without its keys. -/
def summary (x : Exchange) : String :=
  let date := match x.request.date with
    | some t => s!"Some({Rfc3339.text t})"
    | none => "None"
  "PayerExchange \x7b " ++
    s!"state: {capitalized x.state.label}, payer_id: {x.request.payerId.summary}, " ++
    s!"replay_date: {date}, .. \x7d"

end Exchange

end AddressExchange
