import AddressExchange.Exchange.Responder
import AddressExchange.Host.Refusal
import AddressExchange.Host.Settings
import AddressExchange.Pool.Held

/-!
# The Matcher's host

The host takes requests of the web: exchanges and a question about its health from anybody,
questions about the pool and new addresses from administrators. At fixed times it looks whether the
cohort has to be rotated. What changes the pool is written to its file at once.
-/

namespace AddressExchange

open Web

/-! ## Routes -/

/-- What a host can be asked. -/
inductive Route where
  | exchange
  | health
  | stats
  | addresses
  deriving DecidableEq, Repr

namespace Route

def path : Route → String
  | exchange => Protocol.matcherPath
  | health => "/health"
  | stats => "/api/v1/pool/stats"
  | addresses => "/api/v1/pool/addresses"

def all : List Route := [exchange, health, stats, addresses]

/-- The route of a path. -/
def ofPath? (path : String) : Option Route := all.find? (·.path = path)

/-- The methods that the route takes. A question that may be asked may be asked for its head alone.
-/
def methods : Route → List String
  | exchange | addresses => ["POST"]
  | health | stats => ["GET", "HEAD"]

/-- Is the route for administrators alone? -/
def isAdmin : Route → Bool
  | exchange | health => false
  | stats | addresses => true

end Route

/-! ## Hosts -/

/-- A Matcher and its pool. -/
structure Host where
  settings : Settings
  secretKey : SecretKey
  pool : HeldPool

/-- What surrounds a request: the cipher, random bytes, the time, and the seconds since the start.
-/
structure Surroundings where
  cipher : Cipher
  random : Bytes
  now : Instant
  uptime : Nat := 0

namespace Host

/-- The version that the host tells. -/
def version : String := "0.1.0"

/-- Loads the key and the pool that settings name. -/
def load (s : Settings) : Filing Host := do
  let config := s.pool
  config.validate
  match s.secretKeyFile with
  | none => throw (.config s!"{Settings.secretKeyFileName} is not set")
  | some file =>
    let text ← (Disk.readText (.ofText file)).filing
    match SecretKey.ofHex text with
    | .error e => throw (.ofKey e)
    | .ok secretKey =>
      match s.poolFile with
      | none => pure ⟨s, secretKey, .memory { config }⟩
      | some file => do pure ⟨s, secretKey, .stored (← StoredPool.openAt (.ofText file) config)⟩

/-- Adds entries to the pool and counts those that it took. An address that the pool refuses is passed
over; any other failure ends the work. -/
def seed (h : Host) (entries : List Entry) : Except Failure (Host × Nat) :=
  entries.foldlM (fun (h, n) e =>
    match h.pool.activate e.address e.activatedAt with
    | .ok pool => .ok ({ h with pool }, n + 1)
    | .error (.invalidAddress _) => .ok (h, n)
    | .error e => .error e) (h, 0)

/-- Writes what the pool's file does not have. -/
def persist (h : Host) : StateM Files (Except Failure Unit × Host) := do
  let (result, pool) ← h.pool.persist
  pure (result, { h with pool })

/-! ## Rotation -/

/-- The seconds between two looks at the cohort. -/
def lookInterval (s : Settings) : Nat := max 1 (min s.rotationSeconds 60)

/-- How many looks fall into the first milliseconds, the one at their start included. -/
def looksUntil (s : Settings) (millis : Nat) : Nat :=
  if millis = 0 then 0 else (millis - 1) / (1000 * lookInterval s) + 1

/-- Looks whether a rotation is due. A rotation is written; that it cannot be changes nothing else.
-/
def look (h : Host) (now : Instant) : StateM Files Host := do
  let (pool, rotated) := h.pool.rotateIfDue now
  if rotated then
    let (_, h) ← persist { h with pool }
    pure h
  else pure { h with pool }

/-- Looks as often as is due between two moments, told in milliseconds since the start. -/
def lookOften (h : Host) (now : Instant) (since until_ : Nat) : StateM Files Host :=
  (looksUntil h.settings until_ - looksUntil h.settings since).repeat (· >>= (look · now)) (pure h)

/-! ## Administrators -/

/-- Checks that a request comes from an administrator: its first authorization shows the token. -/
def authorize (s : Settings) (r : HttpRequest) : Except Unauthorized Unit :=
  match s.adminToken with
  | none => .error .disabled
  | some token =>
    match r.header? "authorization" with
    | none => .error .noToken
    | some value =>
      let scheme := "Bearer ".toList
      if !scheme.isPrefixOf value.toList then .error .noToken
      else if value.toList.drop scheme.length = token.toList then .ok ()
      else .error .wrongToken

/-! ## Answers -/

/-- The answer to a body that is longer than it may be. -/
def tooLarge : HttpAnswer := .words .payloadTooLarge "length limit exceeded"

/-- Is the body told to be longer than it may be? -/
def declaresTooMuch (s : Settings) (r : HttpRequest) : Bool :=
  r.declaredLength.any (s.bodyLimit < ·)

/-- Is the body longer than it may be, or than it was told to be? -/
def bringsTooMuch (s : Settings) (r : HttpRequest) : Bool :=
  min s.bodyLimit (r.declaredLength.getD s.bodyLimit) < r.body.length

/-- Answers an exchange. -/
def exchange (h : Host) (o : Surroundings) (r : HttpRequest) : HttpAnswer :=
  if bringsTooMuch h.settings r then tooLarge
  else
    let responder : Responder := ⟨o.cipher, h.secretKey, h.pool.source, o.now⟩
    match responder.handle o.random r.body with
    | .ok blob => { status := .ok, contentType := some Protocol.envelopeContentType, body := blob }
    | .error e => .refusal (.ofFailure e)

/-- Tells that the host is well. -/
def health (h : Host) (o : Surroundings) : HttpAnswer :=
  .json .ok (.object [("status", .text "ok"), ("version", .text version),
    ("uptime_seconds", .number o.uptime), ("pool_addresses", .number h.pool.stats.total)])

/-- Tells about the pool. -/
def stats (h : Host) : HttpAnswer :=
  let s := h.pool.stats
  let millis : Option Instant → Json.Value
    | some t => .number t.toMillis
    | none => .null
  .json .ok (.object [("total_addresses", .number s.total), ("cohort_size", .number s.cohortSize),
    ("newest_activation", millis s.newestActivation), ("last_rotation", millis s.lastRotation),
    ("rotations", .number s.rotations), ("rotation_secs", .number h.settings.rotationSeconds)])

/-- A new address, and the milliseconds of its activation if they are given. -/
structure Activation where
  address : String
  millis : Option Int
  deriving DecidableEq, Repr

def Activation.reader : Json.Reader Activation := fun bs => do
  let ((address, millis, ()), rest) ← Json.Members.reader "ActivateAddressRequest"
    (.more (.required "address" Json.string) <|
      .more (.optional "activated_at" Json.int64) .none) bs
  .ok (⟨address, millis⟩, rest)

/-- Reads the address of a request. What follows the value in the body does not count. -/
def readActivation (s : Settings) (r : HttpRequest) : Except HttpAnswer Activation :=
  if !r.isJson then
    .error (.words .unsupportedMediaType "Expected request with `Content-Type: application/json`")
  else if bringsTooMuch s r then .error tooLarge
  else
    match Activation.reader r.body with
    | .ok (a, _) => .ok a
    | .error e =>
      let reason := (e.locate r.body).message
      match e.cause.kind with
      | .value => .error (.words .unprocessable
          s!"Failed to deserialize the JSON body into the target type: {reason}")
      | _ => .error (.words .badRequest s!"Failed to parse the request body as JSON: {reason}")

/-- Adds the address of a request, active from the instant given or from now on, and writes the
pool. -/
def activate (h : Host) (o : Surroundings) (r : HttpRequest) : StateM Files (HttpAnswer × Host) :=
  match readActivation h.settings r with
  | .error answer => pure (answer, h)
  | .ok a =>
    match (a.millis.map Instant.ofMillis).getD (.ok o.now) with
    | .error e => pure (.refusal (.activationTime e), h)
    | .ok at_ =>
      match h.pool.activate a.address at_ with
      | .error e => pure (.refusal (.ofFailure e), h)
      | .ok pool => do
        let (result, h) ← persist { h with pool }
        match result with
        | .error e => pure (.refusal (.ofFailure e), h)
        | .ok () =>
          pure (.json .ok (.object [("address", .text (Text.trim a.address)),
            ("activated_at", .number at_.toMillis),
            ("total_addresses", .number h.pool.stats.total)]), h)

/-- Answers a request by a method that its route takes. -/
def serve (h : Host) (o : Surroundings) (r : HttpRequest) : Route →
    StateM Files (HttpAnswer × Host)
  | .exchange => pure (h.exchange o r, h)
  | .health => pure (h.health o, h)
  | .stats => pure (h.stats, h)
  | .addresses => h.activate o r

/-- Answers a request on a route: its declared length is looked at first, then who asks, then the
method. -/
def onRoute (h : Host) (o : Surroundings) (r : HttpRequest) (route : Route) :
    StateM Files (HttpAnswer × Host) :=
  if declaresTooMuch h.settings r then pure (tooLarge, h)
  else
    match if route.isAdmin then authorize h.settings r else .ok () with
    | .error reason => pure (.refusal (.unauthorized reason), h)
    | .ok () =>
      if route.methods.contains r.method then h.serve o r route
      else pure ({ status := .methodNotAllowed }, h)

/-- An answer as it leaves: with the methods of its route if the request had none of them, and
without a body if only the head was asked for. -/
def leaving (route : Option Route) (r : HttpRequest) (a : HttpAnswer) : HttpAnswer :=
  let missed := route.filter fun route => !route.methods.contains r.method
  { a with
    allow := missed.map fun route => ",".intercalate route.methods
    body := if r.method = "HEAD" then [] else a.body }

/-- Answers a request. -/
def answer (h : Host) (o : Surroundings) (r : HttpRequest) : StateM Files (HttpAnswer × Host) := do
  let route := Route.ofPath? r.path
  let (a, h) ← match route with
    | none =>
      pure (if declaresTooMuch h.settings r then tooLarge else { status := .notFound }, h)
    | some route => h.onRoute o r route
  pure (leaving route r a, h)

/-- Answers a request as pages of any site may ask it: what only asks for permission is granted. -/
def answerAnySite (h : Host) (o : Surroundings) (r : HttpRequest) :
    StateM Files (HttpAnswer × Host) := do
  let (a, h) ←
    if r.method = "OPTIONS" then pure (leaving (Route.ofPath? r.path) r { status := .ok }, h)
    else h.answer o r
  pure ({ a with allowOrigin := some "*" }, h)

end Host

end AddressExchange
