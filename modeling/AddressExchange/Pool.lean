import AddressExchange.Pool.Entry
import AddressExchange.Pool.Search

/-!
# The pool

The addresses that a Matcher hands out, in the order of their activation, and the cohort: the few of
them that every payer is given. The cohort changes only when it is rotated or restored.
-/

namespace AddressExchange

/-- How large a cohort is and how long it stays. -/
structure PoolConfig where
  cohortSize : Nat := Protocol.defaultCohortSize
  /-- Nanoseconds from one rotation on schedule to the next. -/
  interval : Nat := Protocol.defaultRotationSeconds * 1000000000
  deriving DecidableEq, Repr

/-- Refuses a configuration that would never hand out an address. -/
def PoolConfig.validate (c : PoolConfig) : Except Failure Unit :=
  if c.cohortSize = 0 then .error (.config "cohort size must be at least 1")
  else if c.interval = 0 then .error (.config "rotation interval must be non-zero")
  else .ok ()

/-- A pool of addresses. -/
structure Pool where
  config : PoolConfig
  /-- All entries in the order of their instants; those of one instant in the order of arrival. -/
  entries : Array Entry := #[]
  cohort : List Entry := []
  lastRotation : Option Instant := none
  /-- Rotations since the pool was made, counted in 64 bits. -/
  rotations : UInt64 := 0

namespace Pool

/-- The number of entries that are active at an instant. -/
def activeCount (p : Pool) (until_ : Instant) : Nat :=
  Search.boundary p.entries fun e => decide (e.activatedAt ≤ until_)

/-- The entry of an address. -/
def find? (p : Pool) (address : String) : Option Entry := p.entries.find? (·.address = address)

/-! ## Activation -/

/-- Adds an address behind all that are active at its instant. -/
def activate (p : Pool) (text : String) (at_ : Instant) : Except Failure Pool :=
  match Address.check text with
  | .error e => .error (.invalidAddress e)
  | .ok address =>
    if (p.find? address).isSome then .error (.invalidAddress (.known address))
    else .ok { p with
      entries := p.entries.insertIdxIfInBounds (p.activeCount at_) ⟨address, at_⟩ }

/-- Activates entries in their order up to the first that is refused. Gives the pool and the count
of entries, or why one was refused. -/
def importAll (p : Pool) (es : List Entry) : Pool × Except Failure Nat :=
  go p 0 es
where
  /-- Goes on behind `done` entries. -/
  go (p : Pool) (done : Nat) : List Entry → Pool × Except Failure Nat
    | [] => (p, .ok done)
    | e :: es =>
      match p.activate e.address e.activatedAt with
      | .ok p => go p (done + 1) es
      | .error e => (p, .error e)

/-! ## The cohort -/

/-- Makes the newest active entries the cohort. -/
def rotate (p : Pool) (now : Instant) : Pool :=
  let active := p.activeCount now
  { p with
    cohort := (p.entries.extract (active - p.config.cohortSize) active).toList
    lastRotation := some now
    rotations := p.rotations + 1 }

/-- Is a rotation due? The first one always is; after a clock has gone back none is. -/
def isDue (p : Pool) (now : Instant) : Bool :=
  match p.lastRotation with
  | none => true
  | some last =>
    let elapsed := last.elapsed now
    0 ≤ elapsed && p.config.interval ≤ elapsed

/-- Rotates if a rotation is due, and says whether it was. -/
def rotateIfDue (p : Pool) (now : Instant) : Pool × Bool :=
  if p.isDue now then (p.rotate now, true) else (p, false)

/-- Puts a cohort back that was kept by its addresses. -/
def restore (p : Pool) (addresses : List String) (lastRotation : Option Instant) :
    Except Failure Pool := do
  let cohort ← addresses.mapM fun address =>
    match p.find? address with
    | some e => Except.ok e
    | none => .error (.pool (.notInPool address))
  .ok { p with cohort := Entry.sort cohort, lastRotation := lastRotation }

/-- Takes all entries and the cohort away. -/
def clear (p : Pool) : Pool := { config := p.config }

/-! ## Queries -/

/-- Entries activated after `since` and not after `until_`. -/
def activatedSince (p : Pool) (since until_ : Instant) : List Entry :=
  if until_ ≤ since then []
  else (p.entries.extract (p.activeCount since) (p.activeCount until_)).toList

/-- The instant of the newest entry that is active at an instant. -/
def latestActivation (p : Pool) (until_ : Instant) : Option Instant :=
  match p.activeCount until_ with
  | 0 => none
  | n + 1 => p.entries[n]?.map (·.activatedAt)

def size (p : Pool) : Nat := p.entries.size

/-- Figures about a pool. -/
structure Stats where
  total : Nat := 0
  cohortSize : Nat := 0
  newestActivation : Option Instant := none
  lastRotation : Option Instant := none
  rotations : Nat := 0
  deriving DecidableEq, Repr

def stats (p : Pool) : Stats where
  total := p.entries.size
  cohortSize := p.cohort.length
  newestActivation := p.entries.back?.map (·.activatedAt)
  lastRotation := p.lastRotation
  rotations := p.rotations.toNat

namespace Stats

def toJson (s : Stats) : Json.Value :=
  .object [("total_addresses", .number s.total), ("cohort_size", .number s.cohortSize),
    ("newest_activation", .ofOption Instant.toJson s.newestActivation),
    ("last_rotation", .ofOption Instant.toJson s.lastRotation), ("rotations", .number s.rotations)]

def reader : Json.Reader Stats := fun bs => do
  let ((total, cohortSize, newest, last, rotations, ()), rest) ← Json.Members.reader "PoolStats"
    (.more (.required "total_addresses" Json.size) <| .more (.required "cohort_size" Json.size) <|
      .more (.optional "newest_activation" Json.instant) <|
      .more (.optional "last_rotation" Json.instant) <|
      .more (.required "rotations" Json.nat64) .none) bs
  .ok (⟨total, cohortSize, newest, last, rotations⟩, rest)

end Stats

end Pool

end AddressExchange
