import AddressExchange.Pool

/-!
# Snapshots

A pool as its file holds it: all entries, the addresses of the cohort, and the last rotation.
-/

namespace AddressExchange

/-- What is kept of a pool. -/
structure Snapshot where
  version : Nat
  entries : List Entry
  cohort : List String
  lastRotation : Option Instant
  deriving DecidableEq, Repr

namespace Snapshot

/-- The only version that is read. -/
def currentVersion : Nat := 1

/-- The snapshot of the parts of a pool. They are read one after the other, so each may come from a
later state than the one before. -/
def ofParts (entries : Array Entry) (cohort : List Entry) (lastRotation : Option Instant) :
    Snapshot :=
  ⟨currentVersion, entries.toList, cohort.map (·.address), lastRotation⟩

/-- The snapshot of a pool. -/
def ofPool (p : Pool) : Snapshot := ofParts p.entries p.cohort p.lastRotation

/-- The pool that a snapshot is of. Its entries are activated again, in their order. -/
def toPool (s : Snapshot) (config : PoolConfig) : Except Failure Pool :=
  if s.version ≠ currentVersion then .error (.pool (.snapshotVersion s.version))
  else
    match ({ config : Pool }).importAll s.entries with
    | (_, .error e) => .error e
    | (p, .ok _) => p.restore s.cohort s.lastRotation

def toJson (s : Snapshot) : Json.Value :=
  .object [("version", .number s.version), ("addresses", .list (s.entries.map Entry.toJson)),
    ("cohort", .texts s.cohort), ("last_rotation", .ofOption Instant.toJson s.lastRotation)]

def reader : Json.Reader Snapshot := fun bs => do
  let ((version, entries, cohort, last, ()), rest) ← Json.Members.reader "PoolSnapshot"
    (.more (.required "version" Json.nat8) <|
      .more (.required "addresses" (Json.list Entry.reader)) <|
      .more (.required "cohort" (Json.list Json.string)) <|
      .more (.optional "last_rotation" Json.instant) .none) bs
  .ok (⟨version, entries, cohort, last⟩, rest)

/-- The content of a pool file. -/
def write (s : Snapshot) : Bytes := s.toJson.pretty

/-- Reads the content of a pool file. -/
def read (bs : Bytes) : Except Failure Snapshot := (Json.parse reader bs).mapError .json

end Snapshot

end AddressExchange
