import AddressExchange.Pool.Snapshot

/-!
# Pools with a file

A pool that is kept in a file between runs. Changes mark it dirty; saving clears the mark before it
reads what to write, and a save that fails sets it again.
-/

namespace AddressExchange

/-- Work on files that may fail. -/
abbrev Filing := ExceptT Failure (StateM Files)

/-- A file operation as part of such work. -/
def Disk.filing {α : Type} (op : Disk α) : Filing α := fun fs =>
  let (result, fs) := op fs
  (result.mapError .file, fs)

/-- A pool and the path of its file. -/
structure StoredPool where
  path : Path
  pool : Pool
  /-- Is there a change that the file does not have? -/
  dirty : Bool := false

namespace StoredPool

/-- Opens the pool of a file, or an empty one if there is no file. -/
def openAt (path : Path) (config : PoolConfig) : Filing StoredPool := do
  if ← (Disk.isThere path).filing then
    let s ← Snapshot.read (← (Disk.read path).filing)
    let pool ← s.toPool config
    pure { path, pool }
  else pure { path, pool := { config } }

/-- Writes a snapshot to the file, in place of what it held. -/
def write (path : Path) (s : Snapshot) : Filing Unit := (Disk.replace path s.write).filing

/-- Saves the pool. -/
def save (p : StoredPool) : StateM Files (Except Failure Unit × StoredPool) := do
  match ← (write p.path (.ofPool p.pool)).run with
  | .ok () => pure (.ok (), { p with dirty := false })
  | .error e => pure (.error e, { p with dirty := true })

/-- Saves the pool if it is dirty. -/
def flush (p : StoredPool) : StateM Files (Except Failure Unit × StoredPool) :=
  if p.dirty then p.save else pure (.ok (), p)

/-- Adds an address. -/
def activate (p : StoredPool) (text : String) (at_ : Instant) : Except Failure StoredPool := do
  let pool ← p.pool.activate text at_
  .ok { p with pool, dirty := true }

/-- Makes the newest active entries the cohort. -/
def rotate (p : StoredPool) (now : Instant) : StoredPool :=
  { p with pool := p.pool.rotate now, dirty := true }

/-- Rotates if a rotation is due, and says whether it was. -/
def rotateIfDue (p : StoredPool) (now : Instant) : StoredPool × Bool :=
  let (pool, rotated) := p.pool.rotateIfDue now
  ({ p with pool, dirty := p.dirty || rotated }, rotated)

end StoredPool

end AddressExchange
