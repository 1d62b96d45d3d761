import AddressExchange.Pool.Allocation
import AddressExchange.Pool.Stored

/-!
# The pool that a Matcher serves from

Either kept in memory alone, and lost at the end, or kept in a file as well.
-/

namespace AddressExchange

/-- A pool with or without a file. -/
inductive HeldPool where
  | memory (pool : Pool)
  | stored (pool : StoredPool)

namespace HeldPool

/-- The pool itself. -/
def pool : HeldPool → Pool
  | memory p => p
  | stored p => p.pool

/-- The held pool with another pool in it; its mark stays as it is. -/
def setPool (h : HeldPool) (pool : Pool) : HeldPool :=
  match h with
  | memory _ => memory pool
  | stored p => stored { p with pool }

/-- The pool as allocation sees it. -/
def source (h : HeldPool) : AddressSource := h.pool.source

def stats (h : HeldPool) : Pool.Stats := h.pool.stats

/-- Adds an address. -/
def activate (h : HeldPool) (text : String) (at_ : Instant) : Except Failure HeldPool :=
  match h with
  | memory p => (p.activate text at_).map memory
  | stored p => (p.activate text at_).map stored

/-- Makes the newest active entries the cohort. -/
def rotate (h : HeldPool) (now : Instant) : HeldPool :=
  match h with
  | memory p => memory (p.rotate now)
  | stored p => stored (p.rotate now)

/-- Rotates if a rotation is due, and says whether it was. -/
def rotateIfDue (h : HeldPool) (now : Instant) : HeldPool × Bool :=
  match h with
  | memory p => let (p, rotated) := p.rotateIfDue now; (memory p, rotated)
  | stored p => let (p, rotated) := p.rotateIfDue now; (stored p, rotated)

/-- Writes what the file does not have; without a file there is nothing to do. -/
def persist (h : HeldPool) : StateM Files (Except Failure Unit × HeldPool) :=
  match h with
  | memory p => pure (.ok (), memory p)
  | stored p => do
    let (result, p) ← p.flush
    pure (result, stored p)

end HeldPool

end AddressExchange
