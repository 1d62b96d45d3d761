/-!
# Instants

Points in time to the nanosecond, between the years -262143 and 262142. A leap second has no number
of its own: it ends a minute, and an instant inside one stands in the second before it, with a
thousand million or more nanoseconds.

Instants are ordered by their rank, a number line on which every second has room for a leap second.
-/

namespace AddressExchange

/-- A point in time. -/
structure Instant where
  /-- Seconds since 1970-01-01T00:00:00Z, leap seconds not counted. -/
  seconds : Int
  /-- Nanoseconds since the second began. -/
  nanos : Nat
  seconds_ge : -8334601228800 ≤ seconds := by omega
  seconds_le : seconds ≤ 8210266876799 := by omega
  nanos_lt : nanos < 2000000000 := by omega
  leap_at_minute_end : 1000000000 ≤ nanos → seconds % 60 = 59 := by omega
  deriving DecidableEq, Repr

namespace Instant

/-- The instant of a count of seconds and nanoseconds, if there is one. -/
def of? (seconds : Int) (nanos : Nat) : Option Instant :=
  if h : -8334601228800 ≤ seconds ∧ seconds ≤ 8210266876799 ∧ nanos < 2000000000 ∧
      (1000000000 ≤ nanos → seconds % 60 = 59) then
    some ⟨seconds, nanos, h.1, h.2.1, h.2.2.1, h.2.2.2⟩
  else none

/-- The instant a number of milliseconds after 1970-01-01T00:00:00Z, if it is in range. -/
def ofMillis? (millis : Int) : Option Instant :=
  of? (millis / 1000) ((millis % 1000).toNat * 1000000)

/-- Whole milliseconds since 1970-01-01T00:00:00Z. -/
def toMillis (t : Instant) : Int := t.seconds * 1000 + (t.nanos / 1000000 : Nat)

/-- Does the instant lie inside a leap second? -/
def isLeap (t : Instant) : Bool := 1000000000 ≤ t.nanos

/-- The instant without what is finer than a millisecond. -/
def floorMillis (t : Instant) : Instant where
  seconds := t.seconds
  nanos := t.nanos / 1000000 * 1000000
  seconds_ge := t.seconds_ge
  seconds_le := t.seconds_le
  nanos_lt := by have := t.nanos_lt; omega
  leap_at_minute_end := fun h => t.leap_at_minute_end (by omega)

/-- The place of an instant in the order of instants. -/
def rank (t : Instant) : Int := t.seconds * 2000000000 + t.nanos

instance : LE Instant := ⟨fun a b => a.rank ≤ b.rank⟩
instance : LT Instant := ⟨fun a b => a.rank < b.rank⟩
instance (a b : Instant) : Decidable (a ≤ b) := inferInstanceAs (Decidable (a.rank ≤ b.rank))
instance (a b : Instant) : Decidable (a < b) := inferInstanceAs (Decidable (a.rank < b.rank))

theorem le_def {a b : Instant} : a ≤ b ↔ a.rank ≤ b.rank := Iff.rfl
theorem lt_def {a b : Instant} : a < b ↔ a.rank < b.rank := Iff.rfl

theorem rank_inj {a b : Instant} (h : a.rank = b.rank) : a = b := by
  have ha := a.nanos_lt
  have hb := b.nanos_lt
  simp only [rank] at h
  cases a
  cases b
  simp only [mk.injEq]
  simp only at h ha hb
  omega

/-- The later of two instants. -/
instance : Max Instant := ⟨fun a b => if a ≤ b then b else a⟩

/-- The latest of a list of instants. -/
def latest? : List Instant → Option Instant
  | [] => none
  | t :: ts => some (ts.foldl max t)

/-- The later of two instants that may be absent. -/
def laterOf : Option Instant → Option Instant → Option Instant
  | none, b => b
  | a, none => a
  | some a, some b => some (max a b)

/-- Seconds since the day began. -/
def secondOfDay (t : Instant) : Int := t.seconds % 86400

/-- The nanoseconds from `a` to `b`, negative if `b` comes first. A leap second counts if the later
time of day is behind it; the days between are taken to have none. -/
def elapsed (a b : Instant) : Int :=
  let leap : Int :=
    if a.secondOfDay < b.secondOfDay ∧ a.isLeap then 1
    else if b.secondOfDay < a.secondOfDay ∧ b.isLeap then -1
    else 0
  (b.seconds - a.seconds + leap) * 1000000000 + ((b.nanos : Int) - a.nanos)

end Instant

end AddressExchange
