import AddressExchange.Pool

/-!
# Allocation

Which addresses a payer is given. On first contact these are the cohort. A payer that names the date
of its last answer is given the cohort and all that was activated since; the date it is given in
turn is the latest of all that it has now seen.
-/

namespace AddressExchange

/-- What allocation asks of a pool. -/
structure AddressSource where
  cohort : List Entry
  /-- Entries activated after the first instant and not after the second. -/
  activatedSince : Instant → Instant → List Entry
  /-- The newest activation that is not after an instant. -/
  latestActivation : Instant → Option Instant

/-- A pool as a source of addresses. -/
def Pool.source (p : Pool) : AddressSource := ⟨p.cohort, p.activatedSince, p.latestActivation⟩

namespace Allocation

/-- The entries whose address was not seen before. -/
def distinct (seen : List String) : List Entry → List Entry
  | [] => []
  | e :: es =>
    if e.address ∈ seen then distinct seen es else e :: distinct (e.address :: seen) es

/-- The entries of both lists, each address once, in the order of their instants. -/
def merge (cohort fresh : List Entry) : List Entry := Entry.sort (distinct [] (cohort ++ fresh))

/-- A date that a payer names, unless it lies in the future and so cannot come from this pool. -/
def knownDate (prior : Option Instant) (now : Instant) : Option Instant :=
  prior.filter fun date => decide (date ≤ now)

/-- The entries that a payer is given. -/
def considered (source : AddressSource) (prior : Option Instant) (now : Instant) : List Entry :=
  match knownDate prior now with
  | none => source.cohort
  | some since => merge source.cohort (source.activatedSince since now)

/-- The latest of the entries. -/
def newest (es : List Entry) : Option Instant := Instant.latest? (es.map (·.activatedAt))

/-- The response to a payer that names a date at an instant. -/
def allocate (source : AddressSource) (prior : Option Instant) (now : Instant) : Response :=
  let es := considered source prior now
  if es.isEmpty then .empty
  else
    let seen := match knownDate prior now with
      | none => source.latestActivation now
      | some since => some since
    .make (Instant.laterOf seen (newest es)) (es.map (·.address))

end Allocation

end AddressExchange
