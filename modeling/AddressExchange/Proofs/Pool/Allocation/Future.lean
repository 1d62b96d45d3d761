import AddressExchange.Proofs.Pool.Allocation
import AddressExchange.Proofs.Pool.Change

/-!
# Responses and the clock

As long as the clock is not behind the last rotation, a response has nothing in it that lies in the
future, and its date is taken for what it is whenever the payer names it. Once the clock has gone back
behind the rotation, the entries of the cohort that lie in the future are given out all the same, and
with them a date in the future.
-/

namespace AddressExchange.Allocation

variable {p : Pool} {prior : Option Instant} {now : Instant}

theorem knownDate_of_le {d : Instant} (h : d ≤ now) : knownDate (some d) now = some d :=
  knownDate_eq_some.mpr ⟨rfl, h⟩

/-- An entry of the future is given just if it is in the cohort. -/
theorem mem_considered_of_lt (h : p.WellFormed) {e : Entry} (hlt : now < e.activatedAt) :
    e ∈ considered p.source prior now ↔ e ∈ p.cohort := by
  rw [mem_considered h]
  constructor
  · rintro (hc | ⟨-, -, -, -, hle⟩)
    · exact hc
    · exact absurd hlt (Std.not_lt.mpr hle)
  · exact .inl

/-- The date of a response lies in the future just if an entry of the cohort does. -/
theorem lt_replayDate_iff (h : p.WellFormed) :
    (∃ d, (allocate p.source prior now).replayDate = some d ∧ now < d) ↔
      ∃ e ∈ p.cohort, now < e.activatedAt := by
  constructor
  · rintro ⟨d, hd, hlt⟩
    by_contra hnone
    have hactive : ∀ e ∈ p.cohort, e.activatedAt ≤ now := fun e he =>
      Std.not_lt.mp fun hlt' => hnone ⟨e, he, hlt'⟩
    exact Std.not_lt.mpr (replayDate_le h hactive hd) hlt
  · rintro ⟨e, he, hlt⟩
    have hmem : e ∈ considered p.source prior now := (mem_considered_of_lt h hlt).mpr he
    obtain ⟨d, hd, -, hle⟩ := le_replayDate (List.ne_nil_of_mem hmem)
    exact ⟨d, hd, Std.lt_of_lt_of_le hlt (hle e hmem)⟩

/-- Whatever was done to a pool, at whatever instants: if the clock is not behind the last rotation,
then no response has an entry or a date of the future, and the date, also as the payer receives it, is
a known one at all later instants. In any case an entry of the future is given just if it is in the
cohort, and then the date is one of the future, too. -/
theorem future_only_from_cohort (config : PoolConfig) (changes : List Pool.Change)
    (prior : Option Instant) (now : Instant) :
    let p := ({ config } : Pool).applyAll changes
    let response := allocate p.source prior now
    ((∀ last, p.lastRotation = some last → last ≤ now) →
      (∀ e ∈ p.entries.toList, e.address ∈ response.addresses → e.activatedAt ≤ now) ∧
      ∀ d, response.replayDate = some d → d ≤ now ∧ ∀ later, now ≤ later →
        knownDate (some d) later = some d ∧
        knownDate (some d.floorMillis) later = some d.floorMillis) ∧
    (∀ e ∈ p.entries.toList, now < e.activatedAt →
      (e.address ∈ response.addresses ↔ e ∈ p.cohort)) ∧
    ((∃ d, response.replayDate = some d ∧ now < d) ↔ ∃ e ∈ p.cohort, now < e.activatedAt) := by
  intro p response
  have hempty := Pool.wellFormed_empty config
  have h : p.WellFormed := hempty.applyAll changes
  have hactive : p.ActiveAtRotation :=
    Pool.ActiveAtRotation.applyAll (fun e he => absurd he List.not_mem_nil) hempty changes
  refine ⟨fun hclock => ?_, fun e he hlt => ?_, lt_replayDate_iff h⟩
  · have hcohort : ∀ e ∈ p.cohort, e.activatedAt ≤ now := by
      intro e he
      obtain ⟨last, hlast, hle⟩ := hactive e he
      exact Std.le_trans hle (hclock last hlast)
    constructor
    · intro e he haddress
      exact le_of_mem_considered h hcohort ((address_mem_allocate h he).mp haddress)
    · intro d hd
      have hle : d ≤ now := replayDate_le h hcohort hd
      refine ⟨hle, fun later hlater => ?_⟩
      have hlate := Std.le_trans hle hlater
      exact ⟨knownDate_of_le hlate, knownDate_of_le (Std.le_trans d.floorMillis_le hlate)⟩
  · exact (address_mem_allocate h he).trans (mem_considered_of_lt h hlt)

/-- An address that is activated for later is not given yet, and the date is that of the cohort. -/
theorem future_only_from_cohort_waiting :
    let changes : List Pool.Change := [
      .activate "1A" (.early 1 0), .rotate (.early 2 0), .activate "1B" (.early 5 0)]
    let p := ({ config := {} } : Pool).applyAll changes
    "1B" ∉ (allocate p.source none (.early 3 0)).addresses ∧
      knownDate (some (.early 1 0)) (.early 4 0) = some (.early 1 0) := by
  intro changes p
  obtain ⟨hclock, -, -⟩ := future_only_from_cohort {} changes none (.early 3 0)
  have hrotated : p.lastRotation = some (.early 2 0) := by decide +kernel
  have hlast : ∀ last, p.lastRotation = some last → last ≤ .early 3 0 := by
    intro last hlast
    obtain rfl : .early 2 0 = last := Option.some.inj (hrotated.symm.trans hlast)
    decide
  obtain ⟨hpast, hdate⟩ := hclock hlast
  constructor
  · intro hgiven
    let e : Entry := ⟨"1B", .early 5 0⟩
    have hentry : e ∈ p.entries.toList := by decide +kernel
    exact absurd (hpast e hentry hgiven) (by decide)
  · have hd : (allocate p.source none (.early 3 0)).replayDate = some (.early 1 0) := by
      decide +kernel
    exact ((hdate _ hd).2 (.early 4 0) (by decide)).1

/-- After a rotation the clock goes back. What was activated before the rotation is given with an
instant of the future, and that date counts as none when it is named at once. -/
theorem future_given_after_clock_back :
    let p := ({ config := {} } : Pool).applyAll [.activate "1A" (.early 5 0), .rotate (.early 5 0)]
    let now := Instant.early 4 0
    let response := allocate p.source none now
    ⟨"1A", .early 5 0⟩ ∈ p.entries.toList ∧ response.addresses = ["1A"] ∧
      response.replayDate = some (.early 5 0) ∧ now < .early 5 0 ∧
      knownDate response.replayDate now = none := by
  decide +kernel

end AddressExchange.Allocation
