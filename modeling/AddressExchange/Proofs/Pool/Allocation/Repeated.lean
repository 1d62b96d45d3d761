import AddressExchange.Proofs.Pool.Allocation
import AddressExchange.Proofs.Pool.History

/-!
# Asking twice

A payer that asks again at once, with the date that it was just given, is brought the cohort and
nothing else. All that it was given on first contact comes again; what was new to it does not, unless
it is in the cohort.
-/

namespace AddressExchange.Allocation

variable {p : Pool} {prior : Option Instant} {now : Instant}

/-- Nothing is active and later than the date of a response, so only the cohort is considered for
it. -/
theorem mem_considered_again (h : p.WellFormed) {e : Entry} :
    e ∈ considered p.source (allocate p.source prior now).replayDate now ↔ e ∈ p.cohort := by
  rw [mem_considered h]
  constructor
  · rintro (hc | ⟨he, since, hknown, hlt, hle⟩)
    · exact hc
    · obtain ⟨hdate, -⟩ := knownDate_eq_some.mp hknown
      have hactive : e.activatedAt ≤ since :=
        le_replayDate_of_active h hdate (Pool.mem_active.mpr ⟨he, hle⟩)
      exact absurd hlt (Std.not_lt.mpr hactive)
  · exact .inl

/-- A payer that asks again with the date that it was given is brought the addresses of the cohort.
They have all been in the first response, and what else was in it was activated after the date that
the payer named at first. -/
theorem allocate_again (hp : p.Reachable) (prior : Option Instant) (now : Instant) :
    let first := allocate p.source prior now
    let again := allocate p.source first.replayDate now
    (∀ a, a ∈ again.addresses ↔ a ∈ p.cohort.map (·.address)) ∧
      (∀ a ∈ again.addresses, a ∈ first.addresses) ∧
      ∀ a ∈ first.addresses, a ∉ again.addresses →
        ∃ since, prior = some since ∧ since ≤ now ∧
          ∃ e ∈ p.entries.toList, e.address = a ∧ since < e.activatedAt ∧ e.activatedAt ≤ now := by
  intro first again
  have h := hp.wellFormed
  have hagain : ∀ a, a ∈ again.addresses ↔ a ∈ p.cohort.map (·.address) := by
    intro a
    rw [mem_addresses_allocate, List.mem_map]
    exact exists_congr fun e => and_congr_left' (mem_considered_again h)
  refine ⟨hagain, ?_, ?_⟩
  · intro a ha
    obtain ⟨e, he, rfl⟩ := List.mem_map.mp ((hagain a).mp ha)
    exact mem_addresses_allocate.mpr ⟨e, (mem_considered h).mpr (.inl he), rfl⟩
  · intro a ha hlost
    obtain ⟨e, he, rfl⟩ := mem_addresses_allocate.mp ha
    rcases (mem_considered h).mp he with hc | ⟨hmem, since, hknown, hlt, hle⟩
    · exact absurd ((hagain _).mpr (List.mem_map_of_mem hc)) hlost
    · obtain ⟨hprior, hpast⟩ := knownDate_eq_some.mp hknown
      exact ⟨since, hprior, hpast, e, hmem, rfl, hlt, hle⟩

/-- One address is in the cohort, and one was activated since. -/
theorem allocate_again_keeps_cohort :
    let p := ({ config := { cohortSize := 1 } } : Pool).operateAll [
      .change (.activate "1A" (.early 1 0)), .change (.rotate (.early 1 0)),
      .change (.activate "1B" (.early 2 0))]
    let first := allocate p.source (some (.early 1 0)) (.early 9 0)
    ∀ a, a ∈ (allocate p.source first.replayDate (.early 9 0)).addresses ↔ a ∈ ["1A"] := by
  intro p first
  have hp : p.Reachable := (Pool.Reachable.empty _).operateAll _
  have hcohort : p.cohort.map (·.address) = ["1A"] := by decide +kernel
  rw [← hcohort]
  exact (allocate_again hp (some (.early 1 0)) (.early 9 0)).1

/-- An address outside the cohort that is new to the payer does not come again. -/
theorem allocate_again_loses_address :
    let p := ({ config := { cohortSize := 1 } } : Pool).operateAll [
      .change (.activate "1A" (.early 1 0)), .change (.rotate (.early 1 0)),
      .change (.activate "1B" (.early 2 0))]
    let first := allocate p.source (some (.early 1 0)) (.early 9 0)
    p.Reachable ∧ Instant.early 1 0 ≤ .early 9 0 ∧ "1B" ∈ first.addresses ∧
      "1B" ∉ (allocate p.source first.replayDate (.early 9 0)).addresses := by
  intro p first
  have hp : p.Reachable := (Pool.Reachable.empty _).operateAll _
  have h := hp.wellFormed
  let e : Entry := ⟨"1B", .early 2 0⟩
  have he : e ∈ p.entries.toList := by decide +kernel
  have hcohort : e ∉ p.cohort := by decide +kernel
  have hfirst : e ∈ considered p.source (some (.early 1 0)) (.early 9 0) :=
    (mem_considered h).mpr (.inr ⟨he, .early 1 0, by decide, by decide, by decide⟩)
  refine ⟨hp, by decide, (address_mem_allocate h he).mpr hfirst, fun hagain => ?_⟩
  exact hcohort ((mem_considered_again h).mp ((address_mem_allocate h he).mp hagain))

end AddressExchange.Allocation
