import AddressExchange.Proofs.Pool.Allocation.Merged
import AddressExchange.Proofs.Pool.History

/-!
# What is brought since a date

A payer that names a date is brought the entries of the cohort and all that were activated since, in
the order in which they were activated. A cohort that was restored may have an entry more than once,
and an entry may be new and in the cohort; it is brought once all the same.
-/

namespace AddressExchange.Allocation

variable {p : Pool} {prior now : Instant}

/-- What was done to the pool does not matter: the response for a date that is not in the future lists
the entries of the cohort and those that were activated after the date and not after now, each once
and in the order of the instants that they have in the pool. Its own date is the latest of the one
named and of these instants, and it is the empty response just if there is no such entry. -/
theorem allocate_since (hp : p.Reachable) (hle : prior ≤ now) :
    let response := allocate p.source (some prior) now
    ∃ es : List Entry, response.addresses = es.map (·.address) ∧
      (∀ e, e ∈ es ↔ e ∈ p.cohort ∨
        e ∈ p.entries.toList ∧ prior < e.activatedAt ∧ e.activatedAt ≤ now) ∧
      response.addresses.Nodup ∧
      (∀ e ∈ es, p.find? e.address = some e) ∧ Entry.Ordered es ∧
      (es ≠ [] → ∃ d, response.replayDate = some d ∧
        IsLatest (prior :: es.map (·.activatedAt)) d) ∧
      (response = .empty ↔ es = []) := by
  intro response
  have h := hp.wellFormed
  have hknown : knownDate (some prior) now = some prior := knownDate_eq_some.mpr ⟨rfl, hle⟩
  have hes := considered_of_known p.source hknown
  have haddresses : response.addresses = (considered p.source (some prior) now).map (·.address) :=
    congrArg Response.addresses (allocate_eq_make p.source (some prior) now)
  refine ⟨considered p.source (some prior) now, haddresses, fun e => ?_, ?_, fun e he => ?_, ?_,
    fun hne => ?_, allocate_eq_empty⟩
  · rw [mem_considered h, hknown]
    simp only [Option.some.injEq, exists_eq_left']
  · rw [haddresses, hes]
    exact nodup_merge _ _
  · exact h.find?_eq_some (mem_entries_of_mem_considered h he)
  · rw [hes]
    exact Entry.ordered_sort _
  · have hdate := isLatest_replayDate hne
    rw [hknown] at hdate
    exact hdate

/-- An entry is in the restored cohort twice and is new to the payer as well, and another one has its
instant. -/
theorem allocate_since_restored :
    let q := ({ config := {} } : Pool).operateAll [
      .change (.activate "1A" (.early 1 0)), .change (.activate "1B" (.early 2 0)),
      .change (.activate "1C" (.early 2 0))]
    let p := q.operate (.restore ["1A", "1B", "1B"] none)
    let response := allocate p.source (some (.early 1 0)) (.early 5 0)
    response.addresses.Nodup ∧ (∀ a ∈ ["1A", "1B", "1C"], a ∈ response.addresses) ∧
      response ≠ .empty := by
  intro q p response
  have hq : q.Reachable := (Pool.Reachable.empty _).operateAll _
  have hp : p.Reachable := hq.operate _
  -- The cohort is named in order, so it is put back as it is.
  let cohort : List Entry := [⟨"1A", .early 1 0⟩, ⟨"1B", .early 2 0⟩, ⟨"1B", .early 2 0⟩]
  have hordered : Entry.Ordered cohort :=
    .cons (by decide) (.cons (by decide) (List.pairwise_singleton ..))
  have hrestore : q.restore (cohort.map (·.address)) none =
      .ok { q with cohort, lastRotation := none } :=
    hq.wellFormed.restore_cohort hordered (by decide +kernel) none
  have hrestored : p = { q with cohort, lastRotation := none } := by
    change q.operate (.restore (cohort.map (·.address)) none) = _
    rw [Pool.operate, hrestore]
  have hentries : p.entries.toList =
      [⟨"1A", .early 1 0⟩, ⟨"1B", .early 2 0⟩, ⟨"1C", .early 2 0⟩] := by
    rw [hrestored]
    decide +kernel
  have hle : Instant.early 1 0 ≤ .early 5 0 := by decide
  obtain ⟨es, haddresses, hmem, hnodup, -, -, -, hempty⟩ := allocate_since hp hle
  have hcohort : ⟨"1A", .early 1 0⟩ ∈ es :=
    (hmem _).mpr (.inl (by rw [hrestored]; exact List.mem_cons_self))
  have hboth : ⟨"1B", .early 2 0⟩ ∈ es :=
    (hmem _).mpr (.inr ⟨by rw [hentries]; decide, by decide, by decide⟩)
  have hnew : ⟨"1C", .early 2 0⟩ ∈ es :=
    (hmem _).mpr (.inr ⟨by rw [hentries]; decide, by decide, by decide⟩)
  refine ⟨hnodup, ?_, fun h => List.ne_nil_of_mem hcohort (hempty.mp h)⟩
  rw [haddresses]
  simp only [List.forall_mem_cons]
  exact ⟨List.mem_map_of_mem hcohort, List.mem_map_of_mem hboth, List.mem_map_of_mem hnew,
    fun a ha => absurd ha List.not_mem_nil⟩

end AddressExchange.Allocation
