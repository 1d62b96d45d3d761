import AddressExchange.Proofs.Pool.Allocation

/-!
# What is brought of any source

Nothing is asked of the source here. Its lists may be out of order, name an address more than once,
and give it different instants. The response is still one of two lists: the entries of both lists that
come first for their addresses, or the cohort as it is.
-/

namespace AddressExchange.Allocation

/-- Is an instant the latest of a list? -/
def IsLatest (ts : List Instant) (t : Instant) : Prop := t ∈ ts ∧ ∀ x ∈ ts, x ≤ t

variable {source : AddressSource} {prior : Option Instant} {now : Instant}

theorem allocate_eq_empty : allocate source prior now = .empty ↔ considered source prior now = [] := by
  constructor
  · intro h
    rw [allocate_eq_make] at h
    exact List.map_eq_nil_iff.mp (congrArg Response.addresses h)
  · intro h
    unfold allocate
    rw [h]
    rfl

/-- The date of a response is the latest of the date that was there before and the instants of the
entries. -/
theorem isLatest_replayDate (h : considered source prior now ≠ []) :
    ∃ d, (allocate source prior now).replayDate = some d ∧
      IsLatest (((knownDate prior now).or (source.latestActivation now)).toList ++
        (considered source prior now).map (·.activatedAt)) d := by
  obtain ⟨d, hd, hseen, hentries⟩ := le_replayDate h
  refine ⟨d, hd, ?_, ?_⟩
  · rw [List.mem_append, Option.mem_toList]
    rcases replayDate_eq_some hd with ⟨hnone, hlatest⟩ | hknown | ⟨e, he, rfl⟩
    · rw [hnone, Option.none_or]
      exact .inl hlatest
    · rw [hknown, Option.some_or]
      exact .inl rfl
    · exact .inr (List.mem_map_of_mem he)
  · intro t ht
    cases List.mem_append.mp ht with
    | inl ht => exact hseen t (Option.mem_toList.mp ht)
    | inr ht =>
      obtain ⟨e, he, rfl⟩ := List.mem_map.mp ht
      exact hentries e he

theorem considered_of_known (source : AddressSource) {since : Instant}
    (h : knownDate prior now = some since) :
    considered source prior now = merge source.cohort (source.activatedSince since now) := by
  rw [considered, h]

theorem considered_of_unknown (source : AddressSource) (h : knownDate prior now = none) :
    considered source prior now = source.cohort := by
  rw [considered, h]

/-- Whatever lists and instants a source answers: a payer that names a date which is not in the future
is brought each address of both lists once, in the order of the instants of their first entries and of
their first occurrence, and the latest of these instants and its own date. Any other payer is brought
the cohort as it is, and the latest of its instants and the newest activation. The response is the
empty one just if there is nothing to bring. -/
theorem allocate_any_source (source : AddressSource) (prior : Option Instant) (now : Instant) :
    let response := allocate source prior now
    (∀ since, prior = some since → since ≤ now →
      let offered := source.cohort ++ source.activatedSince since now
      ∃ es : List Entry, response.addresses = es.map (·.address) ∧
        (∀ e, e ∈ es ↔ IsFirst offered e) ∧ es.Pairwise (Before offered) ∧
        response.addresses.Nodup ∧
        (∀ a, a ∈ response.addresses ↔ a ∈ offered.map (·.address)) ∧
        (offered ≠ [] → ∃ d, response.replayDate = some d ∧
          IsLatest (since :: es.map (·.activatedAt)) d) ∧
        (response = .empty ↔ offered = [])) ∧
    ((∀ since, prior = some since → now < since) →
      response.addresses = source.cohort.map (·.address) ∧
        (source.cohort ≠ [] → ∃ d, response.replayDate = some d ∧
          IsLatest ((source.latestActivation now).toList ++
            source.cohort.map (·.activatedAt)) d) ∧
        (response = .empty ↔ source.cohort = [])) := by
  intro response
  have haddresses : response.addresses = (considered source prior now).map (·.address) :=
    congrArg Response.addresses (allocate_eq_make source prior now)
  constructor
  · intro since hprior hle offered
    have hknown : knownDate prior now = some since := knownDate_eq_some.mpr ⟨hprior, hle⟩
    have hes := considered_of_known source hknown
    rw [hes] at haddresses
    -- Merging loses no address, so nothing is left of it just if there was nothing.
    have hnil : considered source prior now = [] ↔ offered = [] := by
      rw [hes, ← List.map_eq_nil_iff (f := (·.address)), List.eq_nil_iff_forall_not_mem]
      simp only [mem_addresses_merge, ← List.eq_nil_iff_forall_not_mem, List.map_eq_nil_iff]
      rfl
    refine ⟨_, haddresses, fun e => mem_merge, pairwise_merge _ _, ?_, ?_, ?_, ?_⟩
    · rw [haddresses]
      exact nodup_merge _ _
    · intro a
      rw [haddresses]
      exact mem_addresses_merge
    · intro hne
      have hdate := isLatest_replayDate (mt hnil.mp hne)
      rw [hknown, hes] at hdate
      exact hdate
    · exact allocate_eq_empty.trans hnil
  · intro hfuture
    have hunknown : knownDate prior now = none := by
      rw [Option.eq_none_iff_forall_ne_some]
      intro since hknown
      obtain ⟨hprior, hle⟩ := knownDate_eq_some.mp hknown
      exact Std.not_lt.mpr hle (hfuture since hprior)
    have hes := considered_of_unknown source hunknown
    rw [hes] at haddresses
    refine ⟨haddresses, fun hne => ?_, ?_⟩
    · have hdate : ∃ d, response.replayDate = some d ∧ _ := isLatest_replayDate (hes ▸ hne)
      rw [hunknown, hes] at hdate
      exact hdate
    · exact allocate_eq_empty.trans (by rw [hes])

/-- Lists out of order, with one address that comes three times and with another instant each time. A
payer with a date is brought each address once, a payer with a date of the future the cohort as it is.
-/
theorem allocate_any_source_disordered :
    let source : AddressSource := {
      cohort := [⟨"1B", .early 5 0⟩, ⟨"1A", .early 3 0⟩, ⟨"1B", .early 1 0⟩]
      activatedSince _ _ := [⟨"1C", .early 3 0⟩, ⟨"1B", .early 9 0⟩]
      latestActivation _ := none }
    let now := Instant.early 6 0
    (allocate source (some (.early 2 0)) now).addresses.Nodup ∧
      "1C" ∈ (allocate source (some (.early 2 0)) now).addresses ∧
      (allocate source (some (.early 7 0)) now).addresses = ["1B", "1A", "1B"] := by
  intro source now
  obtain ⟨hknown, -⟩ := allocate_any_source source (some (.early 2 0)) now
  obtain ⟨es, -, -, -, hnodup, hmem, -⟩ := hknown (.early 2 0) rfl (by decide)
  obtain ⟨-, hfuture⟩ := allocate_any_source source (some (.early 7 0)) now
  have hlater : ∀ since, some (Instant.early 7 0) = some since → now < since := by
    rintro since ⟨⟩
    decide
  exact ⟨hnodup, (hmem "1C").mpr (by decide), (hfuture hlater).1⟩

end AddressExchange.Allocation
