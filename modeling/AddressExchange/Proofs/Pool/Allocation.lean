import AddressExchange.Proofs.Pool
import AddressExchange.Proofs.Pool.Merging

/-!
# What an allocation brings

The addresses of a response are those of the entries considered, and its date is one of the instants
that were looked at and none of them comes after it. No address that was activated since the date of
the last answer is left out.
-/

namespace AddressExchange.Allocation

/-! ## Responses -/

variable (source : AddressSource) (prior : Option Instant) (now : Instant)

/-- A response of the current version lists the addresses of the entries considered. -/
theorem allocate_eq_make :
    allocate source prior now = .make (allocate source prior now).replayDate
      ((considered source prior now).map (·.address)) := by
  unfold allocate
  by_cases h : considered source prior now = []
  · rw [h]
    rfl
  · simp only [List.isEmpty_iff, h, if_false]
    rfl

/-- A response has the current version. -/
theorem allocate_eq_make_self :
    allocate source prior now =
      .make (allocate source prior now).replayDate (allocate source prior now).addresses := by
  rw [allocate_eq_make]
  rfl

variable {source prior now}

theorem knownDate_eq_some {since : Instant} :
    knownDate prior now = some since ↔ prior = some since ∧ since ≤ now := by
  simp [knownDate, Option.filter_eq_some_iff]

theorem mem_addresses_allocate {address : String} :
    address ∈ (allocate source prior now).addresses ↔
      ∃ e ∈ considered source prior now, e.address = address := by
  rw [allocate_eq_make]
  exact List.mem_map

/-- Without entries there is no date. -/
theorem considered_ne_nil {d : Instant} (hd : (allocate source prior now).replayDate = some d) :
    considered source prior now ≠ [] := by
  intro hnil
  unfold allocate at hd
  rw [hnil] at hd
  cases hd

/-- A response without addresses has no date. -/
theorem replayDate_eq_none (h : (allocate source prior now).addresses = []) :
    (allocate source prior now).replayDate = none := by
  rw [Option.eq_none_iff_forall_ne_some]
  intro d hd
  obtain ⟨e, he⟩ := List.exists_mem_of_ne_nil _ (considered_ne_nil hd)
  have hmem := mem_addresses_allocate.mpr ⟨e, he, rfl⟩
  rw [h] at hmem
  cases hmem

theorem replayDate_eq (h : considered source prior now ≠ []) :
    (allocate source prior now).replayDate =
      Instant.laterOf ((knownDate prior now).or (source.latestActivation now))
        (newest (considered source prior now)) := by
  unfold allocate
  simp only [List.isEmpty_iff, h, if_false, Response.make]
  cases knownDate prior now <;> rfl

/-- The date of a response is an instant that was looked at. -/
theorem replayDate_eq_some {d : Instant} (h : (allocate source prior now).replayDate = some d) :
    (knownDate prior now = none ∧ source.latestActivation now = some d) ∨
      knownDate prior now = some d ∨ ∃ e ∈ considered source prior now, e.activatedAt = d := by
  rw [replayDate_eq (considered_ne_nil h)] at h
  cases Instant.laterOf_eq_some h with
  | inl hseen =>
    cases Option.or_eq_some_iff.mp hseen with
    | inl hk => exact .inr (.inl hk)
    | inr hl => exact .inl hl
  | inr hnew =>
    obtain ⟨e, he, hd⟩ := List.mem_map.mp (Instant.latest?_eq_some.mp hnew).1
    exact .inr (.inr ⟨e, he, hd⟩)

/-- A response with addresses has a date, and nothing that was looked at comes after it. -/
theorem le_replayDate (h : considered source prior now ≠ []) :
    ∃ d, (allocate source prior now).replayDate = some d ∧
      (∀ seen, (knownDate prior now).or (source.latestActivation now) = some seen → seen ≤ d) ∧
      ∀ e ∈ considered source prior now, e.activatedAt ≤ d := by
  obtain ⟨m, hm⟩ : ∃ m, newest (considered source prior now) = some m := by
    cases hn : newest (considered source prior now) with
    | none => exact absurd (List.map_eq_nil_iff.mp (Instant.latest?_eq_none.mp hn)) h
    | some m => exact ⟨m, rfl⟩
  have hle : ∀ e ∈ considered source prior now, e.activatedAt ≤ m := fun e he =>
    (Instant.latest?_eq_some.mp hm).2 _ (List.mem_map_of_mem he)
  obtain ⟨d, hd, hmd⟩ := Instant.le_laterOf
    (a := (knownDate prior now).or (source.latestActivation now)) (.inr hm)
  refine ⟨d, (replayDate_eq h).trans hd, fun seen hs => ?_, fun e he => Std.le_trans (hle e he) hmd⟩
  obtain ⟨d', hd', hle'⟩ :=
    Instant.le_laterOf (b := newest (considered source prior now)) (.inl hs)
  exact Option.some.inj (hd'.symm.trans hd) ▸ hle'

/-- A response does not fall behind the date that the payer named. -/
theorem le_replayDate_of_known {since d : Instant} (hs : knownDate prior now = some since)
    (hd : (allocate source prior now).replayDate = some d) : since ≤ d := by
  obtain ⟨d', hd', hle, -⟩ := le_replayDate (considered_ne_nil hd)
  exact Option.some.inj (hd'.symm.trans hd) ▸ hle since (by rw [hs, Option.some_or])

theorem length_distinct_le (seen : List String) (es : List Entry) :
    (distinct seen es).length ≤ es.length := by
  induction es generalizing seen with
  | nil => exact Nat.le_refl _
  | cons e es ih =>
    rw [distinct]
    split
    · exact Nat.le_succ_of_le (ih _)
    · exact Nat.succ_le_succ (ih _)

/-! ## Responses of a pool -/

/-- No response has more addresses than the cohort and the pool together. -/
theorem length_addresses_le (p : Pool) (prior : Option Instant) (now : Instant) :
    (allocate p.source prior now).addresses.length ≤ p.cohort.length + p.entries.size := by
  have hconsidered : (considered p.source prior now).length ≤ p.cohort.length + p.entries.size := by
    unfold considered
    cases knownDate prior now with
    | none => exact Nat.le_add_right _ _
    | some since =>
      have hfresh : (p.activatedSince since now).length ≤ p.entries.size := by
        unfold Pool.activatedSince
        split
        · exact Nat.zero_le _
        · rw [Array.length_toList, Array.size_extract]
          omega
      have hmerge : (merge p.cohort (p.activatedSince since now)).length ≤
          (p.cohort ++ p.activatedSince since now).length :=
        (Entry.sort_perm _).length_eq.trans_le (length_distinct_le [] _)
      rw [List.length_append] at hmerge
      exact hmerge.trans (Nat.add_le_add_left hfresh _)
  rw [allocate_eq_make]
  exact (List.length_map _).trans_le hconsidered

section Pools

variable {p : Pool} (h : p.WellFormed)

include h

/-- A payer is given the cohort, and what was activated since the date that it named. -/
theorem mem_considered {e : Entry} :
    e ∈ considered p.source prior now ↔
      e ∈ p.cohort ∨ e ∈ p.entries.toList ∧ ∃ since, knownDate prior now = some since ∧
        since < e.activatedAt ∧ e.activatedAt ≤ now := by
  unfold considered
  cases hk : knownDate prior now with
  | none => simp [Pool.source]
  | some since =>
    have hfresh : e ∈ p.activatedSince since now ↔
        e ∈ p.entries.toList ∧ ∃ s, some since = some s ∧ s < e.activatedAt ∧ e.activatedAt ≤ now := by
      simp [Pool.mem_activatedSince h.ordered]
    rw [← hfresh]
    change e ∈ merge p.cohort (p.activatedSince since now) ↔ _
    rw [mem_merge, ← List.mem_append]
    constructor
    · exact IsFirst.mem
    · -- An entry is left out only for another one of its address, and the pool has no other.
      intro he
      have hsub : ∀ x ∈ p.cohort ++ p.activatedSince since now, x ∈ p.entries.toList :=
        fun x hx => (List.mem_append.mp hx).elim h.mem_of_mem_cohort
          fun hf => ((Pool.mem_activatedSince h.ordered).mp hf).1
      obtain ⟨x, hx, haddress⟩ := exists_isFirst (List.mem_map_of_mem he)
      have hsame := h.eq_of_address_eq (hsub x hx.mem) (hsub e he) haddress
      exact hsame ▸ hx

theorem mem_entries_of_mem_considered {e : Entry} (he : e ∈ considered p.source prior now) :
    e ∈ p.entries.toList := by
  cases (mem_considered h).mp he with
  | inl hc => exact h.mem_of_mem_cohort hc
  | inr hf => exact hf.1

/-- If the cohort is active, then so is all that a payer is given. -/
theorem le_of_mem_considered (hc : ∀ e ∈ p.cohort, e.activatedAt ≤ now) {e : Entry}
    (he : e ∈ considered p.source prior now) : e.activatedAt ≤ now := by
  rcases (mem_considered h).mp he with he | ⟨-, -, -, -, hle⟩
  · exact hc e he
  · exact hle

/-- The newest activation is the instant of an active entry. -/
theorem latestActivation_mem {d : Instant} (hd : p.latestActivation now = some d) :
    ∃ e ∈ p.active now, e.activatedAt = d := by
  rw [Pool.latestActivation_eq h.ordered, Option.map_eq_some_iff] at hd
  obtain ⟨e, he, hd⟩ := hd
  exact ⟨e, List.mem_of_getLast? he, hd⟩

/-- No active entry comes after the newest activation. -/
theorem le_latestActivation {e : Entry} (he : e ∈ p.active now) :
    ∃ d, p.latestActivation now = some d ∧ e.activatedAt ≤ d := by
  have hordered : Entry.Ordered (p.active now) := h.ordered.sublist List.filter_sublist
  have hlast := List.getLast?_eq_some_getLast (List.ne_nil_of_mem he)
  refine ⟨_, ?_, hordered.le_last he hlast⟩
  rw [Pool.latestActivation_eq h.ordered, hlast]
  rfl

/-- The date of a response is the one that the payer named or the instant of an entry. -/
theorem replayDate_mem {d : Instant} (hd : (allocate p.source prior now).replayDate = some d) :
    prior = some d ∨ ∃ e ∈ p.entries.toList, e.activatedAt = d := by
  rcases replayDate_eq_some hd with ⟨-, hl⟩ | hk | ⟨e, he, hd⟩
  · obtain ⟨e, he, hd⟩ := latestActivation_mem h hl
    exact .inr ⟨e, (Pool.mem_active.mp he).1, hd⟩
  · exact .inl (knownDate_eq_some.mp hk).1
  · exact .inr ⟨e, mem_entries_of_mem_considered h he, hd⟩

/-- If the cohort is active, then a response has no date in the future. -/
theorem replayDate_le (hc : ∀ e ∈ p.cohort, e.activatedAt ≤ now) {d : Instant}
    (hd : (allocate p.source prior now).replayDate = some d) : d ≤ now := by
  rcases replayDate_eq_some hd with ⟨-, hl⟩ | hk | ⟨e, he, rfl⟩
  · obtain ⟨e, he, rfl⟩ := latestActivation_mem h hl
    exact (Pool.mem_active.mp he).2
  · exact (knownDate_eq_some.mp hk).2
  · exact le_of_mem_considered h hc he

/-- No active entry comes after the date of a response. -/
theorem le_replayDate_of_active {d : Instant}
    (hd : (allocate p.source prior now).replayDate = some d) {e : Entry} (he : e ∈ p.active now) :
    e.activatedAt ≤ d := by
  obtain ⟨d', hd', hseen, hconsidered⟩ := le_replayDate (considered_ne_nil hd)
  obtain rfl : d' = d := Option.some.inj (hd'.symm.trans hd)
  cases hk : knownDate prior now with
  | none =>
    obtain ⟨newest, hnewest, hle⟩ := le_latestActivation h he
    exact Std.le_trans hle (hseen newest (by rw [hk]; exact hnewest))
  | some since =>
    obtain ⟨hmem, hle⟩ := Pool.mem_active.mp he
    by_cases hlt : since < e.activatedAt
    · exact hconsidered e ((mem_considered h).mpr (.inr ⟨hmem, since, hk, hlt, hle⟩))
    · exact Std.le_trans (Std.not_lt.mp hlt) (hseen since (by rw [hk, Option.some_or]))

/-- An address is in a response just if its entry was considered. -/
theorem address_mem_allocate {e : Entry} (he : e ∈ p.entries.toList) :
    e.address ∈ (allocate p.source prior now).addresses ↔ e ∈ considered p.source prior now := by
  rw [mem_addresses_allocate]
  constructor
  · rintro ⟨x, hx, haddress⟩
    have hsame := h.eq_of_address_eq (mem_entries_of_mem_considered h hx) he haddress
    exact hsame ▸ hx
  · exact fun hc => ⟨e, hc, rfl⟩

/-- What is active outside the cohort is in the response to a past date if it came after that. -/
theorem address_mem_allocate_of_notMem_cohort {since : Instant} (hle : since ≤ now) {e : Entry}
    (he : e ∈ p.active now) (hc : e ∉ p.cohort) :
    e.address ∈ (allocate p.source (some since) now).addresses ↔ since < e.activatedAt := by
  obtain ⟨hmem, hactive⟩ := Pool.mem_active.mp he
  have hknown : knownDate (some since) now = some since := knownDate_eq_some.mpr ⟨rfl, hle⟩
  rw [address_mem_allocate h hmem, mem_considered h, hknown]
  constructor
  · rintro (hin | ⟨-, d, hd, hlt, -⟩)
    · exact absurd hin hc
    · cases hd
      exact hlt
  · exact fun hlt => .inr ⟨hmem, _, rfl, hlt, hactive⟩

/-- Each address of a response fills one row of the wire format. -/
theorem isRow_of_mem_allocate {address : String}
    (ha : address ∈ (allocate p.source prior now).addresses) : Wire.IsRow address := by
  obtain ⟨e, he, rfl⟩ := mem_addresses_allocate.mp ha
  exact Address.isRow_of_check (h.checked e (mem_entries_of_mem_considered h he))

/-- A response of a pool in order is not longer than all that it may hold. -/
theorem length_encodeResponse_le :
    (Wire.encodeResponse (allocate p.source prior now)).length ≤
      83 + (p.cohort.length + p.entries.size) * (addressSizeLimit + 1) := by
  have hsize : ∀ a ∈ (allocate p.source prior now).addresses, a.utf8ByteSize ≤ addressSizeLimit := by
    intro a ha
    obtain ⟨e, he, rfl⟩ := mem_addresses_allocate.mp ha
    exact (Address.check_eq_ok.mp (h.checked e (mem_entries_of_mem_considered h he))).2.2.1
  have hlength := Wire.length_encodeResponse_le (allocate p.source prior now).replayDate hsize
  rw [← allocate_eq_make_self] at hlength
  exact hlength.trans (Nat.add_le_add_left
    (Nat.mul_le_mul_right _ (length_addresses_le p prior now)) 83)

end Pools

end AddressExchange.Allocation
