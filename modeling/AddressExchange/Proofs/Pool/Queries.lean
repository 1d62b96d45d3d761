import AddressExchange.Proofs.Pool.History

/-!
# Queries as filters

The queries of a pool search its entries by halving, which finds what a look at every single entry finds
because the entries are in the order of their instants. What was activated in a window is what a filter
keeps, windows that follow each other cover what their union covers, and the newest activation is the
greatest instant.
-/

namespace AddressExchange

namespace Entry

/-- The last of ordered entries has the greatest instant. -/
theorem Ordered.max?_instants {es : List Entry} (h : Ordered es) :
    (es.map (·.activatedAt)).max? = es.getLast?.map (·.activatedAt) := by
  cases hlast : es.getLast? with
  | none =>
    obtain rfl := List.getLast?_eq_none_iff.mp hlast
    rfl
  | some e =>
    have hmem : e ∈ es := List.mem_of_getLast? hlast
    refine List.max?_eq_some_iff.mpr ⟨List.mem_map_of_mem hmem, fun t ht => ?_⟩
    obtain ⟨x, hx, rfl⟩ := List.mem_map.mp ht
    exact h.le_last hx hlast

end Entry

namespace Pool

variable {p : Pool}

section Ordered

variable (h : Entry.Ordered p.entries.toList)

include h

/-- What was activated in a window is what lies in it. -/
theorem activatedSince_eq_filter (since until_ : Instant) :
    p.activatedSince since until_ =
      p.entries.toList.filter fun e => since < e.activatedAt ∧ e.activatedAt ≤ until_ := by
  rw [activatedSince_eq h, active, List.filter_filter]
  refine List.filter_congr fun e _ => ?_
  rw [Bool.decide_and, ← decide_not]
  congr 1
  exact decide_eq_decide.mpr Std.not_le

/-- The window of a search does not run backwards. -/
theorem activeCount_mono {a b : Instant} (hab : a ≤ b) : p.activeCount a ≤ p.activeCount b := by
  rw [activeCount_eq h, activeCount_eq h]
  have hsub : (p.active a).Sublist (p.active b) :=
    List.monotone_filter_right _ fun e he => decide_eq_true (Std.le_trans (of_decide_eq_true he) hab)
  exact hsub.length_le

/-- A window is what lies in its first part, and behind that what lies in the other part. -/
theorem activatedSince_append {a b c : Instant} (hab : a ≤ b) (hbc : b ≤ c) :
    p.activatedSince a b ++ p.activatedSince b c = p.activatedSince a c := by
  have hearly : (p.active b).filter (fun e => a < e.activatedAt ∧ e.activatedAt ≤ c) =
      p.activatedSince a b := by
    rw [activatedSince_eq_filter h, active, List.filter_filter]
    refine List.filter_congr fun e _ => ?_
    rw [← Bool.decide_and]
    refine decide_eq_decide.mpr ⟨fun hin => ⟨hin.1.1, hin.2⟩, fun hin => ?_⟩
    exact ⟨⟨hin.1, Std.le_trans hin.2 hbc⟩, hin.2⟩
  have hlate : (p.entries.toList.filter fun e => !decide (e.activatedAt ≤ b)).filter
      (fun e => a < e.activatedAt ∧ e.activatedAt ≤ c) = p.activatedSince b c := by
    rw [activatedSince_eq_filter h, List.filter_filter]
    refine List.filter_congr fun e _ => ?_
    rw [← decide_not, ← Bool.decide_and]
    refine decide_eq_decide.mpr ⟨fun hin => ⟨Std.not_le.mp hin.2, hin.1.2⟩, fun hin => ?_⟩
    exact ⟨⟨Std.lt_of_le_of_lt hab hin.1, hin.2⟩, Std.not_le.mpr hin.1⟩
  -- The entries up to the middle stand in front of the others.
  conv_rhs => rw [activatedSince_eq_filter h, ← active_append h b]
  rw [List.filter_append, hearly, hlate]

/-- The newest activation has the greatest instant that is not after the one asked for. -/
theorem latestActivation_eq_max? (until_ : Instant) :
    p.latestActivation until_ =
      ((p.entries.toList.map (·.activatedAt)).filter fun t => t ≤ until_).max? := by
  have hordered : Entry.Ordered (p.active until_) := h.sublist List.filter_sublist
  rw [latestActivation_eq h, ← hordered.max?_instants, active, List.filter_map]
  rfl

end Ordered

/-- Whatever was done to a pool: a query for a window gives the entries in it, in their order, and none
if the window is empty or runs backwards; the places that it cuts at lie among the entries; the newest
activation is the greatest instant up to the one asked for, if there is one; and windows that follow
each other cover what their union covers. -/
theorem queries_as_filters (hp : p.Reachable) :
    (∀ since until_, p.activatedSince since until_ =
      p.entries.toList.filter fun e => since < e.activatedAt ∧ e.activatedAt ≤ until_) ∧
    (∀ since until_, until_ ≤ since → p.activatedSince since until_ = []) ∧
    (∀ since until_, since ≤ until_ → p.activeCount since ≤ p.activeCount until_ ∧
      p.activeCount until_ ≤ p.entries.size) ∧
    (∀ until_, p.latestActivation until_ =
      ((p.entries.toList.map (·.activatedAt)).filter fun t => t ≤ until_).max?) ∧
    ∀ a b c, a ≤ b → b ≤ c →
      p.activatedSince a b ++ p.activatedSince b c = p.activatedSince a c := by
  have h := hp.wellFormed.ordered
  refine ⟨activatedSince_eq_filter h, fun since until_ hle => ?_, fun since until_ hle => ?_,
    latestActivation_eq_max? h, fun a b c => activatedSince_append h⟩
  · rw [activatedSince, if_pos hle]
  · exact ⟨activeCount_mono h hle, activeCount_le h until_⟩

/-- Three entries of one instant stand at the edge of both windows. -/
theorem queries_as_filters_ties :
    let p := ({ config := {} } : Pool).operateAll [
      .change (.importAll [⟨"1A", .early 2 0⟩, ⟨"1B", .early 3 0⟩, ⟨"1C", .early 2 0⟩]),
      .change (.activate "1D" (.early 2 0)), .change (.activate "1E" (.early 1 0))]
    p.activatedSince (.early 1 0) (.early 2 0) =
        [⟨"1A", .early 2 0⟩, ⟨"1C", .early 2 0⟩, ⟨"1D", .early 2 0⟩] ∧
      p.activatedSince (.early 1 0) (.early 2 0) ++ p.activatedSince (.early 2 0) (.early 3 0) =
        p.activatedSince (.early 1 0) (.early 3 0) ∧
      p.latestActivation (.early 2 5) = some (.early 2 0) := by
  intro p
  have hp : p.Reachable := (Reachable.empty _).operateAll _
  obtain ⟨hsince, -, -, hlatest, htile⟩ := queries_as_filters hp
  refine ⟨?_, htile _ _ _ (by decide) (by decide), ?_⟩
  · rw [hsince]
    decide +kernel
  · rw [hlatest]
    decide +kernel

end Pool

end AddressExchange
