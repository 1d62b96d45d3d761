import AddressExchange.Pool
import AddressExchange.Proofs.Pool.Entry
import AddressExchange.Proofs.Pool.Search
import Mathlib.Data.List.DropRight

/-!
# Pools in terms of their entries

The searches of a pool are read as filters over its entries, and what every operation does is said
by these. From that it follows what all operations keep: entries are in the order of their instants,
each address is there once, and the cohort is in order as well and taken from the entries.
-/

namespace AddressExchange

namespace Pool

variable {p q : Pool}

private theorem insertIdx_append_length {α : Type} (xs ys : List α) (a : α) :
    (xs ++ ys).insertIdx xs.length a = xs ++ a :: ys := by
  induction xs with
  | nil => rfl
  | cons x xs ih => rw [List.cons_append, List.length_cons, List.insertIdx_succ_cons, ih]; rfl

/-- The entries that are active at an instant, in their order. -/
def active (p : Pool) (until_ : Instant) : List Entry :=
  p.entries.toList.filter fun e => decide (e.activatedAt ≤ until_)

@[simp] theorem mem_active {e : Entry} {until_ : Instant} :
    e ∈ p.active until_ ↔ e ∈ p.entries.toList ∧ e.activatedAt ≤ until_ := by
  simp [active]

/-! ## Searches -/

section Searches

variable (h : Entry.Ordered p.entries.toList)

include h

theorem isInitial_active (until_ : Instant) :
    Search.IsInitial (fun e : Entry => decide (e.activatedAt ≤ until_)) p.entries := by
  refine h.imp fun {a b} hab hb => ?_
  simp only [decide_eq_true_eq] at *
  exact Std.le_trans hab hb

theorem take_activeCount (until_ : Instant) :
    p.entries.toList.take (p.activeCount until_) = p.active until_ :=
  Search.take_boundary (isInitial_active h until_)

theorem drop_activeCount (until_ : Instant) :
    p.entries.toList.drop (p.activeCount until_) =
      p.entries.toList.filter fun e => !decide (e.activatedAt ≤ until_) :=
  Search.drop_boundary (isInitial_active h until_)

theorem active_append (until_ : Instant) :
    p.active until_ ++ p.entries.toList.filter (fun e => !decide (e.activatedAt ≤ until_)) =
      p.entries.toList := by
  rw [← take_activeCount h, ← drop_activeCount h, List.take_append_drop]

theorem activeCount_le (until_ : Instant) : p.activeCount until_ ≤ p.entries.size :=
  (Search.window_boundary (isInitial_active h until_)).1

theorem activeCount_eq (until_ : Instant) : p.activeCount until_ = (p.active until_).length := by
  rw [← take_activeCount h, List.length_take, Array.length_toList]
  exact (Nat.min_eq_left (activeCount_le h until_)).symm

/-- What was activated since an instant comes after it, and is active. -/
theorem activatedSince_eq (since until_ : Instant) :
    p.activatedSince since until_ =
      (p.active until_).filter fun e => !decide (e.activatedAt ≤ since) := by
  rw [activatedSince]
  split
  · next hle =>
    -- All that is active then was active before.
    symm
    rw [List.filter_eq_nil_iff]
    intro e he
    have hs : e.activatedAt ≤ since := Std.le_trans (mem_active.mp he).2 hle
    simp [hs]
  · next hlt =>
    have hsince : since ≤ until_ := Std.le_of_not_ge hlt
    -- What was active before stays active and stands in front, so dropping it leaves the rest.
    have hfront : (p.active since).filter (fun e => decide (e.activatedAt ≤ until_)) =
        p.active since := by
      rw [List.filter_eq_self]
      intro e he
      exact decide_eq_true (Std.le_trans (mem_active.mp he).2 hsince)
    have hactive : p.active until_ = p.active since ++
        (p.entries.toList.filter fun e => !decide (e.activatedAt ≤ since)).filter
          fun e => decide (e.activatedAt ≤ until_) := by
      conv_lhs => rw [active, ← active_append h since, List.filter_append, hfront]
    rw [Array.toList_extract, List.extract_eq_drop_take', take_activeCount h, activeCount_eq h since,
      hactive, List.drop_left, List.filter_append, List.filter_filter, List.filter_filter]
    have hnone : (p.active since).filter (fun e => !decide (e.activatedAt ≤ since)) = [] := by
      rw [List.filter_eq_nil_iff]
      intro e he
      simp [(mem_active.mp he).2]
    rw [hnone, List.nil_append]
    exact List.filter_congr fun e _ => by simp [Bool.and_comm]

theorem mem_activatedSince {e : Entry} {since until_ : Instant} :
    e ∈ p.activatedSince since until_ ↔
      e ∈ p.entries.toList ∧ since < e.activatedAt ∧ e.activatedAt ≤ until_ := by
  simp only [activatedSince_eq h, List.mem_filter, mem_active, Bool.not_eq_true',
    decide_eq_false_iff_not, Std.not_le]
  tauto

/-- The newest activation is that of the last active entry. -/
theorem latestActivation_eq (until_ : Instant) :
    p.latestActivation until_ = (p.active until_).getLast?.map (·.activatedAt) := by
  rw [latestActivation, ← take_activeCount h]
  cases hn : p.activeCount until_ with
  | zero => rfl
  | succ n =>
    have hlt : n < p.entries.size := by
      have := activeCount_le h until_
      omega
    simp only [List.getLast?_take, Nat.add_one_ne_zero, if_false, Nat.add_sub_cancel]
    simp [hlt]

end Searches

/-! ## Operations -/

theorem find?_eq_none {address : String} :
    p.find? address = none ↔ address ∉ p.entries.toList.map (·.address) := by
  simp only [find?, ← Array.find?_toList, List.find?_eq_none, decide_eq_true_eq, List.mem_map]
  constructor
  · rintro h ⟨e, he, rfl⟩
    exact h e he rfl
  · exact fun h e he heq => h ⟨e, he, heq⟩

/-- An address is added if the text holds one that is not there yet. It is placed among the entries;
all else stays. -/
theorem activate_eq_ok (h : Entry.Ordered p.entries.toList) {text : String} {at_ : Instant} :
    p.activate text at_ = .ok q ↔
      ∃ address, Address.check text = .ok address ∧
        address ∉ p.entries.toList.map (·.address) ∧
        q = { p with entries := (Entry.place ⟨address, at_⟩ p.entries.toList).toArray } := by
  -- The place that the search finds parts the active entries from the others.
  have hplace (address : String) :
      p.entries.insertIdxIfInBounds (p.activeCount at_) ⟨address, at_⟩ =
        (Entry.place ⟨address, at_⟩ p.entries.toList).toArray := by
    have harray : p.entries = p.entries.toList.toArray := Array.toArray_toList.symm
    conv_lhs => rw [harray]
    rw [List.insertIdxIfInBounds_toArray, activeCount_eq h]
    conv_lhs => rw [← active_append h at_]
    rw [insertIdx_append_length]
    rfl
  rw [activate]
  cases hc : Address.check text with
  | error e => simp
  | ok address =>
    simp only [Except.ok.injEq, exists_eq_left', ← find?_eq_none, hplace]
    cases p.find? address with
    | some e => simp
    | none => simp [eq_comm]

/-- Nothing is refused but an address. -/
theorem invalidAddress_of_activate {text : String} {at_ : Instant} {e : Failure}
    (h : p.activate text at_ = .error e) : ∃ reason, e = .invalidAddress reason := by
  unfold activate at h
  split at h
  · cases h
    exact ⟨_, rfl⟩
  · split at h
    · cases h
      exact ⟨_, rfl⟩
    · cases h

/-- An address that is there already is refused. -/
theorem activate_of_mem {text address : String} (hcheck : Address.check text = .ok address)
    (hmem : address ∈ p.entries.toList.map (·.address)) (at_ : Instant) :
    p.activate text at_ = .error (.invalidAddress (.known address)) := by
  have hfind : (p.find? address).isSome = true := by
    rw [Option.isSome_iff_ne_none]
    exact fun hnone => find?_eq_none.mp hnone hmem
  rw [activate, hcheck]
  dsimp only
  rw [if_pos hfind]

/-- A new address that no entry comes after is put at the end. -/
theorem activate_last (h : Entry.Ordered p.entries.toList) {text address : String} {at_ : Instant}
    (hcheck : Address.check text = .ok address)
    (hfresh : address ∉ p.entries.toList.map (·.address))
    (hlast : ∀ e ∈ p.entries.toList, e.activatedAt ≤ at_) :
    p.activate text at_ = .ok { p with entries := p.entries.push ⟨address, at_⟩ } := by
  refine (activate_eq_ok h).mpr ⟨address, hcheck, hfresh, ?_⟩
  rw [Entry.place_eq_append hlast, ← Array.toList_push, Array.toArray_toList]

/-- The first address is the only entry. -/
theorem activate_first (config : PoolConfig) {text address : String} {at_ : Instant}
    (hcheck : Address.check text = .ok address) :
    ({ config } : Pool).activate text at_ = .ok { config, entries := #[⟨address, at_⟩] } := by
  have hordered : Entry.Ordered ({ config } : Pool).entries.toList := .nil
  exact activate_last hordered hcheck List.not_mem_nil fun e he => absurd he List.not_mem_nil

/-- An activation changes nothing but the entries. -/
theorem eq_of_activate {text : String} {at_ : Instant} (hq : p.activate text at_ = .ok q) :
    q = { p with entries := q.entries } := by
  unfold activate at hq
  split at hq
  · cases hq
  · split at hq
    · cases hq
    · cases hq
      rfl

/-- An activation leaves the cohort alone, and when it was rotated. -/
theorem cohort_activate {text : String} {at_ : Instant} (hq : p.activate text at_ = .ok q) :
    q.cohort = p.cohort ∧ q.lastRotation = p.lastRotation := by
  rw [eq_of_activate hq]
  exact ⟨rfl, rfl⟩

theorem config_activate {text : String} {at_ : Instant} (hq : p.activate text at_ = .ok q) :
    q.config = p.config := by
  rw [eq_of_activate hq]

/-- An activation adds the address without the blanks around it. -/
theorem mem_activate (h : Entry.Ordered p.entries.toList) {text : String} {at_ : Instant}
    (hq : p.activate text at_ = .ok q) : ⟨Text.trim text, at_⟩ ∈ q.entries.toList := by
  obtain ⟨address, hcheck, -, rfl⟩ := (activate_eq_ok h).mp hq
  obtain ⟨rfl, -⟩ := Address.check_eq_ok.mp hcheck
  exact Entry.mem_place.mpr (.inl rfl)

/-- A rotation takes the last of the active entries, as many as the cohort may have. -/
theorem rotate_cohort (h : Entry.Ordered p.entries.toList) (now : Instant) :
    (p.rotate now).cohort = (p.active now).rtake p.config.cohortSize := by
  rw [rotate, List.rtake]
  simp only [Array.toList_extract, List.extract_eq_drop_take', take_activeCount h]
  rw [activeCount_eq h]

/-- The cohort is a part of the entries, in their order. -/
theorem sublist_cohort_rotate (h : Entry.Ordered p.entries.toList) (now : Instant) :
    (p.rotate now).cohort.Sublist p.entries.toList := by
  rw [rotate_cohort h]
  exact (List.drop_sublist _ _).trans List.filter_sublist

theorem rotateIfDue_fst (p : Pool) (now : Instant) :
    (p.rotateIfDue now).1 = if p.isDue now then p.rotate now else p := by
  rw [rotateIfDue]
  split <;> rfl

theorem rotateIfDue_snd (p : Pool) (now : Instant) : (p.rotateIfDue now).2 = p.isDue now := by
  rw [rotateIfDue]
  cases p.isDue now <;> rfl

/-- What each activation keeps is kept by an import. -/
theorem importAll_induction {P : Pool → Prop} {es : List Entry}
    (step : ∀ e ∈ es, ∀ p q : Pool, P p → p.activate e.address e.activatedAt = .ok q → P q)
    (h : P p) : P (p.importAll es).1 := by
  -- The count of entries done so far plays no part.
  have hgo (done : Nat) : P (importAll.go p done es).1 := by
    induction es generalizing p done with
    | nil => exact h
    | cons e es ih =>
      rw [importAll.go]
      split
      · next q hq =>
        exact ih (fun e' he' => step e' (List.mem_cons_of_mem e he'))
          (step e List.mem_cons_self p q h hq) _
      · exact h
  exact hgo 0

/-! ## What all operations keep -/

/-- The order in which a pool holds its entries and its cohort. -/
structure WellFormed (p : Pool) : Prop where
  ordered : Entry.Ordered p.entries.toList
  distinct : (p.entries.toList.map (·.address)).Nodup
  checked : ∀ e ∈ p.entries.toList, Address.check e.address = .ok e.address
  cohort : Entry.Ordered p.cohort
  mem_of_mem_cohort : ∀ {e}, e ∈ p.cohort → e ∈ p.entries.toList

theorem wellFormed_empty (config : PoolConfig) : WellFormed { config } where
  ordered := .nil
  distinct := .nil
  checked _ he := absurd he List.not_mem_nil
  cohort := .nil
  mem_of_mem_cohort he := absurd he List.not_mem_nil

namespace WellFormed

theorem activate (h : p.WellFormed) {text : String} {at_ : Instant}
    (hq : p.activate text at_ = .ok q) : q.WellFormed := by
  obtain ⟨address, hcheck, hfresh, rfl⟩ := (activate_eq_ok h.ordered).mp hq
  have hperm := Entry.place_perm ⟨address, at_⟩ p.entries.toList
  refine ⟨h.ordered.place _, ?_, ?_, h.cohort,
    fun he => Entry.mem_place.mpr (.inr (h.mem_of_mem_cohort he))⟩
  · exact (hperm.map (·.address)).nodup_iff.mpr (List.nodup_cons.mpr ⟨hfresh, h.distinct⟩)
  · intro e he
    cases Entry.mem_place.mp he with
    | inl heq => exact heq ▸ Address.check_check hcheck
    | inr he => exact h.checked e he

theorem importAll (h : p.WellFormed) (es : List Entry) : (p.importAll es).1.WellFormed :=
  importAll_induction (fun _ _ _ _ h hq => h.activate hq) h

theorem rotate (h : p.WellFormed) (now : Instant) : (p.rotate now).WellFormed := by
  have hcohort := sublist_cohort_rotate h.ordered now
  exact ⟨h.ordered, h.distinct, h.checked, h.ordered.sublist hcohort, hcohort.mem⟩

theorem rotateIfDue (h : p.WellFormed) (now : Instant) : (p.rotateIfDue now).1.WellFormed := by
  rw [rotateIfDue_fst]
  split
  · exact h.rotate now
  · exact h

/-- Two entries of one address are the same. -/
theorem eq_of_address_eq (h : p.WellFormed) {e e' : Entry} (he : e ∈ p.entries.toList)
    (he' : e' ∈ p.entries.toList) (haddress : e.address = e'.address) : e = e' :=
  List.inj_on_of_nodup_map h.distinct he he' haddress

/-- The entry of an address is the only one that has it. -/
theorem find?_eq_some (h : p.WellFormed) {e : Entry} (he : e ∈ p.entries.toList) :
    p.find? e.address = some e := by
  cases hf : p.find? e.address with
  | none => exact absurd (List.mem_map_of_mem he) (find?_eq_none.mp hf)
  | some e' =>
    have ha : e'.address = e.address := by simpa using Array.find?_some hf
    have hm : e' ∈ p.entries.toList := by simpa using Array.mem_of_find?_eq_some hf
    exact congrArg some (h.eq_of_address_eq hm he ha)

end WellFormed

end Pool

end AddressExchange
