import AddressExchange.Pool.Allocation
import AddressExchange.Proofs.Pool.Sorting

/-!
# Merging keeps first occurrences

Nothing is asked of the two lists that are merged. They may be out of order, and name an address more
than once with different instants. The first entry of each address is kept. The entries that are kept
stand in the order of their instants, and those of one instant in the order in which their addresses
first occur.
-/

namespace AddressExchange.Allocation

/-! ## First occurrences -/

/-- Is an entry the first of its address in a list? -/
def IsFirst (es : List Entry) (e : Entry) : Prop := es.find? (·.address = e.address) = some e

/-- The place where an address first occurs. -/
def firstPlace (es : List Entry) (address : String) : Nat := es.findIdx (·.address = address)

/-- Does an entry stand before another one if the list is put in order? -/
def Before (es : List Entry) (a b : Entry) : Prop :=
  a.activatedAt < b.activatedAt ∨
    a.activatedAt = b.activatedAt ∧ firstPlace es a.address < firstPlace es b.address

variable {es : List Entry} {a b e x : Entry} {seen : List String}

theorem isFirst_cons :
    IsFirst (x :: es) e ↔ e = x ∨ x.address ≠ e.address ∧ IsFirst es e := by
  rw [IsFirst, List.find?_cons]
  by_cases hx : x.address = e.address
  · simp [hx, eq_comm]
  · have hne : e ≠ x := fun heq => hx (congrArg Entry.address heq.symm)
    simp [hx, hne, IsFirst]

/-- Each address in a list has a first entry. -/
theorem exists_isFirst {address : String} (h : address ∈ es.map (·.address)) :
    ∃ e, IsFirst es e ∧ e.address = address := by
  obtain ⟨x, hx, rfl⟩ := List.mem_map.mp h
  cases hf : es.find? (·.address = x.address) with
  | none => exact absurd (decide_eq_true rfl) (List.find?_eq_none.mp hf x hx)
  | some e =>
    have haddress : e.address = x.address := by simpa using List.find?_some hf
    exact ⟨e, by rw [IsFirst, haddress, hf], haddress⟩

theorem IsFirst.mem (h : IsFirst es e) : e ∈ es := List.mem_of_find?_eq_some h

/-- Two first entries of one address are the same. -/
theorem IsFirst.eq_of_address_eq (ha : IsFirst es a) (hb : IsFirst es b)
    (h : a.address = b.address) : a = b := by
  unfold IsFirst at ha hb
  rw [h] at ha
  exact Option.some.inj (ha.symm.trans hb)

theorem firstPlace_cons_of_ne {address : String} (h : x.address ≠ address) :
    firstPlace (x :: es) address = firstPlace es address + 1 := by
  rw [firstPlace, List.findIdx_cons, decide_eq_false h]
  rfl

theorem firstPlace_cons_self : firstPlace (x :: es) x.address = 0 := by
  rw [firstPlace, List.findIdx_cons, decide_eq_true rfl]
  rfl

/-! ## Entries that are kept -/

/-- The entries that are kept are the first ones of addresses that were not seen before. -/
theorem mem_distinct : e ∈ distinct seen es ↔ e.address ∉ seen ∧ IsFirst es e := by
  fun_induction distinct seen es with
  | case1 => simp [IsFirst]
  | case2 seen x xs hx ih =>
    rw [ih, isFirst_cons]
    constructor
    · rintro ⟨hseen, hfirst⟩
      exact ⟨hseen, .inr ⟨fun heq => hseen (heq ▸ hx), hfirst⟩⟩
    · rintro ⟨hseen, rfl | ⟨-, hfirst⟩⟩
      · exact absurd hx hseen
      · exact ⟨hseen, hfirst⟩
  | case3 seen x xs hx ih =>
    rw [List.mem_cons, ih, isFirst_cons, List.mem_cons, not_or]
    constructor
    · rintro (rfl | ⟨⟨hne, hseen⟩, hfirst⟩)
      · exact ⟨hx, .inl rfl⟩
      · exact ⟨hseen, .inr ⟨Ne.symm hne, hfirst⟩⟩
    · rintro ⟨hseen, rfl | ⟨hne, hfirst⟩⟩
      · exact .inl rfl
      · exact .inr ⟨⟨Ne.symm hne, hseen⟩, hfirst⟩

/-- It does not matter how often or in what order addresses were seen. -/
theorem distinct_congr {seen' : List String} (h : ∀ a, a ∈ seen ↔ a ∈ seen') (es : List Entry) :
    distinct seen es = distinct seen' es := by
  induction es generalizing seen seen' with
  | nil => rfl
  | cons x xs ih =>
    have hcons : ∀ a, a ∈ x.address :: seen ↔ a ∈ x.address :: seen' := fun a => by
      rw [List.mem_cons, List.mem_cons, h]
    rw [distinct, distinct, ih h, ih hcons]
    simp only [h]

/-- They stay in the order in which their addresses first occur. -/
theorem pairwise_distinct (seen : List String) (es : List Entry) :
    (distinct seen es).Pairwise fun a b => firstPlace es a.address < firstPlace es b.address := by
  -- In front of another entry, the places of all addresses but its own move up by one.
  have hcons {x : Entry} {seen : List String} {xs : List Entry} (hx : x.address ∈ seen)
      (ih : (distinct seen xs).Pairwise fun a b =>
        firstPlace xs a.address < firstPlace xs b.address) :
      (distinct seen xs).Pairwise fun a b =>
        firstPlace (x :: xs) a.address < firstPlace (x :: xs) b.address := by
    refine ih.imp_of_mem fun {a b} ha hb hlt => ?_
    have hne {e : Entry} (he : e ∈ distinct seen xs) : x.address ≠ e.address :=
      fun heq => (mem_distinct.mp he).1 (heq ▸ hx)
    rw [firstPlace_cons_of_ne (hne ha), firstPlace_cons_of_ne (hne hb)]
    exact Nat.succ_lt_succ hlt
  fun_induction distinct seen es with
  | case1 => exact .nil
  | case2 seen x xs hx ih => exact hcons hx ih
  | case3 seen x xs hx ih =>
    refine List.pairwise_cons.mpr ⟨fun e he => ?_, hcons List.mem_cons_self ih⟩
    have hne : x.address ≠ e.address :=
      fun heq => (mem_distinct.mp he).1 (heq ▸ List.mem_cons_self)
    rw [firstPlace_cons_self, firstPlace_cons_of_ne hne]
    exact Nat.succ_pos _

/-! ## Merging -/

variable {cohort fresh : List Entry}

theorem mem_merge : e ∈ merge cohort fresh ↔ IsFirst (cohort ++ fresh) e := by
  rw [merge, Entry.mem_sort, mem_distinct]
  exact and_iff_right List.not_mem_nil

/-- Sorting leaves those of one instant in the order of their first occurrence. -/
theorem pairwise_merge (cohort fresh : List Entry) :
    (merge cohort fresh).Pairwise (Before (cohort ++ fresh)) := by
  refine List.pairwise_iff_forall_sublist.mpr fun {a b} hab => ?_
  have hle : a.activatedAt ≤ b.activatedAt :=
    List.pairwise_iff_forall_sublist.mp (Entry.ordered_sort _) hab
  by_cases heq : a.activatedAt = b.activatedAt
  · -- Both are entries of one instant, and these are as they were before sorting.
    have hsame : [a, b].Sublist (Entry.ofInstant b.activatedAt (merge cohort fresh)) := by
      have := hab.filter fun e => e.activatedAt = b.activatedAt
      simpa [Entry.ofInstant, heq] using this
    rw [merge, Entry.ofInstant_sort] at hsame
    have hkept : [a, b].Sublist (distinct [] (cohort ++ fresh)) :=
      hsame.trans List.filter_sublist
    exact .inr ⟨heq, List.pairwise_iff_forall_sublist.mp (pairwise_distinct _ _) hkept⟩
  · refine .inl (Std.lt_of_le_of_ne hle heq)

/-- Each address is there once. -/
theorem nodup_merge (cohort fresh : List Entry) :
    ((merge cohort fresh).map (·.address)).Nodup := by
  refine List.pairwise_map.mpr ((pairwise_merge cohort fresh).imp_of_mem fun {a b} ha hb hab => ?_)
  intro heq
  obtain rfl := (mem_merge.mp ha).eq_of_address_eq (mem_merge.mp hb) heq
  rcases hab with hlt | ⟨-, hlt⟩
  · exact Std.lt_irrefl hlt
  · exact Nat.lt_irrefl _ hlt

theorem mem_addresses_merge {address : String} :
    address ∈ (merge cohort fresh).map (·.address) ↔
      address ∈ (cohort ++ fresh).map (·.address) := by
  constructor
  · intro h
    obtain ⟨e, he, rfl⟩ := List.mem_map.mp h
    exact List.mem_map_of_mem (mem_merge.mp he).mem
  · intro h
    obtain ⟨e, he, rfl⟩ := exists_isFirst h
    exact List.mem_map_of_mem (mem_merge.mpr he)

end AddressExchange.Allocation
