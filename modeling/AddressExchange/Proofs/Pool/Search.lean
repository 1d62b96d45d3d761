import AddressExchange.Pool.Search
import Mathlib.Data.List.Basic

/-!
# The boundary parts an ordered array

For a property that, where it holds, holds of all elements before as well, the search gives the
count of the elements that have it, and these stand in front.
-/

namespace AddressExchange.Search

variable {α : Type} {xs : Array α} {holds : α → Bool}

/-- Does the property, where it holds, hold of all elements before as well? -/
def IsInitial (holds : α → Bool) (xs : Array α) : Prop :=
  xs.toList.Pairwise fun a b => holds b = true → holds a = true

/-- The property holds of all elements before `low` and of none from `high` on. -/
structure Window (xs : Array α) (holds : α → Bool) (low high : Nat) : Prop where
  before : ∀ i (_ : i < xs.size), i < low → holds xs[i] = true
  behind : ∀ i (_ : i < xs.size), high ≤ i → holds xs[i] = false

theorem IsInitial.mono (hxs : IsInitial holds xs) {i j : Nat} (hij : i ≤ j) (hj : j < xs.size)
    (h : holds xs[j] = true) : holds xs[i] = true := by
  cases Nat.lt_or_eq_of_le hij with
  | inl hlt =>
    have := List.pairwise_iff_getElem.mp hxs i j (by simpa using by omega) (by simpa using hj) hlt
    simpa using this (by simpa using h)
  | inr heq => exact heq ▸ h

/-- An element in the middle moves one end of the window. -/
theorem Window.halve {low high middle : Nat} (w : Window xs holds low high) (hxs : IsInitial holds xs)
    (hm : middle < xs.size) :
    if holds xs[middle] then Window xs holds (middle + 1) high else Window xs holds low middle := by
  split
  · next h => exact ⟨fun i _ hlt => hxs.mono (Nat.le_of_lt_succ hlt) hm h, w.behind⟩
  · next h =>
    refine ⟨w.before, fun i hi hle => Bool.eq_false_iff.mpr fun ht => ?_⟩
    exact h (hxs.mono hle hi ht)

/-- The search closes its window. -/
theorem Window.narrow (hxs : IsInitial holds xs) {low high : Nat} (w : Window xs holds low high)
    (hle : low ≤ high) (h : high ≤ xs.size) :
    let n := narrow xs holds low high h
    n ≤ high ∧ Window xs holds n n := by
  -- The cases are those of the search: go on above the middle, go on below it, or stop.
  fun_induction Search.narrow xs holds low high h with
  | case1 low high h hlt middle hm ht ih =>
    have hw := w.halve hxs hm
    rw [if_pos ht] at hw
    exact ih hw (by omega)
  | case2 low high h hlt middle hm hf ih =>
    have hw := w.halve hxs hm
    rw [if_neg hf] at hw
    obtain ⟨hn, hw⟩ := ih hw (by omega)
    exact ⟨by omega, hw⟩
  | case3 low high h hge =>
    have heq : low = high := by omega
    exact ⟨hle, heq ▸ w⟩

/-- The elements in front of the boundary have the property, those behind it have not. -/
theorem window_boundary (hxs : IsInitial holds xs) :
    boundary xs holds ≤ xs.size ∧ Window xs holds (boundary xs holds) (boundary xs holds) :=
  Window.narrow hxs ⟨fun _ _ h => absurd h (Nat.not_lt_zero _), fun _ h hge => absurd h (by omega)⟩
    (Nat.zero_le _) (Nat.le_refl _)

private theorem holds_of_mem_take (hxs : IsInitial holds xs) {a : α}
    (ha : a ∈ xs.toList.take (boundary xs holds)) : holds a = true := by
  obtain ⟨hle, w⟩ := window_boundary hxs
  obtain ⟨i, hi, rfl⟩ := List.mem_iff_getElem.mp ha
  rw [List.length_take, Array.length_toList] at hi
  rw [List.getElem_take, Array.getElem_toList]
  exact w.before i (by omega) (by omega)

private theorem fails_of_mem_drop (hxs : IsInitial holds xs) {a : α}
    (ha : a ∈ xs.toList.drop (boundary xs holds)) : holds a = false := by
  obtain ⟨hle, w⟩ := window_boundary hxs
  obtain ⟨i, hi, rfl⟩ := List.mem_iff_getElem.mp ha
  rw [List.length_drop, Array.length_toList] at hi
  rw [List.getElem_drop, Array.getElem_toList]
  exact w.behind _ (by omega) (by omega)

theorem take_boundary (hxs : IsInitial holds xs) :
    xs.toList.take (boundary xs holds) = xs.toList.filter holds := by
  -- All in front are kept, and none behind.
  conv_rhs => rw [← List.take_append_drop (boundary xs holds) xs.toList]
  rw [List.filter_append, List.filter_eq_self.mpr fun _ => holds_of_mem_take hxs,
    List.filter_eq_nil_iff.mpr fun _ ha => by simp [fails_of_mem_drop hxs ha], List.append_nil]

theorem drop_boundary (hxs : IsInitial holds xs) :
    xs.toList.drop (boundary xs holds) = xs.toList.filter fun a => !holds a := by
  conv_rhs => rw [← List.take_append_drop (boundary xs holds) xs.toList]
  rw [List.filter_append, List.filter_eq_nil_iff.mpr fun _ ha => by simp [holds_of_mem_take hxs ha],
    List.filter_eq_self.mpr fun _ ha => by simp [fails_of_mem_drop hxs ha], List.nil_append]

end AddressExchange.Search
