/-!
# Searching ordered arrays

The place where a property ends that holds of a first part of an array and of nothing behind it.
-/

namespace AddressExchange.Search

/-- Halves the window between `low` and `high`. The property holds of all before `low` and of
nothing from `high` on. -/
def narrow {α : Type} (xs : Array α) (holds : α → Bool) (low high : Nat) (h : high ≤ xs.size) :
    Nat :=
  if lt : low < high then
    let middle := low + (high - low) / 2
    have : middle < xs.size := by omega
    if holds xs[middle] then narrow xs holds (middle + 1) high h
    else narrow xs holds low middle (by omega)
  else low
termination_by high - low

/-- The count of elements in front of the first one that lacks the property. -/
def boundary {α : Type} (xs : Array α) (holds : α → Bool) : Nat :=
  narrow xs holds 0 xs.size (Nat.le_refl _)

end AddressExchange.Search
