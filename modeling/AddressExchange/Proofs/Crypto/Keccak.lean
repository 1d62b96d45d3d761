import AddressExchange.Crypto.Hash

/-!
# The lengths of hashes

The state of the sponge always has 25 lanes, so a hash is as long as it was asked to be.
-/

namespace AddressExchange.Keccak

variable {s : State}

@[simp] theorem size_round (s : State) (constant : UInt64) : (round s constant).size = 25 := by
  simp [round, chi]

/-- What keeps the count of lanes at each step keeps it in the end. -/
theorem size_foldl {α : Type} {f : State → α → State} (hf : ∀ s a, s.size = 25 → (f s a).size = 25)
    (xs : List α) (h : s.size = 25) : (xs.foldl f s).size = 25 := by
  induction xs generalizing s with
  | nil => exact h
  | cons x xs ih => exact ih (hf s x h)

theorem size_permute (h : s.size = 25) : (permute s).size = 25 := by
  rw [permute]
  exact size_foldl (fun s constant _ => size_round s constant) _ h

theorem size_absorbBlock (h : s.size = 25) (block : Bytes) : (absorbBlock s block).size = 25 := by
  rw [absorbBlock]
  refine size_permute (size_foldl (fun s x hs => ?_) _ h)
  rw [Array.size_modify, hs]

theorem size_absorb (rate : Nat) (suffix : UInt8) (message : Bytes) :
    (absorb rate suffix message).size = 25 :=
  size_foldl (fun _ block hs => size_absorbBlock hs block) _ Array.size_replicate

theorem length_output {lanes : Nat} (hlanes : lanes ≤ 25) (h : s.size = 25) :
    (output (8 * lanes) s).length = 8 * lanes := by
  have htake : (s.toList.take lanes).length = lanes := by
    rw [List.length_take, Array.length_toList, h]
    exact Nat.min_eq_left hlanes
  have hbytes (x : UInt64) : (laneBytes x).length = 8 := rfl
  rw [output, Nat.mul_div_cancel_left _ (by decide), List.length_flatMap]
  simp only [hbytes, List.map_const', List.sum_replicate_nat, htake, Nat.mul_comm]

theorem length_squeeze {lanes : Nat} (hlanes : lanes ≤ 25) (blocks : Nat) (h : s.size = 25) :
    (squeeze (8 * lanes) blocks s).length = blocks * (8 * lanes) := by
  induction blocks generalizing s with
  | zero => rw [squeeze, List.length_nil, Nat.zero_mul]
  | succ blocks ih =>
    rw [squeeze, List.length_append, length_output hlanes h, ih (size_permute h),
      Nat.succ_mul blocks (8 * lanes), Nat.add_comm]

@[simp] theorem length_shake256 (message : Bytes) (length : Nat) :
    (shake256 message length).length = length := by
  have hlanes : 17 ≤ 25 := by decide
  have hsqueeze := length_squeeze hlanes (length / 136 + 1)
    (size_absorb 136 0x1f message)
  rw [shake256, sponge, List.length_take, hsqueeze]
  omega

end AddressExchange.Keccak

namespace AddressExchange.Hash

@[simp] theorem length_many (domain : Bytes) (inputs : List Bytes) (length : Nat) :
    (many domain inputs length).length = length :=
  Keccak.length_shake256 _ length

end AddressExchange.Hash
