import AddressExchange.Bytes
import Mathlib.Algebra.Group.Nat.Defs

/-!
# Numbers of a fixed width are read back

A number that fits its width is read back from its bytes, and bytes are those of the number that is
read from them. A byte string that was put in front of another one is split off again, at a place that
is given or that its length in front of it tells.
-/

namespace AddressExchange.Bytes

variable {n width : Nat} {a bs rest : Bytes}

/-! ## Numbers -/

theorem ofLittleEndian_cons (b : UInt8) (bs : Bytes) :
    ofLittleEndian (b :: bs) = b.toNat + 256 * ofLittleEndian bs := rfl

/-- What does not fit the width is lost. -/
theorem ofLittleEndian_littleEndian_mod (width n : Nat) :
    ofLittleEndian (littleEndian width n) = n % 256 ^ width := by
  induction width generalizing n with
  | zero => exact (Nat.mod_one n).symm
  | succ width ih =>
    have hfirst : (UInt8.ofNat n).toNat = n % 256 := UInt8.toNat_ofNat'
    rw [littleEndian, ofLittleEndian_cons, ih, hfirst, Nat.pow_succ', Nat.mod_mul]

theorem ofLittleEndian_littleEndian (h : n < 256 ^ width) :
    ofLittleEndian (littleEndian width n) = n := by
  rw [ofLittleEndian_littleEndian_mod, Nat.mod_eq_of_lt h]

theorem littleEndian_ofLittleEndian (bs : Bytes) :
    littleEndian bs.length (ofLittleEndian bs) = bs := by
  induction bs with
  | nil => rfl
  | cons b bs ih =>
    have hb := b.toNat_lt
    have hfirst : UInt8.ofNat (b.toNat + 256 * ofLittleEndian bs) = b := by
      apply UInt8.toNat_inj.mp
      rw [UInt8.toNat_ofNat']
      omega
    have hrest : (b.toNat + 256 * ofLittleEndian bs) / 256 = ofLittleEndian bs := by
      omega
    rw [List.length_cons, littleEndian, ofLittleEndian_cons, hfirst, hrest, ih]

theorem littleEndian_mod (width n : Nat) :
    littleEndian width (n % 256 ^ width) = littleEndian width n := by
  have hback := littleEndian_ofLittleEndian (littleEndian width n)
  rwa [length_littleEndian, ofLittleEndian_littleEndian_mod] at hback

theorem littleEndian_eq_iff {m : Nat} :
    littleEndian width m = littleEndian width n ↔ m % 256 ^ width = n % 256 ^ width := by
  constructor
  · intro h
    rw [← ofLittleEndian_littleEndian_mod, h, ofLittleEndian_littleEndian_mod]
  · intro h
    rw [← littleEndian_mod, h, littleEndian_mod]

/-- The most significant byte first is the least significant byte first, read backwards. -/
theorem ofBigEndian_eq (bs : Bytes) : ofBigEndian bs = ofLittleEndian bs.reverse := by
  rw [ofBigEndian, ofLittleEndian, List.foldr_reverse]
  simp only [Nat.add_comm, Nat.mul_comm]

theorem ofBigEndian_bigEndian (h : n < 256 ^ width) : ofBigEndian (bigEndian width n) = n := by
  rw [ofBigEndian_eq, bigEndian, List.reverse_reverse, ofLittleEndian_littleEndian h]

theorem bigEndian_ofBigEndian (h : bs.length = width) : bigEndian width (ofBigEndian bs) = bs := by
  have hback := littleEndian_ofLittleEndian bs.reverse
  rw [List.length_reverse, h, ← ofBigEndian_eq] at hback
  rw [bigEndian, hback, List.reverse_reverse]

theorem ofBigEndian_lt (bs : Bytes) : ofBigEndian bs < 256 ^ bs.length := by
  rw [ofBigEndian_eq, ← List.length_reverse]
  induction bs.reverse with
  | nil => exact Nat.one_pos
  | cons b bs ih =>
    have hb := b.toNat_lt
    rw [ofLittleEndian_cons, List.length_cons, Nat.pow_succ']
    omega

/-! ## Lengths in front -/

section Framed

variable {b r s : Bytes}

/-- Two byte strings, each with its length in front and another one behind it, are alike just if the
lengths are alike as far as the width goes, and all behind the lengths is. -/
theorem framed_append_eq_iff :
    littleEndian width a.length ++ a ++ r = littleEndian width b.length ++ b ++ s ↔
      a.length % 256 ^ width = b.length % 256 ^ width ∧ a ++ r = b ++ s := by
  rw [List.append_assoc, List.append_assoc, ← littleEndian_eq_iff]
  constructor
  · intro h
    exact List.append_inj h (by rw [length_littleEndian, length_littleEndian])
  · rintro ⟨hlength, hrest⟩
    rw [hlength, hrest]

/-- A byte string ends where the length in front of it says, whatever follows. -/
theorem framed_append_inj (ha : a.length < 256 ^ width) (hb : b.length < 256 ^ width) :
    littleEndian width a.length ++ a ++ r = littleEndian width b.length ++ b ++ s ↔
      a = b ∧ r = s := by
  rw [framed_append_eq_iff, Nat.mod_eq_of_lt ha, Nat.mod_eq_of_lt hb]
  constructor
  · rintro ⟨hlength, h⟩
    exact List.append_inj h hlength
  · rintro ⟨rfl, rfl⟩
    exact ⟨rfl, rfl⟩

end Framed

/-! ## Pieces -/

/-- Bytes are split where the first piece ends. -/
theorem splitAt?_eq_some : splitAt? n bs = some (a, rest) ↔ a.length = n ∧ bs = a ++ rest := by
  unfold splitAt?
  constructor
  · intro h
    split at h
    · next hn =>
      cases h
      exact ⟨List.length_take_of_le hn, (List.take_append_drop n bs).symm⟩
    · cases h
  · rintro ⟨rfl, rfl⟩
    rw [if_pos (by simp), List.take_left, List.drop_left]

/-- A byte string begins with its first piece. -/
theorem pieces_eq_cons (hn : 0 < n) (h : bs ≠ []) :
    pieces n bs = bs.take n :: pieces n (bs.drop n) := by
  obtain ⟨b, bs, rfl⟩ := List.exists_cons_of_ne_nil h
  rw [pieces, if_neg (Nat.ne_of_gt hn)]

/-- What is cut short was filled up behind the cut, or not at all. -/
theorem take_resize {m : Nat} (h : m ≤ n) (bs : Bytes) : (resize n bs).take m = resize m bs := by
  have hzeros : zeros n = zeros m ++ zeros (n - m) := by
    rw [zeros, zeros, zeros, List.replicate_append_replicate, Nat.add_sub_cancel' h]
  rw [resize, resize, List.take_take, Nat.min_eq_left h, hzeros, ← List.append_assoc,
    List.take_append_of_le_length (by simp [zeros])]

@[simp] theorem length_xor (a b : Bytes) : (xor a b).length = min a.length b.length :=
  List.length_zipWith

/-- Adding a stream twice takes it away again. -/
theorem xor_xor_cancel (a b : Bytes) (h : a.length ≤ b.length) : xor (xor a b) b = a := by
  induction a generalizing b with
  | nil => rfl
  | cons x xs ih =>
    cases b with
    | nil => exact absurd h (Nat.not_succ_le_zero _)
    | cons y ys =>
      have htail := ih ys (Nat.le_of_succ_le_succ h)
      simp only [xor, List.zipWith_cons_cons, List.cons.injEq] at htail ⊢
      exact ⟨by rw [UInt8.xor_assoc, UInt8.xor_self, UInt8.xor_zero], htail⟩

end AddressExchange.Bytes
