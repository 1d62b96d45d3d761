import AddressExchange.Crypto.Gcm
import AddressExchange.Proofs.Bytes

/-!
# What opens was sealed

Adding the stream of counters twice takes it away again, and the tag has sixteen bytes. So a sealed
message opens to the message, and whatever opens to a message is that message, sealed.
-/

namespace AddressExchange.Aes

@[simp] theorem length_encryptBlock (words : Array Word) (block : Bytes) :
    (encryptBlock words block).length = 16 := rfl

end AddressExchange.Aes

namespace AddressExchange.Gcm

open Bytes (pieces)

/-! ## The stream -/

/-- A text with the stream added that begins at a counter. -/
def addStreamFrom (words : Array Aes.Word) (nonce : Bytes) (n : Nat) (text : Bytes) : Bytes :=
  ((pieces 16 text).zipIdx n).flatMap fun (piece, n) =>
    Bytes.xor piece (Aes.encryptBlock words (counterBlock nonce n))

variable {words : Array Aes.Word} {nonce : Bytes}

@[simp] theorem addStreamFrom_nil (n : Nat) : addStreamFrom words nonce n [] = [] := by
  simp [addStreamFrom, pieces]

theorem addStreamFrom_eq {text : Bytes} (h : text ≠ []) (n : Nat) :
    addStreamFrom words nonce n text =
      Bytes.xor (text.take 16) (Aes.encryptBlock words (counterBlock nonce n)) ++
        addStreamFrom words nonce (n + 1) (text.drop 16) := by
  rw [addStreamFrom, Bytes.pieces_eq_cons (by decide) h]
  rfl

/-- Texts are taken up in blocks of sixteen bytes. -/
theorem block_induction {P : Bytes → Prop} (nil : P [])
    (block : ∀ text, text ≠ [] → P (text.drop 16) → P text) (text : Bytes) : P text := by
  induction hn : text.length using Nat.strongRecOn generalizing text with
  | ind n ih =>
    by_cases h : text = []
    · exact h ▸ nil
    · have hpos := List.length_pos_iff.mpr h
      exact block text h (ih _ (by rw [List.length_drop]; omega) _ rfl)

theorem length_addStreamFrom (n : Nat) (text : Bytes) :
    (addStreamFrom words nonce n text).length = text.length := by
  induction text using block_induction generalizing n with
  | nil => rw [addStreamFrom_nil]
  | block text h ih =>
    rw [addStreamFrom_eq h, List.length_append, ih]
    simp only [Bytes.length_xor, Aes.length_encryptBlock, List.length_take, List.length_drop]
    omega

/-- The first block of the result is the first block of the text, with the stream added. -/
theorem split_addStreamFrom {text : Bytes} (h : text ≠ []) (n : Nat) :
    (addStreamFrom words nonce n text).take 16 =
        Bytes.xor (text.take 16) (Aes.encryptBlock words (counterBlock nonce n)) ∧
      (addStreamFrom words nonce n text).drop 16 =
        addStreamFrom words nonce (n + 1) (text.drop 16) := by
  have hlength : (Bytes.xor (text.take 16)
      (Aes.encryptBlock words (counterBlock nonce n))).length = min 16 text.length := by
    simp
  rw [addStreamFrom_eq h]
  by_cases hshort : text.length ≤ 16
  · -- Nothing is left of the text behind its first block.
    rw [List.drop_eq_nil_of_le hshort, addStreamFrom_nil, List.append_nil]
    exact ⟨List.take_of_length_le (by omega), List.drop_eq_nil_of_le (by omega)⟩
  · exact ⟨List.take_left' (by omega), List.drop_left' (by omega)⟩

theorem addStreamFrom_addStreamFrom (n : Nat) (text : Bytes) :
    addStreamFrom words nonce n (addStreamFrom words nonce n text) = text := by
  induction text using block_induction generalizing n with
  | nil => simp
  | block text h ih =>
    have hne : addStreamFrom words nonce n text ≠ [] := by
      intro heq
      have hlength := @length_addStreamFrom words nonce n text
      rw [heq] at hlength
      exact h (List.length_eq_zero_iff.mp hlength.symm)
    obtain ⟨htake, hdrop⟩ := @split_addStreamFrom words nonce text h n
    have hle : (text.take 16).length ≤ 16 := by
      rw [List.length_take]
      exact Nat.min_le_left 16 _
    rw [addStreamFrom_eq hne, htake, hdrop, ih, Bytes.xor_xor_cancel _ _ hle, List.take_append_drop]

theorem length_addStream (words : Array Aes.Word) (nonce text : Bytes) :
    (addStream words nonce text).length = text.length :=
  length_addStreamFrom 2 text

theorem addStream_addStream (words : Array Aes.Word) (nonce text : Bytes) :
    addStream words nonce (addStream words nonce text) = text :=
  addStreamFrom_addStreamFrom 2 text

/-! ## Sealing -/

@[simp] theorem length_tag (words : Array Aes.Word) (nonce data sealed_ : Bytes) :
    (tag words nonce data sealed_).length = 16 := by
  simp [tag, Element.toBytes]

@[simp] theorem length_sealWith (key nonce message data : Bytes) :
    (sealWith key nonce message data).length = message.length + 16 := by
  simp [sealWith, length_addStream]

/-- What opens to a message is the message, sealed with the same data. -/
theorem openWith_eq_some {key nonce sealed_ data message : Bytes} :
    openWith key nonce sealed_ data = some message ↔ sealed_ = sealWith key nonce message data := by
  constructor
  · intro h
    unfold openWith at h
    split at h
    · cases h
    · dsimp only at h
      split at h
      · next htag =>
        cases h
        rw [sealWith, addStream_addStream, ← htag, List.take_append_drop]
      · cases h
  · rintro rfl
    have hlength := length_sealWith key nonce message data
    -- The last sixteen bytes are the tag of all that stands before them.
    have hbody : (sealWith key nonce message data).length - 16 =
        (addStream (Aes.schedule key) nonce message).length := by
      rw [hlength, Nat.add_sub_cancel, length_addStream]
    have htake : (sealWith key nonce message data).take
        ((sealWith key nonce message data).length - 16) =
          addStream (Aes.schedule key) nonce message := by
      rw [hbody]
      exact List.take_left
    have hdrop : (sealWith key nonce message data).drop
        ((sealWith key nonce message data).length - 16) =
          tag (Aes.schedule key) nonce data (addStream (Aes.schedule key) nonce message) := by
      rw [hbody]
      exact List.drop_left
    rw [openWith, if_neg (by omega)]
    simp only [htake, hdrop, if_true, addStream_addStream]

end AddressExchange.Gcm
