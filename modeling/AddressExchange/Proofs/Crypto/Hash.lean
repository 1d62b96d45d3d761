import AddressExchange.Crypto.PayerId
import AddressExchange.Envelope
import AddressExchange.Proofs.Bytes

/-!
# What is hashed tells what it is for

A byte string with its length in front can be split off again, whatever follows. So the bytes that are
hashed tell the separator, and with it the input, or all inputs and where each one ends. An input that
is taken as it is may look like several inputs with their lengths, but only under the same separator.
-/

namespace AddressExchange

theorem PayerId.ofSeed_of_le {seed : Bytes} (h : Protocol.minSeedSize ≤ seed.length) :
    ofSeed seed = .ok (ofHash (Hash.one Protocol.payerIdDomain seed Protocol.payerIdSize)) :=
  if_neg (Nat.not_lt.mpr h)

namespace Hash

variable {d e : Bytes}

/-! ## Frames -/

theorem framedDomain_append_inj {r s : Bytes} (hd : d.length < 2 ^ 32) (he : e.length < 2 ^ 32) :
    framedDomain d ++ r = framedDomain e ++ s ↔ d = e ∧ r = s :=
  Bytes.framed_append_inj hd he

theorem framedInput_append_inj {x y r s : Bytes} (hx : x.length < 2 ^ 64) (hy : y.length < 2 ^ 64) :
    framedInput x ++ r = framedInput y ++ s ↔ x = y ∧ r = s :=
  Bytes.framed_append_inj hx hy

theorem framedInput_ne_nil (x : Bytes) : framedInput x ≠ [] := by
  intro h
  have hlength := congrArg List.length h
  rw [framedInput, List.length_append, Bytes.length_littleEndian, List.length_nil] at hlength
  omega

/-- Inputs are taken off one by one, so their number and their ends are told by the bytes. -/
theorem flatMap_framedInput_inj {xs ys : List Bytes} (hxs : ∀ x ∈ xs, x.length < 2 ^ 64)
    (hys : ∀ y ∈ ys, y.length < 2 ^ 64) :
    xs.flatMap framedInput = ys.flatMap framedInput ↔ xs = ys := by
  refine ⟨fun h => ?_, congrArg (List.flatMap framedInput)⟩
  induction xs generalizing ys with
  | nil =>
    -- Even an empty input has the eight bytes of its length, so there is none.
    refine (List.eq_nil_iff_forall_not_mem.mpr fun y hy => ?_).symm
    exact framedInput_ne_nil y (List.flatMap_eq_nil_iff.mp h.symm y hy)
  | cons x xs ih =>
    cases ys with
    | nil => exact absurd (List.flatMap_eq_nil_iff.mp h x List.mem_cons_self) (framedInput_ne_nil x)
    | cons y ys =>
      rw [List.forall_mem_cons] at hxs hys
      rw [List.flatMap_cons, List.flatMap_cons, framedInput_append_inj hxs.1 hys.1] at h
      rw [h.1, ih hxs.2 hys.2 h.2]

/-! ## Calls -/

/-- A call of the hash: with one input, which is taken as it is, or with several. -/
inductive Call where
  | one (input : Bytes)
  | many (inputs : List Bytes)

/-- What is hashed. -/
def Call.absorbed (domain : Bytes) : Call → Bytes
  | .one input => single domain input
  | .many inputs => several domain inputs

/-- What is hashed behind the separator. -/
def Call.body : Call → Bytes
  | .one input => input
  | .many inputs => inputs.flatMap framedInput

/-- What the call gives. -/
def Call.digest (domain : Bytes) (length : Nat) : Call → Bytes
  | .one input => Hash.one domain input length
  | .many inputs => Hash.many domain inputs length

theorem Call.absorbed_eq (c : Call) (domain : Bytes) :
    c.absorbed domain = framedDomain domain ++ c.body := by
  cases c <;> rfl

theorem Call.digest_eq (c : Call) (domain : Bytes) (length : Nat) :
    c.digest domain length = Keccak.shake256 (c.absorbed domain) length := by
  cases c <;> rfl

/-- Calls of either kind hash the same bytes just if separators and bodies are the same. -/
theorem Call.absorbed_inj (hd : d.length < 2 ^ 32) (he : e.length < 2 ^ 32) (a b : Call) :
    a.absorbed d = b.absorbed e ↔ d = e ∧ a.body = b.body := by
  rw [absorbed_eq, absorbed_eq, framedDomain_append_inj hd he]

theorem several_inj (hd : d.length < 2 ^ 32) (he : e.length < 2 ^ 32) {xs ys : List Bytes}
    (hxs : ∀ x ∈ xs, x.length < 2 ^ 64) (hys : ∀ y ∈ ys, y.length < 2 ^ 64) :
    several d xs = several e ys ↔ d = e ∧ xs = ys := by
  rw [← flatMap_framedInput_inj hxs hys]
  exact Call.absorbed_inj hd he (.many xs) (.many ys)

/-- That separators fit their length is needed: all that a longer one hashes with one input is hashed
under a shorter one, too. -/
theorem exists_single_eq_of_long (h : 2 ^ 32 ≤ d.length) :
    ∃ shorter : Bytes, shorter.length < d.length ∧ ∀ x, ∃ y, single d x = single shorter y := by
  have hshort : d.length % 2 ^ 32 < 2 ^ 32 := Nat.mod_lt _ (by decide)
  have hlength : (d.take (d.length % 2 ^ 32)).length = d.length % 2 ^ 32 :=
    List.length_take_of_le (by omega)
  refine ⟨d.take (d.length % 2 ^ 32), by omega, fun x => ⟨d.drop (d.length % 2 ^ 32) ++ x, ?_⟩⟩
  refine Bytes.framed_append_eq_iff.mpr ⟨?_, ?_⟩
  · rw [hlength]
    exact (Nat.mod_mod _ _).symm
  · rw [← List.append_assoc, List.take_append_drop]

/-! ## Main result -/

/-- The bytes that are hashed for several inputs tell the separator and the inputs, and those that are
hashed for one input tell the separator and the input. Under different separators no two calls hash the
same bytes, also if one of them takes its input as it is. So whatever a session key is wrapped under and
whatever a payer id is derived from, they are hashes of different bytes. -/
theorem inputs_separated :
    (∀ d e : Bytes, d.length < 2 ^ 32 → e.length < 2 ^ 32 →
      (∀ xs ys : List Bytes, (∀ x ∈ xs, x.length < 2 ^ 64) → (∀ y ∈ ys, y.length < 2 ^ 64) →
        (several d xs = several e ys ↔ d = e ∧ xs = ys)) ∧
      (∀ x y, single d x = single e y ↔ d = e ∧ x = y) ∧
      (d ≠ e → ∀ a b : Call, a.absorbed d ≠ b.absorbed e)) ∧
    (∀ (c : Call) (domain : Bytes) (length : Nat),
      c.digest domain length = Keccak.shake256 (c.absorbed domain) length) ∧
    ∀ (secret seed : Bytes) (ciphertext : KemCiphertext),
      let wrapping := several Protocol.keyWrapDomain [secret, ciphertext.bytes]
      let naming := single Protocol.payerIdDomain seed
      Envelope.wrapKey secret ciphertext = Keccak.shake256 wrapping Protocol.sessionKeySize ∧
      (Protocol.minSeedSize ≤ seed.length → PayerId.ofSeed seed =
        .ok (.ofHash (Keccak.shake256 naming Protocol.payerIdSize))) ∧
      wrapping ≠ naming := by
  have happart {d e : Bytes} (hd : d.length < 2 ^ 32) (he : e.length < 2 ^ 32) (hne : d ≠ e)
      (a b : Call) : a.absorbed d ≠ b.absorbed e :=
    fun h => hne ((Call.absorbed_inj hd he a b).mp h).1
  refine ⟨fun d e hd he => ⟨fun xs ys => several_inj hd he, fun x y => ?_, happart hd he⟩,
    Call.digest_eq, fun secret seed ciphertext => ⟨rfl, PayerId.ofSeed_of_le, ?_⟩⟩
  · exact Call.absorbed_inj hd he (.one x) (.one y)
  · exact happart (by decide +kernel) (by decide +kernel) (by decide +kernel)
      (.many [secret, ciphertext.bytes]) (.one seed)

/-- Inputs that are cut at another place hash other bytes. One input that looks like several hashes the
same bytes under the same separator, and other bytes under another one. -/
theorem inputs_separated_imitated :
    let d := Protocol.keyWrapDomain
    let e := Protocol.payerIdDomain
    d.length < 2 ^ 32 ∧ e.length < 2 ^ 32 ∧ e ≠ d ∧
      several d [[0x61, 0x62], [0x63]] ≠ several d [[0x61], [0x62, 0x63]] ∧
      (Call.one (framedInput [0x61])).absorbed d = (Call.many [[0x61]]).absorbed d ∧
      (Call.one (framedInput [0x61])).absorbed e ≠ (Call.many [[0x61]]).absorbed d := by
  intro d e
  have hd : d.length < 2 ^ 32 := by decide +kernel
  have he : e.length < 2 ^ 32 := by decide +kernel
  have hne : e ≠ d := by decide +kernel
  obtain ⟨hseveral, -, -⟩ := inputs_separated.1 d d hd hd
  obtain ⟨-, -, happart⟩ := inputs_separated.1 e d he hd
  refine ⟨hd, he, hne, ?_, ?_, happart hne _ _⟩
  · rw [Ne, hseveral _ _ (by decide) (by decide)]
    decide
  · rw [Call.absorbed_eq, Call.absorbed_eq]
    rfl

end Hash

end AddressExchange
