import AddressExchange.Cipher.Labelled
import AddressExchange.Proofs.Envelope

/-!
# Ciphers that open what they encrypt

A cipher may refuse a message: envelopes take none that is too long. What is asked of a cipher is that
it opens what it has encrypted. It is asked for one pair of keys and the random bytes of one
encryption, as the two halves of a pair may disagree about the secret that a few of these bring.
-/

namespace AddressExchange

namespace Cipher

/-- Does the cipher encrypt a message to a key? -/
def Takes (cipher : Cipher) (random message : Bytes) (key : PublicKey) : Prop :=
  ∃ blob, cipher.encrypt random message key = .ok blob

/-- Does the cipher open with the secret key of a pair all that it encrypts to the public one? -/
def Opens (cipher : Cipher) (keys : KeyPair) (random : Bytes) : Prop :=
  ∀ message blob, cipher.encrypt random message keys.publicKey = .ok blob →
    cipher.decrypt blob keys.secretKey = .ok message

/-! ## The labelling cipher -/

section Labelled

variable {refused b : UInt8} (reason : String) (random message : Bytes)

theorem decrypt_labelled :
    (labelled refused reason).decrypt (b :: message) (KeyPair.filled b).secretKey = .ok message :=
  if_pos rfl

theorem encrypt_labelled (h : b ≠ refused) :
    (labelled refused reason).encrypt random message (KeyPair.filled b).publicKey =
      .ok (b :: message) :=
  if_neg h

theorem takes_labelled (h : b ≠ refused) :
    (labelled refused reason).Takes random message (KeyPair.filled b).publicKey :=
  ⟨_, encrypt_labelled reason random message h⟩

theorem opens_labelled : (labelled refused reason).Opens (.filled b) random := by
  intro message blob hblob
  by_cases h : b = refused
  · cases (if_pos h).symm.trans hblob
  · rw [encrypt_labelled reason random message h] at hblob
    obtain rfl := Except.ok.inj hblob
    exact decrypt_labelled reason message

end Labelled

end Cipher

/-! ## Envelopes -/

namespace Envelope

variable {suite : Suite} {random message : Bytes} {keys : KeyPair}

/-- Envelopes take a message just if the length of what is sealed fits its four bytes. -/
theorem takes_cipher {key : PublicKey} :
    (cipher suite).Takes random message key ↔ message.length + Protocol.tagSize < UInt32.size := by
  rw [Cipher.Takes, encrypt_cipher, encrypt]
  constructor
  · rintro ⟨blob, hblob⟩
    refine Nat.not_le.mp fun hlong => ?_
    rw [if_pos hlong] at hblob
    cases hblob
  · intro hfits
    rw [if_neg (Nat.not_le.mpr hfits)]
    exact ⟨_, rfl⟩

/-- An envelope is longer than its message by a fixed number of bytes. -/
theorem length_cipher (hs : suite.OpensSealed) {key : PublicKey} {blob : Bytes}
    (hblob : (cipher suite).encrypt random message key = .ok blob) :
    blob.length = headerSize + (message.length + Protocol.tagSize) := by
  obtain ⟨p, hsealed, hfits, hlength, -⟩ :=
    encrypt_eq_ok hs (.ofBytes random) key (takes_cipher.mp ⟨blob, hblob⟩)
  obtain rfl := Except.ok.inj (hsealed.symm.trans hblob)
  rw [hfits.length_toBytes, hlength]

/-- What is sealed in an envelope is opened again, if both halves of the pair have the same secret. -/
theorem opens_cipher (hs : suite.OpensSealed)
    (hpair : isPair suite keys (Coins.ofBytes random).kemSeed = true) :
    (cipher suite).Opens keys random := by
  intro message blob hblob
  obtain ⟨p, hsealed, -, -, hopen⟩ :=
    decrypt_encrypt hs keys (.ofBytes random) message hpair (takes_cipher.mp ⟨blob, hblob⟩)
  obtain rfl := Except.ok.inj (hsealed.symm.trans hblob)
  exact hopen

theorem opensSealed_openSuite : openSuite.OpensSealed := Suite.opensSealed_gcm rfl rfl

/-- Secrets that are conveyed in the open arrive with whatever keys. -/
theorem isPair_openSuite (keys : KeyPair) (random : Bytes) : isPair openSuite keys random = true :=
  decide_eq_true (Bytes.take_resize (by decide) random)

end Envelope

end AddressExchange
