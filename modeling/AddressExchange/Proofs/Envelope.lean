import AddressExchange.Cipher.Labelled
import AddressExchange.Envelope
import AddressExchange.Proofs.Crypto.Gcm
import AddressExchange.Proofs.Crypto.Keccak

/-!
# Envelopes open exactly when they were sealed

The reader of an envelope takes its parts off the front one by one, and what it takes off is what
the writer put there: bytes that are laid out in another way, cut short or continued have no parts.
With a cipher that opens only what it sealed, an envelope therefore opens to a message exactly if it
is that message, sealed for the holder of the key.
-/

namespace AddressExchange

/-! ## Suites that open what they sealed -/

/-- Under keys and nonces of the right lengths, what opens to a message is that message, sealed with
the same data, and has a tag more than the message. -/
structure Suite.OpensSealed (suite : Suite) : Prop where
  open_iff {key nonce : Bytes} (hkey : key.length = Protocol.sessionKeySize)
    (hnonce : nonce.length = Protocol.nonceSize) (sealed_ message data : Bytes) :
    suite.openWith key nonce sealed_ data = some message ↔
      sealed_ = suite.sealWith key nonce message data
  length_seal {key nonce : Bytes} (hkey : key.length = Protocol.sessionKeySize)
    (hnonce : nonce.length = Protocol.nonceSize) (message data : Bytes) :
    (suite.sealWith key nonce message data).length = message.length + Protocol.tagSize

/-- AES in Galois/Counter Mode is such a cipher, whatever conveys the keys. -/
theorem Suite.opensSealed_gcm {suite : Suite} (hseal : suite.sealWith = Gcm.sealWith)
    (hopen : suite.openWith = Gcm.openWith) : suite.OpensSealed where
  open_iff _ _ _ _ _ := by
    rw [hseal, hopen]
    exact Gcm.openWith_eq_some
  length_seal _ _ message data := by
    rw [hseal]
    exact Gcm.length_sealWith _ _ message data

theorem Suite.opensSealed_standard : Suite.standard.OpensSealed := opensSealed_gcm rfl rfl

theorem KemCiphertext.ofBytes_eq_some {bs : Bytes} {ct : KemCiphertext} :
    (KemCiphertext.ofBytes bs).toOption = some ct ↔ bs = ct.bytes := by
  unfold KemCiphertext.ofBytes
  constructor
  · intro h
    split at h
    · cases h
      rfl
    · cases h
  · rintro rfl
    rw [dif_pos ct.length_eq]
    rfl

namespace Envelope

@[simp] theorem decrypt_cipher (suite : Suite) : (cipher suite).decrypt = decrypt suite := rfl

@[simp] theorem encrypt_cipher (suite : Suite) (random message : Bytes) (recipient : PublicKey) :
    (cipher suite).encrypt random message recipient =
      encrypt suite (.ofBytes random) message recipient := rfl

/-! ## The layout -/

/-- Have the parts the lengths that the layout gives them? -/
structure Parts.Fits (p : Parts) : Prop where
  wrapNonce : p.wrapNonce.length = Protocol.nonceSize
  wrapped : p.wrapped.length = wrappedSize
  payloadNonce : p.payloadNonce.length = Protocol.nonceSize
  payload : p.payload.length < UInt32.size

theorem take_eq_some {n : Nat} {bs a rest : Bytes} :
    take n bs = some (a, rest) ↔ a.length = n ∧ bs = a ++ rest :=
  Bytes.splitAt?_eq_some

theorem expect_eq_some {wanted bs rest : Bytes} :
    expect wanted bs = some rest ↔ bs = wanted ++ rest := by
  unfold expect
  constructor
  · intro h
    obtain ⟨⟨found, behind⟩, htake, hfound⟩ := Option.bind_eq_some_iff.mp h
    obtain ⟨-, hbs⟩ := take_eq_some.mp htake
    dsimp only at hfound
    split at hfound
    · next heq =>
      cases hfound
      rw [hbs, heq]
    · cases hfound
  · rintro rfl
    have htake : take wanted.length (wanted ++ rest) = some (wanted, rest) :=
      take_eq_some.mpr ⟨rfl, rfl⟩
    rw [htake]
    exact if_pos rfl

/-- The bytes of parts, one piece behind the other. -/
theorem Parts.toBytes_eq (p : Parts) :
    p.toBytes =
      Text.utf8 Protocol.envelopeMagic ++ ([Protocol.envelopeVersion] ++
        (Bytes.bigEndian 2 Protocol.kemCiphertextSize ++ (p.ciphertext.bytes ++ (p.wrapNonce ++
          (Bytes.bigEndian 2 wrappedSize ++ (p.wrapped ++ (p.payloadNonce ++
            (Bytes.bigEndian 4 p.payload.length ++ p.payload)))))))) := by
  simp only [Parts.toBytes, header, opening, List.append_assoc, List.cons_append, List.nil_append]

/-- Bytes have parts exactly if they are laid out as the parts are written. -/
theorem Parts.ofBytes?_eq_some {bs : Bytes} {p : Parts} :
    Parts.ofBytes? bs = some p ↔ p.Fits ∧ bs = p.toBytes := by
  constructor
  · intro h
    simp only [Parts.ofBytes?, Option.bind_eq_bind, Option.bind_eq_some_iff] at h
    obtain ⟨_, hmagic, _, hversion, _, hsize, ⟨ct, _⟩, hct, ciphertext, hciphertext,
      ⟨wrapNonce, _⟩, hwrapNonce, _, hwrappedSize, ⟨wrapped, _⟩, hwrapped,
      ⟨payloadNonce, _⟩, hpayloadNonce, ⟨size, payload⟩, hpayload, h⟩ := h
    split at h
    · next hlength =>
      cases h
      obtain rfl := expect_eq_some.mp hmagic
      obtain rfl := expect_eq_some.mp hversion
      obtain rfl := expect_eq_some.mp hsize
      obtain ⟨-, rfl⟩ := take_eq_some.mp hct
      obtain rfl := KemCiphertext.ofBytes_eq_some.mp hciphertext
      obtain ⟨hnonce₁, rfl⟩ := take_eq_some.mp hwrapNonce
      obtain rfl := expect_eq_some.mp hwrappedSize
      obtain ⟨hfits, rfl⟩ := take_eq_some.mp hwrapped
      obtain ⟨hnonce₂, rfl⟩ := take_eq_some.mp hpayloadNonce
      obtain ⟨hfour, rfl⟩ := take_eq_some.mp hpayload
      -- The four bytes of the length are those of the length that was found.
      have hback : Bytes.bigEndian 4 payload.length = size := by
        rw [hlength, Bytes.bigEndian_ofBigEndian hfour]
      have hlt : payload.length < UInt32.size := by
        have := Bytes.ofBigEndian_lt size
        rwa [← hlength, hfour] at this
      refine ⟨⟨hnonce₁, hfits, hnonce₂, hlt⟩, ?_⟩
      rw [Parts.toBytes_eq]
      simp only [hback]
    · cases h
  · rintro ⟨hp, rfl⟩
    have hsize : p.payload.length = Bytes.ofBigEndian (Bytes.bigEndian 4 p.payload.length) :=
      (Bytes.ofBigEndian_bigEndian hp.payload).symm
    rw [Parts.toBytes_eq]
    simp only [Parts.ofBytes?, Option.bind_eq_bind, Option.bind_eq_some_iff]
    refine ⟨_, expect_eq_some.mpr rfl, _, expect_eq_some.mpr rfl, _, expect_eq_some.mpr rfl,
      ⟨p.ciphertext.bytes, _⟩, take_eq_some.mpr ⟨p.ciphertext.length_eq, rfl⟩,
      p.ciphertext, KemCiphertext.ofBytes_eq_some.mpr rfl,
      ⟨p.wrapNonce, _⟩, take_eq_some.mpr ⟨hp.wrapNonce, rfl⟩, _, expect_eq_some.mpr rfl,
      ⟨p.wrapped, _⟩, take_eq_some.mpr ⟨hp.wrapped, rfl⟩,
      ⟨p.payloadNonce, _⟩, take_eq_some.mpr ⟨hp.payloadNonce, rfl⟩,
      ⟨Bytes.bigEndian 4 p.payload.length, p.payload⟩,
      take_eq_some.mpr ⟨Bytes.length_bigEndian 4 _, rfl⟩, ?_⟩
    dsimp only
    rw [if_pos hsize]

/-! ## Opening -/

theorem decrypt_eq_ok {suite : Suite} {blob message : Bytes} {secret : SecretKey} :
    decrypt suite blob secret = .ok message ↔
      ∃ p, Parts.ofBytes? blob = some p ∧ p.open_ suite secret = some message := by
  rw [decrypt, ← Option.bind_eq_some_iff]
  cases (Parts.ofBytes? blob).bind (·.open_ suite secret) <;> simp

theorem decrypt_eq_error {suite : Suite} {blob : Bytes} {secret : SecretKey} {e : Failure}
    (h : decrypt suite blob secret = .error e) : e = .decryption := by
  unfold decrypt at h
  split at h
  · cases h
  · cases h
    rfl

theorem length_wrapKey (secret : Bytes) (ciphertext : KemCiphertext) :
    (wrapKey secret ciphertext).length = Protocol.sessionKeySize :=
  Hash.length_many _ _ _

/-- The session key of the parts is sealed under the secret, and the message under the session key.
-/
structure Parts.Holds (suite : Suite) (secret : Bytes) (p : Parts) (sessionKey message : Bytes) :
    Prop where
  length_sessionKey : sessionKey.length = Protocol.sessionKeySize
  wrapped : p.wrapped = suite.sealWith (wrapKey secret p.ciphertext) p.wrapNonce sessionKey
    (opening p.ciphertext)
  payload : p.payload = suite.sealWith sessionKey p.payloadNonce message
    (header p.ciphertext p.wrapNonce p.wrapped p.payloadNonce p.payload.length)

section Sealed

variable {suite : Suite} (hs : suite.OpensSealed) {secret : SecretKey} {blob message : Bytes}

include hs

/-- Parts open to a message exactly if they hold it. -/
theorem Parts.open_eq_some {p : Parts} (hp : p.Fits) :
    p.open_ suite secret = some message ↔
      ∃ sessionKey, p.Holds suite (suite.decapsulate secret p.ciphertext) sessionKey message := by
  simp only [Parts.open_, Option.bind_eq_bind, Option.bind_eq_some_iff,
    hs.open_iff (length_wrapKey _ _) hp.wrapNonce, Option.ite_none_right_eq_some]
  refine exists_congr fun sessionKey => ?_
  constructor
  · rintro ⟨hwrapped, hlength, hpayload⟩
    exact ⟨hlength, hwrapped, (hs.open_iff hlength hp.payloadNonce _ _ _).mp hpayload⟩
  · intro h
    exact ⟨h.wrapped, h.length_sessionKey, (hs.open_iff h.length_sessionKey hp.payloadNonce _ _ _).mpr h.payload⟩

theorem decrypt_eq_ok_iff :
    decrypt suite blob secret = .ok message ↔
      ∃ (p : Parts) (sessionKey : Bytes), p.Fits ∧ blob = p.toBytes ∧
        p.Holds suite (suite.decapsulate secret p.ciphertext) sessionKey message := by
  rw [decrypt_eq_ok]
  refine exists_congr fun p => ?_
  rw [Parts.ofBytes?_eq_some]
  constructor
  · rintro ⟨⟨hp, hblob⟩, hopen⟩
    obtain ⟨sessionKey, h⟩ := (Parts.open_eq_some hs hp).mp hopen
    exact ⟨sessionKey, hp, hblob, h⟩
  · rintro ⟨sessionKey, hp, hblob, h⟩
    exact ⟨⟨hp, hblob⟩, (Parts.open_eq_some hs hp).mpr ⟨sessionKey, h⟩⟩

/-! ## Sealing -/

/-- A message that is not too long is sealed in parts that hold it. -/
theorem encrypt_eq_ok (coins : Coins) (recipient : PublicKey)
    (h : message.length + Protocol.tagSize < UInt32.size) :
    ∃ p : Parts, encrypt suite coins message recipient = .ok p.toBytes ∧ p.Fits ∧
      p.payload.length = message.length + Protocol.tagSize ∧
      p.ciphertext = (suite.encapsulate recipient coins.kemSeed).1 ∧
      p.Holds suite (suite.encapsulate recipient coins.kemSeed).2 coins.sessionKey message := by
  let ciphertext := (suite.encapsulate recipient coins.kemSeed).1
  let secret := (suite.encapsulate recipient coins.kemSeed).2
  let wrapped := suite.sealWith (wrapKey secret ciphertext) coins.wrapNonce coins.sessionKey
    (opening ciphertext)
  let front := header ciphertext coins.wrapNonce wrapped coins.payloadNonce
    (message.length + Protocol.tagSize)
  let payload := suite.sealWith coins.sessionKey coins.payloadNonce message front
  have hwrapped : wrapped.length = wrappedSize := by
    rw [hs.length_seal (length_wrapKey _ _) coins.wrapNonce_length, coins.sessionKey_length]
    rfl
  have hpayload : payload.length = message.length + Protocol.tagSize :=
    hs.length_seal coins.sessionKey_length coins.payloadNonce_length _ _
  refine ⟨⟨ciphertext, coins.wrapNonce, wrapped, coins.payloadNonce, payload⟩, ?_,
    ⟨coins.wrapNonce_length, hwrapped, coins.payloadNonce_length, hpayload ▸ h⟩, hpayload, rfl,
    ⟨coins.sessionKey_length, rfl, ?_⟩⟩
  · rw [encrypt, Parts.toBytes]
    dsimp only
    rw [if_neg (Nat.not_le.mpr h), hpayload]
  · dsimp only
    rw [hpayload]

/-- What is sealed for one half of a pair is opened with the other. -/
theorem decrypt_encrypt (pair : KeyPair) (coins : Coins) (message : Bytes)
    (hpair : isPair suite pair coins.kemSeed = true)
    (h : message.length + Protocol.tagSize < UInt32.size) :
    ∃ p : Parts, encrypt suite coins message pair.publicKey = .ok p.toBytes ∧ p.Fits ∧
      p.payload.length = message.length + Protocol.tagSize ∧
      decrypt suite p.toBytes pair.secretKey = .ok message := by
  obtain ⟨p, hseal, hfits, hlength, hciphertext, hholds⟩ := encrypt_eq_ok hs coins pair.publicKey h
  have hsecret : suite.decapsulate pair.secretKey p.ciphertext =
      (suite.encapsulate pair.publicKey coins.kemSeed).2 := by
    rw [hciphertext]
    exact of_decide_eq_true hpair
  refine ⟨p, hseal, hfits, hlength, (decrypt_eq_ok_iff hs).mpr ⟨p, coins.sessionKey, hfits, rfl, ?_⟩⟩
  rw [hsecret]
  exact hholds

end Sealed

/-! ## Lengths -/

theorem length_opening (ciphertext : KemCiphertext) :
    (opening ciphertext).length = 4 + 1 + 2 + Protocol.kemCiphertextSize := by
  have hmagic : (Text.utf8 Protocol.envelopeMagic).length = 4 := by decide +kernel
  simp only [opening, List.length_append, List.length_cons, Bytes.length_bigEndian, hmagic,
    ciphertext.length_eq]
  omega

theorem Parts.Fits.length_header {p : Parts} (hp : p.Fits) (size : Nat) :
    (header p.ciphertext p.wrapNonce p.wrapped p.payloadNonce size).length = headerSize := by
  simp only [header, List.length_append, length_opening, Bytes.length_bigEndian, hp.wrapNonce,
    hp.wrapped, hp.payloadNonce, headerSize]

theorem Parts.Fits.length_toBytes {p : Parts} (hp : p.Fits) :
    p.toBytes.length = headerSize + p.payload.length := by
  rw [Parts.toBytes, List.length_append, hp.length_header]

/-! ## What an envelope is -/

/-- Is a blob an envelope with a message for the holder of a secret key? It consists of the magic
text, the version, the ciphertext of a shared secret behind its length, a nonce, a sealed session key
behind its length, a nonce, and the sealed message behind its length. The session key is sealed under
a key that is derived from the shared secret and its ciphertext, together with all that stands before
its nonce, and the message under the session key, together with all that stands before it. -/
def IsEnvelope (suite : Suite) (secret : SecretKey) (message blob : Bytes) : Prop :=
  ∃ (ciphertext : KemCiphertext) (wrapNonce payloadNonce sessionKey : Bytes) (size : UInt32),
    wrapNonce.length = 12 ∧ payloadNonce.length = 12 ∧ sessionKey.length = 32 ∧
    let key := Hash.many (Text.utf8 "BRIT_KEY_WRAP_V1")
      [suite.decapsulate secret ciphertext, ciphertext.bytes] 32
    let front := Text.utf8 "BRIT" ++ [1] ++ [0x04, 0x40] ++ ciphertext.bytes
    let wrapped := suite.sealWith key wrapNonce sessionKey front
    let header := front ++ wrapNonce ++ [0x00, 0x30] ++ wrapped ++ payloadNonce ++
      Bytes.bigEndian 4 size.toNat
    let payload := suite.sealWith sessionKey payloadNonce message header
    payload.length = size.toNat ∧ blob = header ++ payload

private theorem opening_eq (ciphertext : KemCiphertext) :
    opening ciphertext = Text.utf8 "BRIT" ++ [1] ++ [0x04, 0x40] ++ ciphertext.bytes := by
  have hsize : Bytes.bigEndian 2 Protocol.kemCiphertextSize = [0x04, 0x40] := by decide
  simp only [opening, hsize, List.append_assoc]
  rfl

private theorem header_eq (ciphertext : KemCiphertext) (wrapNonce wrapped payloadNonce : Bytes)
    (size : Nat) :
    header ciphertext wrapNonce wrapped payloadNonce size =
      opening ciphertext ++ wrapNonce ++ [0x00, 0x30] ++ wrapped ++ payloadNonce ++
        Bytes.bigEndian 4 size := by
  have hsize : Bytes.bigEndian 2 wrappedSize = [0x00, 0x30] := by decide
  rw [header, hsize]

theorem isEnvelope_iff {suite : Suite} (hs : suite.OpensSealed) {secret : SecretKey}
    {message blob : Bytes} :
    IsEnvelope suite secret message blob ↔
      ∃ (p : Parts) (sessionKey : Bytes), p.Fits ∧ blob = p.toBytes ∧
        p.Holds suite (suite.decapsulate secret p.ciphertext) sessionKey message := by
  simp only [IsEnvelope, ← opening_eq, ← header_eq]
  constructor
  · rintro ⟨ciphertext, wrapNonce, payloadNonce, sessionKey, size, hwrapNonce, hpayloadNonce,
      hsessionKey, hlength, hblob⟩
    let wrapped := suite.sealWith (wrapKey (suite.decapsulate secret ciphertext) ciphertext)
      wrapNonce sessionKey (opening ciphertext)
    let payload := suite.sealWith sessionKey payloadNonce message
      (header ciphertext wrapNonce wrapped payloadNonce size.toNat)
    have hwrapped : wrapped.length = wrappedSize := by
      rw [hs.length_seal (length_wrapKey _ _) hwrapNonce, hsessionKey]
      rfl
    have hpayload : payload.length = size.toNat := hlength
    refine ⟨⟨ciphertext, wrapNonce, wrapped, payloadNonce, payload⟩, sessionKey,
      ⟨hwrapNonce, hwrapped, hpayloadNonce, ?_⟩, ?_, hsessionKey, rfl, ?_⟩
    · dsimp only
      rw [hpayload]
      exact size.toNat_lt
    · rw [Parts.toBytes]
      dsimp only
      rw [hpayload]
      exact hblob
    · dsimp only
      rw [hpayload]
  · rintro ⟨p, sessionKey, hp, hblob, h⟩
    have hsize : (UInt32.ofNat p.payload.length).toNat = p.payload.length :=
      UInt32.toNat_ofNat_of_lt hp.payload
    refine ⟨p.ciphertext, p.wrapNonce, p.payloadNonce, sessionKey, .ofNat p.payload.length,
      hp.wrapNonce, hp.payloadNonce, h.length_sessionKey, ?_⟩
    have hwrapped : suite.sealWith (Hash.many (Text.utf8 "BRIT_KEY_WRAP_V1")
        [suite.decapsulate secret p.ciphertext, p.ciphertext.bytes] 32) p.wrapNonce sessionKey
          (opening p.ciphertext) = p.wrapped := h.wrapped.symm
    rw [hsize, hwrapped, ← h.payload]
    exact ⟨rfl, hblob⟩

/-! ## Main result -/

/-- A blob opens to a message exactly if it is an envelope with that message, and all others fail in
the same way. For the holder of the other half of a pair, a message that is not too long is sealed in
such an envelope, which is longer than the message by a fixed number of bytes. -/
theorem decrypt_exactly (suite : Suite) (hs : suite.OpensSealed) (secret : SecretKey) (blob : Bytes) :
    (∀ message, decrypt suite blob secret = .ok message ↔ IsEnvelope suite secret message blob) ∧
      ((¬ ∃ message, IsEnvelope suite secret message blob) →
        decrypt suite blob secret = .error .decryption) ∧
      (∀ e, decrypt suite blob secret = .error e → e = .decryption) ∧
      ∀ (pair : KeyPair) (coins : Coins) (message : Bytes),
        isPair suite pair coins.kemSeed = true → message.length + 16 < 2 ^ 32 →
          ∃ sealed_, encrypt suite coins message pair.publicKey = .ok sealed_ ∧
            sealed_.length = 1173 + message.length + 16 ∧
            decrypt suite sealed_ pair.secretKey = .ok message := by
  have hexact (message : Bytes) :
      decrypt suite blob secret = .ok message ↔ IsEnvelope suite secret message blob := by
    rw [decrypt_eq_ok_iff hs, isEnvelope_iff hs]
  refine ⟨hexact, fun hnone => ?_, fun e he => decrypt_eq_error he, fun pair coins message hpair hm => ?_⟩
  · cases hd : decrypt suite blob secret with
    | ok message => exact absurd ⟨message, (hexact message).mp hd⟩ hnone
    | error e => rw [decrypt_eq_error hd]
  · have hsize : message.length + Protocol.tagSize < UInt32.size := hm
    obtain ⟨p, hp, hfits, hlength, hciphertext, hholds⟩ :=
      encrypt_eq_ok hs coins pair.publicKey hsize
    -- What the holder of the secret key finds in the ciphertext is what was put there.
    have hsecret : suite.decapsulate pair.secretKey p.ciphertext =
        (suite.encapsulate pair.publicKey coins.kemSeed).2 := by
      rw [hciphertext]
      simpa [isPair] using hpair
    refine ⟨p.toBytes, hp, ?_, (decrypt_eq_ok_iff hs).mpr ⟨p, coins.sessionKey, hfits, rfl, ?_⟩⟩
    · rw [hfits.length_toBytes, hlength]
      show 1173 + (message.length + 16) = 1173 + message.length + 16
      exact (Nat.add_assoc _ _ _).symm
    · rw [hsecret]
      exact hholds

/-- A suite that conveys its secrets in the open, and seals with AES in Galois/Counter Mode. -/
def openSuite : Suite :=
  { Suite.standard with
    encapsulate := fun _ random => (⟨Bytes.resize _ random, Bytes.length_resize _ _⟩,
      Bytes.resize Protocol.sharedSecretSize random)
    decapsulate := fun _ ciphertext => ciphertext.bytes.take Protocol.sharedSecretSize }

/-- Two bytes are sealed for a key of that suite. The blob has 1191 bytes and opens to them. -/
theorem decrypt_exactly_two_bytes :
    ∃ blob, encrypt openSuite (.ofBytes (List.range 88 |>.map .ofNat)) [7, 8]
        (KeyPair.filled 1).publicKey = .ok blob ∧ blob.length = 1191 ∧
      decrypt openSuite blob (KeyPair.filled 1).secretKey = .ok [7, 8] ∧
      IsEnvelope openSuite (KeyPair.filled 1).secretKey [7, 8] blob := by
  have hs : openSuite.OpensSealed := Suite.opensSealed_gcm rfl rfl
  obtain ⟨blob, hblob, hlength, hopen⟩ := (decrypt_exactly openSuite hs (KeyPair.filled 1).secretKey
    []).2.2.2 (.filled 1) (.ofBytes (List.range 88 |>.map .ofNat)) [7, 8] (by decide +kernel)
      (by decide)
  refine ⟨blob, hblob, hlength, hopen, ?_⟩
  exact ((decrypt_exactly openSuite hs (KeyPair.filled 1).secretKey blob).1 [7, 8]).mp hopen

end Envelope

end AddressExchange
