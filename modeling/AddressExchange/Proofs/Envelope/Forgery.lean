import AddressExchange.Proofs.Envelope

/-!
# Envelopes cannot be altered or spliced

Say that nothing opens but what was sealed when messages were sent: with the same key, nonce and data,
byte for byte. Then nothing is accepted but what was sent. The seal of a message covers all that
stands before it as its data, and is told from that of a session key by the length of these data, so
whatever is accepted has both the seal and all before it from one and the same envelope. Whether keys
of different envelopes differ does not matter for this.
-/

namespace AddressExchange

namespace Envelope

/-! ## What is sealed -/

/-- What is given to a cipher that seals. -/
structure Seal where
  key : Bytes
  nonce : Bytes
  message : Bytes
  data : Bytes

/-- What the cipher makes of it. -/
def Seal.bytes (suite : Suite) (x : Seal) : Bytes := suite.sealWith x.key x.nonce x.message x.data

/-- A message of no excessive length that is sent to somebody. -/
structure Sent where
  coins : Coins
  message : Bytes
  recipient : PublicKey
  fits : message.length + Protocol.tagSize < UInt32.size

namespace Sent

variable (suite : Suite) (s : Sent)

def ciphertext : KemCiphertext := (suite.encapsulate s.recipient s.coins.kemSeed).1

def secret : Bytes := (suite.encapsulate s.recipient s.coins.kemSeed).2

/-- The seal of the session key. -/
def wrap : Seal where
  key := wrapKey (s.secret suite) (s.ciphertext suite)
  nonce := s.coins.wrapNonce
  message := s.coins.sessionKey
  data := opening (s.ciphertext suite)

/-- All that stands before the sealed message. -/
def front : Bytes :=
  header (s.ciphertext suite) s.coins.wrapNonce ((s.wrap suite).bytes suite) s.coins.payloadNonce
    (s.message.length + Protocol.tagSize)

/-- The seal of the message. -/
def payload : Seal where
  key := s.coins.sessionKey
  nonce := s.coins.payloadNonce
  message := s.message
  data := s.front suite

/-- The envelope that is sent. -/
def blob : Bytes := s.front suite ++ (s.payload suite).bytes suite

theorem encrypt_eq_blob :
    encrypt suite s.coins s.message s.recipient = .ok (s.blob suite) := by
  rw [encrypt, if_neg (Nat.not_le.mpr s.fits)]
  rfl

end Sent

/-- All that is sealed when messages are sent. -/
def seals (suite : Suite) (sent : List Sent) : List Seal :=
  sent.flatMap fun s => [s.wrap suite, s.payload suite]

theorem mem_seals {suite : Suite} {sent : List Sent} {x : Seal} :
    x ∈ seals suite sent ↔ ∃ s ∈ sent, x = s.wrap suite ∨ x = s.payload suite := by
  simp [seals]

/-- Does the cipher open just what was sealed when messages were sent, to what it was sealed from? -/
structure OpensOnly (suite : Suite) (sent : List Sent) : Prop where
  only {key nonce sealed_ data message : Bytes}
    (h : suite.openWith key nonce sealed_ data = some message) :
    ∃ x ∈ seals suite sent, x.key = key ∧ x.nonce = nonce ∧ x.bytes suite = sealed_ ∧ x.data = data
  opens {x : Seal} (h : x ∈ seals suite sent) :
    suite.openWith x.key x.nonce (x.bytes suite) x.data = some x.message

/-! ## What is accepted -/

section OpensOnly

variable {suite : Suite} {sent : List Sent} (h : OpensOnly suite sent)

include h

/-- Data of the length of all that stands before a message are those of a message that was sent. -/
theorem payload_of_openWith {key nonce sealed_ data message : Bytes}
    (hlength : data.length = headerSize)
    (hopen : suite.openWith key nonce sealed_ data = some message) :
    ∃ s ∈ sent, data ++ sealed_ = s.blob suite ∧ message = s.message := by
  obtain ⟨x, hx, rfl, rfl, rfl, rfl⟩ := h.only hopen
  have hmessage : message = x.message := Option.some.inj (hopen.symm.trans (h.opens hx))
  obtain ⟨s, hs, rfl | rfl⟩ := mem_seals.mp hx
  · rw [Sent.wrap, length_opening] at hlength
    exact absurd hlength (by decide)
  · exact ⟨s, hs, rfl, hmessage⟩

/-- Nothing is accepted but what was sent, whoever it was sent to, and it is accepted as the message
that was sent. All else, however it came about, is refused. -/
theorem accepted_only_sent (blob : Bytes) (secret : SecretKey) :
    (∀ message, decrypt suite blob secret = .ok message →
        ∃ s ∈ sent, encrypt suite s.coins s.message s.recipient = .ok blob ∧ message = s.message) ∧
      ((∀ s ∈ sent, encrypt suite s.coins s.message s.recipient ≠ .ok blob) →
        decrypt suite blob secret = .error .decryption) := by
  have hsent (message : Bytes) (hmessage : decrypt suite blob secret = .ok message) :
      ∃ s ∈ sent, encrypt suite s.coins s.message s.recipient = .ok blob ∧ message = s.message := by
    obtain ⟨p, hparts, hopen⟩ := decrypt_eq_ok.mp hmessage
    obtain ⟨hp, rfl⟩ := Parts.ofBytes?_eq_some.mp hparts
    obtain ⟨sessionKey, -, hpayload⟩ := Option.bind_eq_some_iff.mp hopen
    obtain ⟨-, hpayload⟩ := Option.ite_none_right_eq_some.mp hpayload
    obtain ⟨s, hs, hblob, rfl⟩ := payload_of_openWith h (hp.length_header _) hpayload
    exact ⟨s, hs, (s.encrypt_eq_blob suite).trans (congrArg _ hblob.symm), rfl⟩
  refine ⟨hsent, fun hnone => ?_⟩
  cases hmessage : decrypt suite blob secret with
  | ok message =>
    obtain ⟨s, hs, hseal, -⟩ := hsent message hmessage
    exact absurd hseal (hnone s hs)
  | error e => rw [decrypt_eq_error hmessage]

/-- The holder of the other half of a pair accepts what was sent, if seals are longer than messages by
their tags. -/
theorem decrypt_blob (hlength : ∀ x ∈ seals suite sent,
      (x.bytes suite).length = x.message.length + Protocol.tagSize)
    {s : Sent} (hs : s ∈ sent) {pair : KeyPair} (hrecipient : s.recipient = pair.publicKey)
    (hpair : isPair suite pair s.coins.kemSeed = true) :
    decrypt suite (s.blob suite) pair.secretKey = .ok s.message := by
  have hwrap : s.wrap suite ∈ seals suite sent := mem_seals.mpr ⟨s, hs, .inl rfl⟩
  have hpayload : s.payload suite ∈ seals suite sent := mem_seals.mpr ⟨s, hs, .inr rfl⟩
  let p : Parts := ⟨s.ciphertext suite, s.coins.wrapNonce, (s.wrap suite).bytes suite,
    s.coins.payloadNonce, (s.payload suite).bytes suite⟩
  have hsize : p.payload.length = s.message.length + Protocol.tagSize := hlength _ hpayload
  have hfits : p.Fits := by
    refine ⟨s.coins.wrapNonce_length, (hlength _ hwrap).trans ?_, s.coins.payloadNonce_length,
      hsize ▸ s.fits⟩
    exact congrArg (· + Protocol.tagSize) s.coins.sessionKey_length
  have hheader : header p.ciphertext p.wrapNonce p.wrapped p.payloadNonce p.payload.length =
      s.front suite := by
    rw [hsize]
    rfl
  have hblob : s.blob suite = p.toBytes := by
    rw [Parts.toBytes, hheader]
    rfl
  have hsecret : suite.decapsulate pair.secretKey p.ciphertext = s.secret suite := by
    have hdecapsulate := of_decide_eq_true hpair
    rw [← hrecipient] at hdecapsulate
    exact hdecapsulate
  have hopen : p.open_ suite pair.secretKey = some s.message := by
    rw [Parts.open_, hsecret, hheader]
    refine Option.bind_eq_some_iff.mpr ⟨s.coins.sessionKey, h.opens hwrap, ?_⟩
    rw [if_pos s.coins.sessionKey_length]
    exact h.opens hpayload
  exact decrypt_eq_ok.mpr ⟨p, Parts.ofBytes?_eq_some.mpr ⟨hfits, hblob⟩, hopen⟩

end OpensOnly

/-! ## A suite that opens nothing else -/

/-- A suite that refuses to open what was not sealed when messages were sent. -/
def limited (suite : Suite) (sent : List Sent) : Suite :=
  { suite with
    openWith := fun key nonce sealed_ data =>
      if ∃ x ∈ seals suite sent,
          x.key = key ∧ x.nonce = nonce ∧ x.bytes suite = sealed_ ∧ x.data = data
      then suite.openWith key nonce sealed_ data else none }

section Limited

variable {suite : Suite} (hs : suite.OpensSealed) {sent : List Sent}

include hs

theorem opensOnly_limited : OpensOnly (limited suite sent) sent where
  only h := by
    obtain ⟨hsealed, -⟩ := Option.ite_none_right_eq_some.mp h
    exact hsealed
  opens {x} h := by
    refine (if_pos ⟨x, h, rfl, rfl, rfl, rfl⟩).trans ?_
    obtain ⟨s, -, rfl | rfl⟩ := mem_seals.mp h
    · exact (hs.open_iff (length_wrapKey _ _) s.coins.wrapNonce_length _ _ _).mpr rfl
    · exact (hs.open_iff s.coins.sessionKey_length s.coins.payloadNonce_length _ _ _).mpr rfl

theorem length_bytes_of_mem {x : Seal} (h : x ∈ seals suite sent) :
    (x.bytes suite).length = x.message.length + Protocol.tagSize := by
  obtain ⟨s, -, rfl | rfl⟩ := mem_seals.mp h
  · exact hs.length_seal (length_wrapKey _ _) s.coins.wrapNonce_length _ _
  · exact hs.length_seal s.coins.sessionKey_length s.coins.payloadNonce_length _ _

end Limited

/-! ## A splice -/

/-- A message of two bytes, and one of three, to the same key. -/
def sampleTwo : Sent := ⟨.ofBytes [1], [7, 8], (KeyPair.filled 1).publicKey, by decide⟩

def sampleThree : Sent := ⟨.ofBytes [2], [7, 8, 9], (KeyPair.filled 1).publicKey, by decide⟩

/-- The envelope of the one opens to it, and all before its payload together with the payload of the
other is refused. -/
theorem accepted_only_sent_splice :
    let suite := limited openSuite [sampleTwo, sampleThree]
    let secret := (KeyPair.filled 1).secretKey
    decrypt suite (sampleTwo.blob suite) secret = .ok [7, 8] ∧
      decrypt suite (sampleTwo.front suite ++ (sampleThree.payload suite).bytes suite) secret =
        .error .decryption := by
  intro suite secret
  have hs : openSuite.OpensSealed := Suite.opensSealed_gcm rfl rfl
  have honly : OpensOnly suite [sampleTwo, sampleThree] := opensOnly_limited hs
  have hlength {s : Sent} (hmem : s ∈ [sampleTwo, sampleThree]) :
      ((s.payload suite).bytes suite).length = s.message.length + Protocol.tagSize :=
    length_bytes_of_mem hs (mem_seals.mpr ⟨s, hmem, .inr rfl⟩)
  refine ⟨?_, (accepted_only_sent honly _ secret).2 fun s hmem hseal => ?_⟩
  · have hpair : isPair suite (.filled 1) sampleTwo.coins.kemSeed = true := by decide +kernel
    exact decrypt_blob honly (fun x hx => length_bytes_of_mem hs hx) (List.mem_cons_self ..) rfl hpair
  · rw [s.encrypt_eq_blob suite] at hseal
    have hblob := Except.ok.inj hseal
    have htwo := hlength (List.mem_cons_self ..)
    have hthree := hlength (List.mem_cons_of_mem _ (List.mem_cons_self ..))
    simp only [List.mem_cons, List.not_mem_nil, or_false] at hmem
    rcases hmem with rfl | rfl
    · -- The payloads differ in length.
      have hpayload := List.append_cancel_left hblob
      rw [hpayload, hthree] at htwo
      exact absurd htwo (by decide)
    · -- What stands before them differs in the length that it tells.
      have hfront := List.append_cancel_right hblob
      have hsize := (List.append_inj' hfront rfl).2
      exact absurd hsize (by decide)

end Envelope

end AddressExchange
