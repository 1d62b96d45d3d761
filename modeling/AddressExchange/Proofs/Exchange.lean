import AddressExchange.Exchange.Local
import AddressExchange.Proofs.Cipher
import AddressExchange.Proofs.Pool.Allocation
import AddressExchange.Proofs.Pool.Change

/-!
# An exchange brings what the pool allocates

Under a cipher that opens what it encrypts, nothing but the rounding of dates to milliseconds comes
between the pool of a Matcher in the same process and the wallet that asks it. If the cipher does not
take the request or the response, the wallet receives a failure.
-/

namespace AddressExchange

/-! ## The two sides -/

/-- The Matcher encrypts what it allocates for the date that reached it. -/
theorem Responder.handle_eq {r : Responder} {random blob : Bytes} {date : Option Instant}
    {id : PayerId} {replyKey : PublicKey} (hdate : ∀ t ∈ date, t.IsPlain)
    (hblob : r.cipher.decrypt blob r.secretKey =
      .ok (Wire.encodeRequest (.make id date replyKey))) :
    r.handle random blob = r.cipher.encrypt random (Wire.encodeResponse
      (Allocation.allocate r.source (date.map Instant.floorMillis) r.now)) replyKey := by
  have hrequest := Wire.decodeRequest_encodeRequest hdate id replyKey
  rw [handle, run, hblob]
  simp only [Except.mapError, bind, Except.bind, hrequest]
  rw [respond]
  simp only [Request.make]
  cases r.cipher.encrypt random (Wire.encodeResponse
    (Allocation.allocate r.source (date.map Instant.floorMillis) r.now)) replyKey <;> rfl

theorem Responder.run_post {σ : Type} {r : Responder} {random blob reply : Bytes}
    (h : r.handle random blob = .ok reply) (s : σ) :
    (r.post random blob).run s = (.ok reply, s) := by
  rw [post, h]
  rfl

/-- An exchange whose parts succeed is decoded in the end. -/
theorem Exchange.send_eq_ok {σ : Type} {cipher : Cipher} {random blob answer plain : Bytes}
    {post : Transport σ} {x : Exchange} {response : Response} {s s' : σ} (hx : x.state = .built)
    (hblob : cipher.encrypt random (Wire.encodeRequest x.request) x.matcherKey = .ok blob)
    (hpost : (post blob).run s = (.ok answer, s'))
    (hplain : cipher.decrypt answer x.replyKeys.secretKey = .ok plain)
    (hresponse : Wire.decodeResponse plain = .ok response) :
    (x.send cipher random post).run s =
      (({ x with state := .decoded }, .ok response.allocation), s') := by
  have hseal : x.sealRequest cipher random = ({ x with state := .encrypted }, .ok blob) := by
    rw [sealRequest, if_neg (not_not_intro hx)]
    dsimp only
    rw [hblob]
  have hopen : ({ x with state := .sent } : Exchange).openAnswer cipher answer =
      ({ x with state := .decoded }, .ok response.allocation) := by
    rw [openAnswer, if_neg fun h => h.2 rfl]
    simp only [hplain, hresponse]
  unfold send
  rw [hseal]
  simp only [StateT.run_bind, hpost]
  exact congrArg (·, s') hopen

/-- An exchange that brings something has encrypted its request, and got an answer to that. -/
theorem Exchange.of_send_ok {σ : Type} {cipher : Cipher} {random : Bytes} {post : Transport σ}
    {x : Exchange} {s : σ} {a : Allocation} (hx : x.state = .built)
    (h : ((x.send cipher random post).run s).1.2 = .ok a) :
    ∃ blob answer, cipher.encrypt random (Wire.encodeRequest x.request) x.matcherKey = .ok blob ∧
      ((post blob).run s).1 = .ok answer := by
  unfold send sealRequest at h
  rw [if_neg (not_not_intro hx)] at h
  dsimp only at h
  cases hblob : cipher.encrypt random (Wire.encodeRequest x.request) x.matcherKey with
  | error e =>
    rw [hblob] at h
    cases h
  | ok blob =>
    simp only [hblob, StateT.run_bind] at h
    cases hpost : (post blob).run s with
    | mk result s' =>
      rw [hpost] at h
      cases result with
      | error e => cases h
      | ok answer => exact ⟨blob, answer, rfl, congrArg Prod.fst hpost⟩

/-! ## The parties of an exchange -/

/-- The two parties of all exchanges. -/
structure Parties where
  cipher : Cipher
  matcherKeys : KeyPair
  payerId : PayerId

/-- What is random about one exchange. -/
structure ExchangeSeeds where
  replyKeys : Bytes
  request : Bytes
  answer : Bytes

namespace Parties

variable (parties : Parties) (seeds : ExchangeSeeds) (source : AddressSource)
  (date : Option Instant) (now : Instant)

/-- The exchange in which the payer asks with a date. -/
def exchange : Exchange :=
  let keys := parties.cipher.generate seeds.replyKeys
  ⟨.built, .make parties.payerId date keys.publicKey, keys, parties.matcherKeys.publicKey⟩

/-- The Matcher with a pool at an instant. -/
def responder : Responder := ⟨parties.cipher, parties.matcherKeys.secretKey, source, now⟩

/-- Does the cipher open what it encrypts in an exchange? -/
structure Opens : Prop where
  request : parties.cipher.Opens parties.matcherKeys seeds.request
  answer : parties.cipher.Opens (parties.cipher.generate seeds.replyKeys) seeds.answer

/-- Does the cipher take the request of an exchange, and the response to it? -/
structure Sends : Prop where
  request : parties.cipher.Takes seeds.request
    (Wire.encodeRequest (parties.exchange seeds date).request) parties.matcherKeys.publicKey
  answer : parties.cipher.Takes seeds.answer
    (Wire.encodeResponse (Allocation.allocate source (date.map Instant.floorMillis) now))
    (parties.cipher.generate seeds.replyKeys).publicKey

/-! ### The ciphers there are -/

variable {seeds source date now}

theorem opens_labelled (refused : UInt8) (reason : String) (b : UInt8) (id : PayerId) :
    (⟨.labelled refused reason, .filled b, id⟩ : Parties).Opens seeds where
  request := Cipher.opens_labelled reason _
  answer := Cipher.opens_labelled reason _

theorem sends_labelled {refused b : UInt8} {reason : String} {id : PayerId} (hmatcher : b ≠ refused)
    (hreply : seeds.replyKeys.headD 0 ≠ refused) :
    (⟨.labelled refused reason, .filled b, id⟩ : Parties).Sends seeds source date now where
  request := Cipher.takes_labelled reason _ _ hmatcher
  answer := Cipher.takes_labelled reason _ _ hreply

theorem opens_envelope {suite : Suite} (hs : suite.OpensSealed) {keys : KeyPair} {id : PayerId}
    (hmatcher : Envelope.isPair suite keys (Envelope.Coins.ofBytes seeds.request).kemSeed = true)
    (hreply : Envelope.isPair suite (suite.generate seeds.replyKeys)
      (Envelope.Coins.ofBytes seeds.answer).kemSeed = true) :
    (⟨Envelope.cipher suite, keys, id⟩ : Parties).Opens seeds where
  request := Envelope.opens_cipher hs hmatcher
  answer := Envelope.opens_cipher hs hreply

/-- Envelopes take all requests, and a response unless it is too long. -/
theorem sends_envelope {suite : Suite} {keys : KeyPair} {id : PayerId} :
    (⟨Envelope.cipher suite, keys, id⟩ : Parties).Sends seeds source date now ↔
      (Wire.encodeResponse (Allocation.allocate source (date.map Instant.floorMillis) now)).length +
        Protocol.tagSize < UInt32.size := by
  constructor
  · intro h
    exact Envelope.takes_cipher.mp h.answer
  · intro h
    refine ⟨Envelope.takes_cipher.mpr ?_, Envelope.takes_cipher.mpr h⟩
    have hrequest := Wire.length_encodeRequest_le id date (suite.generate seeds.replyKeys).publicKey
    exact (Nat.add_le_add_right hrequest Protocol.tagSize).trans_lt (by decide)

end Parties

/-! ## The whole exchange -/

/-- What reaches a payer of the response of a pool: its dates are in milliseconds. -/
def Pool.received (p : Pool) (date : Option Instant) (now : Instant) : Allocation :=
  let response := Allocation.allocate p.source (date.map Instant.floorMillis) now
  ⟨response.addresses, response.replayDate.map Instant.floorMillis⟩

/-- The response of a pool in order is read back with its date in milliseconds, if that is in no leap
second. -/
theorem Pool.WellFormed.decodeResponse {p : Pool} (h : p.WellFormed) {prior : Option Instant}
    {now : Instant}
    (hdate : ∀ t ∈ (Allocation.allocate p.source prior now).replayDate, t.IsPlain) :
    let response := Allocation.allocate p.source prior now
    Wire.decodeResponse (Wire.encodeResponse response) =
      .ok (.make (response.replayDate.map Instant.floorMillis) response.addresses) := by
  intro response
  have haddresses : ∀ a ∈ response.addresses, Wire.IsRow a :=
    fun _ ha => Allocation.isRow_of_mem_allocate h ha
  have hmake : response = .make response.replayDate response.addresses :=
    Allocation.allocate_eq_make_self p.source prior now
  conv_lhs => rw [hmake]
  exact Wire.decodeResponse_encodeResponse hdate haddresses

/-- The date of a response is in no leap second if no instant of the pool and no date that is named
is. -/
theorem Pool.WellFormed.plain_replayDate {p : Pool} (h : p.WellFormed)
    (hp : p.AllInstants Instant.IsPlain) {prior : Option Instant} (hprior : ∀ t ∈ prior, t.IsPlain)
    {now : Instant} : ∀ t ∈ (Allocation.allocate p.source prior now).replayDate, t.IsPlain := by
  intro t ht
  cases Allocation.replayDate_mem h ht with
  | inl hd => exact hprior t hd
  | inr hentry =>
    obtain ⟨e, he, rfl⟩ := hentry
    exact hp e he

/-- Envelopes take the response of a pool in order, unless that has millions of entries. -/
theorem Parties.sends_envelope_of_size {suite : Suite} {keys : KeyPair} {id : PayerId}
    {seeds : ExchangeSeeds} {p : Pool} (h : p.WellFormed)
    (hsize : p.cohort.length + p.entries.size ≤ 2 ^ 24) (date : Option Instant) (now : Instant) :
    (⟨Envelope.cipher suite, keys, id⟩ : Parties).Sends seeds p.source date now := by
  have hlength : (Wire.encodeResponse
      (Allocation.allocate p.source (date.map Instant.floorMillis) now)).length ≤ _ :=
    Allocation.length_encodeResponse_le h
  have hrows := Nat.mul_le_mul_right (addressSizeLimit + 1) hsize
  have hall := Nat.add_le_add_right (hlength.trans (Nat.add_le_add_left hrows 83)) Protocol.tagSize
  exact sends_envelope.mpr (hall.trans_lt (by decide))

namespace Parties

variable {σ : Type} {parties : Parties} {seeds : ExchangeSeeds} {source : AddressSource}
  {date : Option Instant} {now : Instant} {post : Exchange.Transport σ} {s : σ}
  (hopens : parties.Opens seeds) (hdate : ∀ t ∈ date, t.IsPlain)

include hopens hdate

/-- The Matcher encrypts what it allocates for the date of the payer. -/
theorem handle_request {blob : Bytes}
    (hblob : parties.cipher.encrypt seeds.request
      (Wire.encodeRequest (parties.exchange seeds date).request) parties.matcherKeys.publicKey =
        .ok blob) :
    (parties.responder source now).handle seeds.answer blob =
      parties.cipher.encrypt seeds.answer (Wire.encodeResponse
        (Allocation.allocate source (date.map Instant.floorMillis) now))
        (parties.cipher.generate seeds.replyKeys).publicKey :=
  Responder.handle_eq hdate (hopens.request _ _ hblob)

/-- A payer receives what it reads of the response of the Matcher, whatever way leads there. -/
theorem send_over (hsends : parties.Sends seeds source date now)
    (hpost : ∀ blob reply,
      parties.cipher.encrypt seeds.request
        (Wire.encodeRequest (parties.exchange seeds date).request) parties.matcherKeys.publicKey =
          .ok blob →
      (parties.responder source now).handle seeds.answer blob = .ok reply →
      (post blob).run s = (.ok reply, s))
    {response : Response} (hresponse : Wire.decodeResponse (Wire.encodeResponse
      (Allocation.allocate source (date.map Instant.floorMillis) now)) = .ok response) :
    ((parties.exchange seeds date).send parties.cipher seeds.request post).run s =
      (({ parties.exchange seeds date with state := .decoded }, .ok response.allocation), s) := by
  obtain ⟨⟨blob, hblob⟩, reply, hreply⟩ := hsends
  have hhandle := (handle_request hopens hdate hblob).trans hreply
  have hplain := hopens.answer _ _ hreply
  exact Exchange.send_eq_ok rfl hblob (hpost blob reply hblob hhandle) hplain hresponse

/-- A payer that receives something has been sent it by the Matcher. -/
theorem sends_of_send (hpost : ∀ blob answer, ((post blob).run s).1 = .ok answer →
      (parties.responder source now).handle seeds.answer blob = .ok answer) {a : Allocation}
    (h : (((parties.exchange seeds date).send parties.cipher seeds.request post).run s).1.2 = .ok a) :
    parties.Sends seeds source date now := by
  obtain ⟨blob, answer, hblob, hanswer⟩ := Exchange.of_send_ok rfl h
  refine ⟨⟨blob, hblob⟩, answer, ?_⟩
  rw [← handle_request hopens hdate hblob]
  exact hpost blob answer hanswer

end Parties

/-- The response of a pool in order for a date outside leap seconds is what a payer receives. -/
theorem Pool.WellFormed.decode_received {p : Pool} (h : p.WellFormed)
    (hp : p.AllInstants Instant.IsPlain) {date : Option Instant} (hdate : ∀ t ∈ date, t.IsPlain)
    (now : Instant) :
    ∃ response, response.allocation = p.received date now ∧
      Wire.decodeResponse (Wire.encodeResponse
        (Allocation.allocate p.source (date.map Instant.floorMillis) now)) = .ok response := by
  have hprior : ∀ t ∈ date.map Instant.floorMillis, t.IsPlain := by
    intro t ht
    obtain ⟨d, hd, rfl⟩ := Option.map_eq_some_iff.mp ht
    exact (Instant.isLeap_floorMillis d).trans (hdate d hd)
  exact ⟨_, rfl, h.decodeResponse (h.plain_replayDate hp hprior)⟩

/-- What a payer receives of a pool in order is what the pool allocates. -/
theorem Pool.WellFormed.exchange {σ : Type} {p : Pool} (h : p.WellFormed)
    (hp : p.AllInstants Instant.IsPlain) {parties : Parties} {seeds : ExchangeSeeds}
    (hopens : parties.Opens seeds) {date : Option Instant} (hdate : ∀ t ∈ date, t.IsPlain)
    {now : Instant} (hsends : parties.Sends seeds p.source date now) (s : σ) :
    ((parties.exchange seeds date).send parties.cipher seeds.request
      ((parties.responder p.source now).post seeds.answer)).run s =
        (({ parties.exchange seeds date with state := .decoded }, .ok (p.received date now)), s) := by
  obtain ⟨response, hreceived, hresponse⟩ := h.decode_received hp hdate now
  rw [← hreceived]
  exact Parties.send_over hopens hdate hsends
    (fun _ _ _ hhandle => Responder.run_post hhandle s) hresponse

/-- For each pool that changes outside leap seconds lead to, an exchange with the Matcher in the
same process brings what the pool allocates for the date in milliseconds, whoever asks and with
whatever keys, if the cipher takes the request and the response and opens what it encrypted. -/
theorem Exchange.send_received {σ : Type} (cipher : Cipher) (matcherKeys : KeyPair)
    (keySeed sealSeed answerSeed : Bytes) (hmatcher : cipher.Opens matcherKeys sealSeed)
    (hreply : cipher.Opens (cipher.generate keySeed) answerSeed) (config : PoolConfig)
    (changes : List Pool.Change) (hchanges : ∀ c ∈ changes, c.AllInstants Instant.IsPlain)
    (now : Instant) (date : Option Instant) (hdate : ∀ t ∈ date, t.IsPlain) (id : PayerId) (s : σ) :
    let p := ({ config } : Pool).applyAll changes
    let response := Allocation.allocate p.source (date.map Instant.floorMillis) now
    let replyKey := (cipher.generate keySeed).publicKey
    cipher.Takes sealSeed (Wire.encodeRequest (.make id date replyKey)) matcherKeys.publicKey →
    cipher.Takes answerSeed (Wire.encodeResponse response) replyKey →
    ∃ x, build cipher keySeed matcherKeys.publicKey (some id) date = .ok x ∧
      (x.send cipher sealSeed
        (Responder.post ⟨cipher, matcherKeys.secretKey, p.source, now⟩ answerSeed)).run s =
          (({ x with state := .decoded },
            .ok ⟨response.addresses, response.replayDate.map Instant.floorMillis⟩), s) := by
  intro p response replyKey hrequest hresponse
  have h := Pool.wellFormed_empty config
  have hp : ({ config } : Pool).AllInstants Instant.IsPlain :=
    fun e he => absurd he List.not_mem_nil
  let parties : Parties := ⟨cipher, matcherKeys, id⟩
  let seeds : ExchangeSeeds := ⟨keySeed, sealSeed, answerSeed⟩
  have hopens : parties.Opens seeds := ⟨hmatcher, hreply⟩
  have hsends : parties.Sends seeds p.source date now := ⟨hrequest, hresponse⟩
  exact ⟨parties.exchange seeds date, rfl,
    (h.applyAll changes).exchange (hp.applyAll h hchanges) hopens hdate hsends s⟩

/-- Two addresses, a rotation to the newer one, and a first contact. -/
theorem Exchange.send_received_first_contact :
    let cipher := Cipher.labelled 0 "refused"
    let p := ({ config := { cohortSize := 1 } } : Pool).applyAll
      [.activate " 1A " (.early 1 0),
        .importAll [⟨"1B", .early 3 1500000⟩],
        .rotateIfDue (.early 4 0)]
    ∃ x, build cipher [2] (KeyPair.filled 1).publicKey (some (.filled 7)) none = .ok x ∧
      (x.send cipher [] (Responder.post
        ⟨cipher, (KeyPair.filled 1).secretKey, p.source, .early 5 0⟩ [])).run () =
          (({ x with state := .decoded },
            .ok ⟨["1B"], some (.early 3 1000000)⟩), ()) := by
  intro cipher p
  have haddresses : (Allocation.allocate p.source none (.early 5 0)).addresses =
      ["1B"] := by decide +kernel
  have hdate : (Allocation.allocate p.source none
      (.early 5 0)).replayDate.map Instant.floorMillis =
        some (.early 3 1000000) := by decide +kernel
  have hmatcher : cipher.Opens (.filled 1) [] := Cipher.opens_labelled _ _
  have hreply : cipher.Opens (.filled 2) [] := Cipher.opens_labelled _ _
  have hnone : ∀ t ∈ (none : Option Instant), t.IsPlain :=
    fun t ht => absurd ht (Option.not_mem_none t)
  rw [← haddresses, ← hdate]
  refine send_received cipher (.filled 1) [2] [] [] hmatcher hreply _ _ ?_ _ none hnone _ () ?_ ?_
  · simp [Pool.Change.AllInstants, Instant.IsPlain]
  · exact Cipher.takes_labelled _ _ _ (by decide)
  · exact Cipher.takes_labelled (b := 2) _ _ _ (by decide)

end AddressExchange
