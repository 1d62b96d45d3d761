import AddressExchange.Proofs.Envelope
import AddressExchange.Proofs.Host.Serving
import AddressExchange.Proofs.Wire.Grammar

/-!
# Rejected exchanges look alike

An exchange fails because its envelope does not open, because the message in it is none, or because
the reply cannot be sealed. Who sent it cannot tell the first two apart: whatever was wrong, and
whatever the key and the pool of the Matcher are, the answer is the same. Only the third is told as
trouble of the host.
-/

namespace AddressExchange

open Web

/-- Is a failure that of an envelope or of the message in it? -/
inductive Failure.IsRejection : Failure → Prop where
  | decryption : IsRejection .decryption
  | versionMismatch (expected : Nat) (found : String) : IsRejection (.versionMismatch expected found)
  | malformed (why : Malformed) : IsRejection (.malformed why)

theorem Failure.IsRejection.ofFailure {e : Failure} (h : e.IsRejection) :
    Refusal.ofFailure e = .exchange := by
  cases h <;> rfl

/-- Bytes that cannot be decoded are of another version or malformed. -/
theorem Wire.isRejection_of_decodeRequest {bs : Bytes} {e : Failure}
    (h : decodeRequest bs = .error e) : e.IsRejection := by
  rcases decodeRequest_eq_error h with hfault | ⟨-, why, rfl⟩
  · cases hfault with
    | version => exact .versionMismatch _ _
    | notText | noDate | date | range => exact .malformed _
  · exact .malformed why

/-! ## The responder -/

namespace Responder

/-- How an exchange may fail. -/
inductive FailsAt (r : Responder) (random blob : Bytes) : Stage → Failure → Prop where
  | closed {e : Failure} (h : r.cipher.decrypt blob r.secretKey = .error e) :
      FailsAt r random blob .received e
  | garbled {plain : Bytes} {e : Failure} (hplain : r.cipher.decrypt blob r.secretKey = .ok plain)
      (h : Wire.decodeRequest plain = .error e) : FailsAt r random blob .decrypted e
  | unsealed {plain : Bytes} {request : Request} {e : Failure}
      (hplain : r.cipher.decrypt blob r.secretKey = .ok plain)
      (hrequest : Wire.decodeRequest plain = .ok request)
      (h : r.cipher.encrypt random (Wire.encodeResponse (r.respond request)) request.replyKey =
        .error e) : FailsAt r random blob .encoded e

variable {r : Responder} {random blob : Bytes} {stage : Stage} {e : Failure}

theorem run_eq_error : r.run random blob = .error (stage, e) ↔ r.FailsAt random blob stage e := by
  constructor
  · intro h
    unfold run at h
    cases hplain : r.cipher.decrypt blob r.secretKey with
    | error f =>
      rw [hplain] at h
      cases h
      exact .closed hplain
    | ok plain =>
      rw [hplain] at h
      simp only [Except.mapError, bind, Except.bind] at h
      cases hrequest : Wire.decodeRequest plain with
      | error f =>
        rw [hrequest] at h
        cases h
        exact .garbled hplain hrequest
      | ok request =>
        rw [hrequest] at h
        dsimp only at h
        cases hreply : r.cipher.encrypt random (Wire.encodeResponse (r.respond request))
            request.replyKey with
        | error f =>
          rw [hreply] at h
          cases h
          exact .unsealed hplain hrequest hreply
        | ok reply =>
          rw [hreply] at h
          cases h
  · intro h
    cases h with
    | closed h => simp only [run, h, Except.mapError, bind, Except.bind]
    | garbled hplain h => simp only [run, hplain, h, Except.mapError, bind, Except.bind]
    | unsealed hplain hrequest h =>
      simp only [run, hplain, hrequest, h, Except.mapError, bind, Except.bind]

theorem handle_of_run (h : r.run random blob = .error (stage, e)) :
    r.handle random blob = .error e := by
  rw [handle, h]
  rfl

/-- With envelopes, what fails before the reply is sealed is a rejection. -/
theorem isRejection_of_run {suite : Suite} (hcipher : r.cipher = Envelope.cipher suite)
    (h : r.run random blob = .error (stage, e)) (hstage : stage ≠ .encoded) : e.IsRejection := by
  cases run_eq_error.mp h with
  | closed h =>
    rw [hcipher] at h
    rw [Envelope.decrypt_eq_error h]
    exact .decryption
  | garbled _ h => exact Wire.isRejection_of_decodeRequest h
  | unsealed => exact absurd rfl hstage

end Responder

/-! ## Over the web -/

/-- Does a request bring an exchange that is not too long? -/
structure Asked.IsExchange (s : Settings) (q : Asked) : Prop where
  method : q.request.method = "POST"
  path : q.request.path = "/brit"
  body : q.request.body.length ≤ s.bodyLimit
  declared : ∀ n ∈ q.request.declaredLength, q.request.body.length ≤ n ∧ n ≤ s.bodyLimit

namespace Serving

/-- The responder that a request meets. -/
def responder (w : Serving) (q : Asked) : Responder :=
  ⟨q.around.cipher, w.host.secretKey, w.host.pool.source, q.around.now⟩

/-- Does a request bring an exchange that fails before the reply is sealed? -/
structure Rejects (w : Serving) (q : Asked) : Prop where
  exchange : q.IsExchange w.host.settings
  fails : ∃ stage e, (w.responder q).run q.around.random q.request.body = .error (stage, e) ∧
    stage ≠ .encoded

variable {w : Serving} {q : Asked}

/-- What the responder makes of a request, as an answer. -/
def handled (w : Serving) (q : Asked) : HttpAnswer :=
  match (w.responder q).handle q.around.random q.request.body with
  | .ok blob => { status := .ok, contentType := some Protocol.envelopeContentType, body := blob }
  | .error e => .refusal (.ofFailure e)

theorem exchange_eq (w : Serving) (q : Asked) :
    w.host.exchange q.around q.request =
      if Host.bringsTooMuch w.host.settings q.request then Host.tooLarge else w.handled q := rfl

/-- A post to the exchange is too large or handled by the responder, and changes nothing. -/
theorem respond_of_post (hmethod : q.request.method = "POST") (hpath : q.request.path = "/brit") :
    w.respond q =
      (q.granted (if Host.declaresTooMuch w.host.settings q.request then Host.tooLarge
        else w.host.exchange q.around q.request), w) := by
  have hroute : Route.ofPath? q.request.path = some .exchange := Route.ofPath?_eq_some.mpr hpath
  refine respond_of_answer ?_ (Host.answer_of_exchange w.files hroute hmethod)
  rintro ⟨-, hoptions⟩
  simp [hmethod] at hoptions

/-- An exchange that is not too long is answered as the responder handles it. -/
theorem respond_of_isExchange (h : q.IsExchange w.host.settings) :
    w.respond q = (q.granted (w.handled q), w) := by
  have hdeclares : Host.declaresTooMuch w.host.settings q.request = false := by
    rw [Host.declaresTooMuch, Option.any_eq_false]
    exact fun n hn => decide_eq_false (Nat.not_lt.mpr (h.declared n hn).2)
  have hbrings : Host.bringsTooMuch w.host.settings q.request = false := by
    refine decide_eq_false (Nat.not_lt.mpr (Nat.le_min.mpr ⟨h.body, ?_⟩))
    cases hlength : q.request.declaredLength with
    | none => exact h.body
    | some n => exact (h.declared n hlength).1
  rw [respond_of_post h.method h.path, hdeclares, exchange_eq, hbrings]
  rfl

/-- There is one answer to all that is rejected. -/
theorem respond_of_rejects {suite : Suite} (hcipher : q.around.cipher = Envelope.cipher suite)
    (h : w.Rejects q) : w.respond q = (q.granted (.refusal .exchange), w) := by
  obtain ⟨stage, e, hrun, hstage⟩ := h.fails
  have hrejection : e.IsRejection := Responder.isRejection_of_run hcipher hrun hstage
  rw [respond_of_isExchange h.exchange, handled, Responder.handle_of_run hrun]
  dsimp only
  rw [hrejection.ofFailure]

/-- What is handled with trouble of the host could not be sealed to the key that the request brought.
-/
theorem failsAt_of_handled {suite : Suite} (hcipher : q.around.cipher = Envelope.cipher suite)
    (h : (w.handled q).status = .internalError) :
    ∃ e, (w.responder q).FailsAt q.around.random q.request.body .encoded e := by
  cases hrun : (w.responder q).run q.around.random q.request.body with
  | ok blob =>
    simp only [handled, Responder.handle, hrun, Except.mapError] at h
    cases h
  | error failure =>
    obtain ⟨stage, e⟩ := failure
    by_cases hstage : stage = .encoded
    · exact ⟨e, hstage ▸ Responder.run_eq_error.mp hrun⟩
    · have hrejection : e.IsRejection := Responder.isRejection_of_run hcipher hrun hstage
      simp only [handled, Responder.handle_of_run hrun, hrejection.ofFailure] at h
      cases h

theorem handled_of_trouble (hmethod : q.request.method = "POST") (hpath : q.request.path = "/brit")
    (h : (w.answerTo q).status = .internalError) : (w.handled q).status = .internalError := by
  rw [answerTo, respond_of_post hmethod hpath, exchange_eq] at h
  dsimp only [Asked.granted] at h
  split at h
  · cases h
  · split at h
    · cases h
    · exact h

/-- A responder whose envelopes are of any suite fails before it seals the reply only with a rejection.
Over the web all such failures have one status and one body and leave the host as it is, whatever was
wrong and whatever the key, the pool and the clock were. Trouble of the host is told only if the
message was decoded, and the response to it could not be sealed to the key that it brought. -/
theorem rejected_alike (suite : Suite) :
    (∀ (secret : SecretKey) (source : AddressSource) (now : Instant) (random blob : Bytes)
        (stage : Stage) (e : Failure),
      (⟨Envelope.cipher suite, secret, source, now⟩ : Responder).run random blob =
          .error (stage, e) → stage ≠ .encoded → e.IsRejection) ∧
      (∀ (w v : Serving) (q r : Asked), q.around.cipher = Envelope.cipher suite →
        r.around.cipher = Envelope.cipher suite → w.Rejects q → v.Rejects r →
          (w.answerTo q).status = .badRequest ∧ (v.answerTo r).status = .badRequest ∧
            (w.answerTo q).body = (v.answerTo r).body ∧ w.after q = w) ∧
      ∀ (w : Serving) (q : Asked), q.around.cipher = Envelope.cipher suite →
        q.request.method = "POST" → q.request.path = "/brit" →
          (w.answerTo q).status = .internalError → ∃ plain request e,
            Envelope.decrypt suite q.request.body w.host.secretKey = .ok plain ∧
              Wire.decodeRequest plain = .ok request ∧
              Envelope.encrypt suite (.ofBytes q.around.random)
                (Wire.encodeResponse ((w.responder q).respond request)) request.replyKey =
                  .error e := by
  refine ⟨fun secret source now random blob stage e hrun hstage =>
    Responder.isRejection_of_run rfl hrun hstage, fun w v q r hq hr hw hv => ?_,
    fun w q hcipher hmethod hpath hstatus => ?_⟩
  · have hwq := respond_of_rejects hq hw
    have hvr := respond_of_rejects hr hv
    rw [answerTo, answerTo, after, hwq, hvr]
    exact ⟨rfl, rfl, rfl, rfl⟩
  · have hresponder : (w.responder q).cipher = Envelope.cipher suite := hcipher
    obtain ⟨e, hfails⟩ := failsAt_of_handled hcipher (handled_of_trouble hmethod hpath hstatus)
    cases hfails with
    | unsealed hplain hrequest hseal =>
      rw [hresponder, Envelope.decrypt_cipher] at hplain
      rw [hresponder, Envelope.encrypt_cipher] at hseal
      exact ⟨_, _, e, hplain, hrequest, hseal⟩

/-- Somebody brings a blob that should be an envelope of the suite that hides nothing. -/
def samplePosted (blob : Bytes) (now : Instant) : Asked where
  request := Host.envelope blob
  around := { cipher := Envelope.cipher Envelope.openSuite, random := [], now }

theorem isExchange_samplePosted {blob : Bytes} (h : blob.length ≤ 65536) (now : Instant) :
    (samplePosted blob now).IsExchange Hosting.sampleSettings where
  method := rfl
  path := Host.path_envelope blob
  body := h
  declared n hn := by
    rw [samplePosted, Host.declaredLength_envelope] at hn
    cases hn

theorem decrypt_samplePosted (w : Serving) (blob : Bytes) (now : Instant) :
    (w.responder (samplePosted blob now)).cipher.decrypt = Envelope.decrypt Envelope.openSuite := rfl

/-- One host gets bytes that are no envelope, and another one with other entries gets an envelope
with a message of the second version. -/
theorem rejected_alike_version :
    ∃ blob, Envelope.encrypt Envelope.openSuite (.ofBytes []) (Text.utf8 "2\nnot-present")
          (KeyPair.filled 1).publicKey = .ok blob ∧
      ((sampleHolding #[]).answerTo (samplePosted [1, 2, 3] (.early 1 0))).body =
        ((sampleHolding #[⟨"1A", .early 1 0⟩]).answerTo (samplePosted blob (.early 2 0))).body := by
  have hs : Envelope.openSuite.OpensSealed := Suite.opensSealed_gcm rfl rfl
  obtain ⟨p, hseal, hfits, hlength, hopen⟩ := Envelope.decrypt_encrypt hs (.filled 1) (.ofBytes [])
    (Text.utf8 "2\nnot-present") (by decide +kernel) (by decide +kernel)
  have hmessage : (Text.utf8 "2\nnot-present").length = 13 := by decide +kernel
  have hsize : p.toBytes.length ≤ 65536 := by
    rw [hfits.length_toBytes, hlength, hmessage]
    decide
  have hclosed : (sampleHolding #[]).Rejects (samplePosted [1, 2, 3] (.early 1 0)) := by
    have hdecrypt : Envelope.decrypt Envelope.openSuite [1, 2, 3] (KeyPair.filled 1).secretKey =
        .error .decryption := by decide +kernel
    refine ⟨isExchange_samplePosted (by decide) _, .received, .decryption, ?_, nofun⟩
    refine Responder.run_eq_error.mpr (.closed ?_)
    rw [decrypt_samplePosted]
    exact hdecrypt
  have hversion : (sampleHolding #[⟨"1A", .early 1 0⟩]).Rejects
      (samplePosted p.toBytes (.early 2 0)) := by
    have hdecode : Wire.decodeRequest (Text.utf8 "2\nnot-present") =
        .error (.versionMismatch 1 "2") := by decide +kernel
    refine ⟨isExchange_samplePosted hsize _, .decrypted, .versionMismatch 1 "2", ?_, nofun⟩
    refine Responder.run_eq_error.mpr (.garbled ?_ hdecode)
    rw [decrypt_samplePosted]
    exact hopen
  obtain ⟨-, -, hbody, -⟩ := (rejected_alike Envelope.openSuite).2.1 _ _ _ _ rfl rfl hclosed hversion
  exact ⟨p.toBytes, hseal, hbody⟩

end Serving

end AddressExchange
