import AddressExchange.Host
import AddressExchange.Proofs.Pool.Stored

/-!
# What happens to a host

A request leaves a host and its files as they are, unless an administrator adds an address. A look
does so unless a rotation is due. In both cases the pool is written, and it is the same whether that
succeeds or not.
-/

namespace AddressExchange

open Web

/-- The media type of JSON. -/
theorem Web.MediaType.parse_json :
    MediaType.parse "application/json" = some ⟨"application", "json", none⟩ := by
  have htoken : MediaType.isToken =
      fun c => c.isAlphanum || "!#$%&'*+-.^_`|~".toList.contains c := by
    funext c
    simp [MediaType.isToken]
  unfold MediaType.parse
  rw [htoken]
  decide +kernel

/-- Does a status say that the fault is with the request? -/
def Web.Status.BlamesRequest (s : Status) : Prop := 400 ≤ s.code ∧ s.code < 500

namespace Web.Status.BlamesRequest

instance (s : Status) : Decidable s.BlamesRequest := inferInstanceAs (Decidable (_ ∧ _))

variable {s : Status} (h : s.BlamesRequest)

include h

theorem ne_ok : s ≠ .ok := by
  rintro rfl
  exact absurd h (by decide)

theorem ne_internalError : s ≠ .internalError := by
  rintro rfl
  exact absurd h (by decide)

end Web.Status.BlamesRequest

/-- A path has the route whose path it is. -/
theorem Route.ofPath?_eq_some {path : String} {route : Route} :
    Route.ofPath? path = some route ↔ path = route.path := by
  constructor
  · intro h
    have hfound := List.find?_some h
    exact (of_decide_eq_true hfound).symm
  · rintro rfl
    cases route <;> decide +kernel

/-! ## Held pools -/

namespace HeldPool

/-- The pool takes an address as it does alone. -/
theorem map_pool_activate (h : HeldPool) (text : String) (at_ : Instant) :
    (h.activate text at_).map pool = h.pool.activate text at_ := by
  cases h with
  | memory p =>
    simp only [activate, pool]
    cases p.activate text at_ <;> rfl
  | stored p =>
    simp only [activate, StoredPool.activate, pool]
    cases p.pool.activate text at_ <;> rfl

theorem pool_activate {h h' : HeldPool} {text : String} {at_ : Instant}
    (ha : h.activate text at_ = .ok h') : h.pool.activate text at_ = .ok h'.pool := by
  rw [← map_pool_activate, ha]
  rfl

theorem activate_of_error {h : HeldPool} {text : String} {at_ : Instant} {e : Failure}
    (hp : h.pool.activate text at_ = .error e) : h.activate text at_ = .error e := by
  rw [← map_pool_activate] at hp
  cases ha : h.activate text at_ with
  | ok pool =>
    rw [ha] at hp
    cases hp
  | error e' =>
    rw [ha] at hp
    exact congrArg _ (Except.error.inj hp)

theorem invalidAddress_of_activate {h : HeldPool} {text : String} {at_ : Instant} {e : Failure}
    (ha : h.activate text at_ = .error e) : ∃ reason, e = .invalidAddress reason := by
  have hpool : h.pool.activate text at_ = .error e := by
    rw [← map_pool_activate, ha]
    rfl
  exact Pool.invalidAddress_of_activate hpool

theorem pool_rotate (h : HeldPool) (now : Instant) : (h.rotate now).pool = h.pool.rotate now := by
  cases h <;> rfl

theorem rotateIfDue_of_due (h : HeldPool) {now : Instant} (hdue : h.pool.isDue now = true) :
    h.rotateIfDue now = (h.rotate now, true) := by
  cases h with
  | memory p =>
    simp only [pool] at hdue
    simp only [rotateIfDue, Pool.rotateIfDue, hdue, if_true, rotate]
  | stored p =>
    simp only [pool] at hdue
    simp only [rotateIfDue, StoredPool.rotateIfDue, Pool.rotateIfDue, hdue, if_true, rotate,
      StoredPool.rotate, Bool.or_true]

theorem rotateIfDue_of_not_due (h : HeldPool) {now : Instant} (hdue : h.pool.isDue now = false) :
    h.rotateIfDue now = (h, false) := by
  cases h with
  | memory p =>
    simp only [pool] at hdue
    simp only [rotateIfDue, Pool.rotateIfDue, hdue, Bool.false_eq_true, if_false]
  | stored p =>
    simp only [pool] at hdue
    simp only [rotateIfDue, StoredPool.rotateIfDue, Pool.rotateIfDue, hdue, Bool.false_eq_true,
      if_false, Bool.or_false]

/-- The pool stays as it is when it is written, and when it cannot be. -/
theorem pool_persist (h : HeldPool) (fs : Files) : (h.persist.run fs).1.2.pool = h.pool := by
  cases h with
  | memory p => rfl
  | stored p => exact StoredPool.pool_flush p fs

end HeldPool

namespace Host

variable (h : Host) (o : Surroundings) (r : HttpRequest) (fs : Files)

/-- The host with a pool that it has tried to write, and the files then. -/
def written (pool : HeldPool) : Host × Files :=
  let ((_, pool), fs) := pool.persist.run fs
  ({ h with pool }, fs)

@[simp] theorem written_secretKey (pool : HeldPool) :
    (h.written fs pool).1.secretKey = h.secretKey := rfl

@[simp] theorem written_pool (pool : HeldPool) : (h.written fs pool).1.pool.pool = pool.pool :=
  pool.pool_persist fs

theorem run_persist (pool : HeldPool) :
    (persist { h with pool }).run fs =
      (((pool.persist.run fs).1.1, (h.written fs pool).1), (h.written fs pool).2) := rfl

/-! ## Requests -/

/-- Does a request get as far as the pool? -/
structure Asks (activation : Activation) (at_ : Instant) : Prop where
  route : Route.ofPath? r.path = some .addresses
  length : declaresTooMuch h.settings r = false
  authorized : authorize h.settings r = .ok ()
  method : r.method = "POST"
  read : readActivation h.settings r = .ok activation
  instant : (activation.millis.map Instant.ofMillis).getD (.ok o.now) = .ok at_

/-- Does a request make the host add an address to its pool? -/
structure Adds (activation : Activation) (at_ : Instant) (pool : HeldPool) : Prop
    extends Asks h o r activation at_ where
  pool : h.pool.activate activation.address at_ = .ok pool

/-- What is told of an entry that was added and written. -/
def acknowledgement (e : Entry) : HttpAnswer :=
  .json .ok (.object [("address", .text e.address), ("activated_at", .number e.activatedAt.toMillis),
    ("total_addresses", .number h.pool.stats.total)])

theorem status_refusal_ne_ok (reason : Refusal) : (HttpAnswer.refusal reason).status ≠ .ok := by
  cases reason <;> simp [HttpAnswer.refusal, HttpAnswer.json, Refusal.status, Status.ok,
    Status.badRequest, Status.unauthorized, Status.unprocessable, Status.internalError]

theorem isSuccess_refusal (reason : Refusal) :
    (HttpAnswer.refusal reason).status.isSuccess = false := by
  cases reason <;> rfl

variable {h r} in
theorem blames_readActivation {a : HttpAnswer} (ha : readActivation h.settings r = .error a) :
    a.status.BlamesRequest := by
  unfold readActivation at ha
  split at ha
  · cases ha
    exact (by decide : Status.unsupportedMediaType.BlamesRequest)
  · split at ha
    · cases ha
      exact (by decide : Status.payloadTooLarge.BlamesRequest)
    · split at ha
      · cases ha
      · dsimp only at ha
        split at ha <;> cases ha
        · exact (by decide : Status.unprocessable.BlamesRequest)
        · exact (by decide : Status.badRequest.BlamesRequest)

/-- An activation that cannot add an entry leaves all as it is and blames the request. -/
theorem activate_cases :
    (∃ a, a.status.BlamesRequest ∧ (h.activate o r).run fs = ((a, h), fs)) ∨
      ∃ activation at_ pool, readActivation h.settings r = .ok activation ∧
        (activation.millis.map Instant.ofMillis).getD (.ok o.now) = .ok at_ ∧
        h.pool.activate activation.address at_ = .ok pool := by
  unfold activate
  cases hread : readActivation h.settings r with
  | error answer => exact .inl ⟨answer, blames_readActivation hread, rfl⟩
  | ok activation =>
    dsimp only
    cases hinstant : (activation.millis.map Instant.ofMillis).getD (.ok o.now) with
    | error e => exact .inl ⟨_, (by decide : Status.badRequest.BlamesRequest), rfl⟩
    | ok at_ =>
      dsimp only
      cases hpool : h.pool.activate activation.address at_ with
      | error e =>
        obtain ⟨reason, rfl⟩ := HeldPool.invalidAddress_of_activate hpool
        exact .inl ⟨_, (by decide : Status.unprocessable.BlamesRequest), rfl⟩
      | ok pool => exact .inr ⟨activation, at_, pool, rfl, hinstant, hpool⟩

/-- Of the routes only one leads to an activation, and only for administrators. -/
theorem onRoute_cases (route : Route) :
    (∃ a, (h.onRoute o r route).run fs = ((a, h), fs) ∧
        (route = .addresses → r.method = "POST" → a.status.BlamesRequest)) ∨
      route = .addresses ∧ declaresTooMuch h.settings r = false ∧
        authorize h.settings r = .ok () ∧ r.method = "POST" ∧
        (h.onRoute o r route).run fs = (h.activate o r).run fs := by
  unfold onRoute
  cases hlength : declaresTooMuch h.settings r with
  | true =>
    exact .inl ⟨_, rfl, fun _ _ => (by decide : Status.payloadTooLarge.BlamesRequest)⟩
  | false =>
    rw [if_neg Bool.false_ne_true]
    split
    · exact .inl ⟨_, rfl, fun _ _ => (by decide : Status.unauthorized.BlamesRequest)⟩
    · next hwho =>
      by_cases hmethod : route.methods.contains r.method
      · rw [if_pos hmethod]
        cases route with
        | exchange | health | stats => exact .inl ⟨_, rfl, nofun⟩
        | addresses =>
          have hpost : r.method = "POST" := by simpa [Route.methods] using hmethod
          exact .inr ⟨rfl, rfl, hwho, hpost, rfl⟩
      · rw [if_neg hmethod]
        refine .inl ⟨_, rfl, fun haddresses hpost => ?_⟩
        rw [haddresses, hpost] at hmethod
        exact absurd rfl hmethod

/-- On a route that takes posts alone, the answer to a post leaves as it is. -/
theorem leaving_of_post {route : Route} {a : HttpAnswer} (hroute : route.methods = ["POST"])
    (hmethod : r.method = "POST") (hallow : a.allow = none) : leaving (some route) r a = a := by
  obtain ⟨status, contentType, allow, allowOrigin, body⟩ := a
  obtain rfl : allow = none := hallow
  simp [leaving, hmethod, hroute]

section Adding

variable {h o r} {activation : Activation} {at_ : Instant} {pool : HeldPool}

/-- A host with the same settings is asked by the same request, though perhaps at another time. -/
theorem Asks.again {h' : Host} (hasks : h.Asks o r activation at_) (hsettings : h'.settings = h.settings)
    (o' : Surroundings) : ∃ at', h'.Asks o' r activation at' := by
  obtain ⟨hroute, hlength, hwho, hmethod, hread, hinstant⟩ := hasks
  rw [← hsettings] at hlength hwho hread
  cases hmillis : activation.millis with
  | none => exact ⟨o'.now, hroute, hlength, hwho, hmethod, hread, by rw [hmillis]; rfl⟩
  | some millis =>
    rw [hmillis] at hinstant
    exact ⟨at_, hroute, hlength, hwho, hmethod, hread, by rw [hmillis]; exact hinstant⟩

theorem Asks.onRoute_eq (hasks : h.Asks o r activation at_) :
    h.onRoute o r .addresses = h.activate o r := by
  have hwho : (if Route.addresses.isAdmin then authorize h.settings r else .ok ()) = .ok () :=
    hasks.authorized
  rw [onRoute, hasks.length, if_neg Bool.false_ne_true, hwho]
  dsimp only
  rw [hasks.method]
  rfl

/-- A request that the pool refuses is told why, and changes nothing. -/
theorem Asks.answer_of_error (hasks : h.Asks o r activation at_) {e : Failure}
    (hpool : h.pool.activate activation.address at_ = .error e) :
    (h.answer o r).run fs = ((.refusal (.ofFailure e), h), fs) := by
  rw [Host.answer, hasks.route]
  simp only [StateT.run_bind, hasks.onRoute_eq]
  unfold activate
  simp only [hasks.read, hasks.instant, hpool]
  exact congrArg (fun a => ((a, _), _)) (leaving_of_post r rfl hasks.method rfl)

/-- A request that adds an address is told of it if the pool is written, and of the trouble
otherwise. -/
theorem Adds.answer_eq (hadds : h.Adds o r activation at_ pool) :
    (h.answer o r).run fs =
      ((match (pool.persist.run fs).1.1 with
        | .ok () => (h.written fs pool).1.acknowledgement ⟨Text.trim activation.address, at_⟩
        | .error e => .refusal (.ofFailure e),
        (h.written fs pool).1), (h.written fs pool).2) := by
  rw [Host.answer, hadds.route]
  simp only [StateT.run_bind, hadds.onRoute_eq]
  unfold activate
  simp only [hadds.read, hadds.instant, hadds.pool, StateT.run_bind, h.run_persist fs pool]
  cases (pool.persist.run fs).1.1 with
  | ok => exact congrArg (fun a => ((a, _), _)) (leaving_of_post r rfl hadds.method rfl)
  | error e => exact congrArg (fun a => ((a, _), _)) (leaving_of_post r rfl hadds.method rfl)

/-- A request that adds an address does so, whether the pool can be written or not. -/
theorem Adds.answer (hadds : h.Adds o r activation at_ pool) :
    ∃ a, (h.answer o r).run fs = ((a, (h.written fs pool).1), (h.written fs pool).2) :=
  ⟨_, hadds.answer_eq fs⟩

end Adding

/-- A request leaves all as it is, unless it adds an address. It then is blamed if it asked for
that. -/
theorem answer_inv :
    (∃ a, (h.answer o r).run fs = ((a, h), fs) ∧
        (Route.ofPath? r.path = some .addresses → r.method = "POST" → a.status.BlamesRequest)) ∨
      ∃ activation at_ pool, h.Adds o r activation at_ pool := by
  unfold answer
  cases hroute : Route.ofPath? r.path with
  | none => exact .inl ⟨_, rfl, nofun⟩
  | some route =>
    simp only [StateT.run_bind]
    rcases h.onRoute_cases o r fs route with
      ⟨a, ha, hstatus⟩ | ⟨rfl, hlength, hauthorized, hmethod, hactivate⟩
    · rw [ha]
      exact .inl ⟨_, rfl, fun haddresses => hstatus (Option.some.inj haddresses)⟩
    · rw [hactivate]
      rcases h.activate_cases o r fs with
        ⟨a, hstatus, ha⟩ | ⟨activation, at_, pool, hread, hat, hpool⟩
      · rw [ha]
        exact .inl ⟨_, rfl, fun _ _ => hstatus⟩
      · exact .inr ⟨activation, at_, pool, ⟨hroute, hlength, hauthorized, hmethod, hread, hat⟩, hpool⟩

/-- A request leaves all as it is, unless it adds an address. -/
theorem answer_cases :
    (∃ a, (h.answer o r).run fs = ((a, h), fs)) ∨
      ∃ activation at_ pool, h.Adds o r activation at_ pool ∧
        ∃ a, (h.answer o r).run fs = ((a, (h.written fs pool).1), (h.written fs pool).2) := by
  rcases h.answer_inv o r fs with ⟨a, ha, -⟩ | ⟨activation, at_, pool, hadds⟩
  · exact .inl ⟨a, ha⟩
  · exact .inr ⟨activation, at_, pool, hadds, hadds.answer fs⟩

/-! ## Looks -/

/-- A look leaves all as it is, unless a rotation is due. -/
theorem look_cases (now : Instant) :
    (h.pool.pool.isDue now = false ∧ (h.look now).run fs = (h, fs)) ∨
      h.pool.pool.isDue now = true ∧ (h.look now).run fs = h.written fs (h.pool.rotate now) := by
  unfold look
  cases hdue : h.pool.pool.isDue now with
  | false =>
    have hstays : h.pool.rotateIfDue now = (h.pool, false) := h.pool.rotateIfDue_of_not_due hdue
    rw [hstays]
    exact .inl ⟨rfl, rfl⟩
  | true =>
    have hrotates : h.pool.rotateIfDue now = (h.pool.rotate now, true) :=
      h.pool.rotateIfDue_of_due hdue
    rw [hrotates]
    exact .inr ⟨rfl, rfl⟩

/-! ## Exchanges over the web -/

variable {h o r} in
/-- A post to the exchange is too large or handled by the responder, and changes nothing. -/
theorem answer_of_exchange (hroute : Route.ofPath? r.path = some .exchange)
    (hmethod : r.method = "POST") :
    (h.answer o r).run fs =
      ((if declaresTooMuch h.settings r then tooLarge else h.exchange o r, h), fs) := by
  have honRoute : h.onRoute o r .exchange =
      pure (if declaresTooMuch h.settings r then tooLarge else h.exchange o r, h) := by
    have htakes : Route.exchange.methods.contains r.method = true := by
      rw [hmethod]
      rfl
    simp only [onRoute, Route.isAdmin, Bool.false_eq_true, if_false, htakes, if_true]
    split <;> rfl
  have hallow : (if declaresTooMuch h.settings r then tooLarge else h.exchange o r).allow = none := by
    unfold exchange
    split
    · rfl
    · split
      · rfl
      · dsimp only
        split <;> rfl
  rw [answer, hroute]
  simp only [honRoute]
  exact congrArg (fun a => ((a, h), fs)) (leaving_of_post r rfl hmethod hallow)

/-- The request of the web that brings an encrypted request. -/
def envelope (blob : Bytes) : HttpRequest :=
  ⟨"POST", Protocol.matcherPath, [("content-type", Protocol.envelopeContentType)], blob⟩

/-- The way of a payer to a host. -/
def post : Exchange.Transport Files := fun blob => do
  let (a, _) ← h.answer o (envelope blob)
  pure (if a.status.isSuccess then .ok a.body else .error (.transport s!"HTTP {a.status.text}"))

theorem path_envelope (blob : Bytes) : (envelope blob).path = Protocol.matcherPath := by
  have hpath : String.ofList (Protocol.matcherPath.toList.takeWhile fun c => c ≠ '?' && c ≠ '#') =
      Protocol.matcherPath := by decide +kernel
  exact hpath

theorem route_envelope (blob : Bytes) : Route.ofPath? (envelope blob).path = some .exchange :=
  Route.ofPath?_eq_some.mpr (path_envelope blob)

theorem declaredLength_envelope (blob : Bytes) : (envelope blob).declaredLength = none := by
  have hheader : (envelope blob).header? "content-length" = none := rfl
  rw [HttpRequest.declaredLength, hheader, Option.bind_none]

theorem bringsTooMuch_envelope (blob : Bytes) :
    bringsTooMuch h.settings (envelope blob) = decide (h.settings.bodyLimit < blob.length) := by
  rw [bringsTooMuch, declaredLength_envelope, Option.getD_none, Nat.min_self]
  rfl

/-- A post is answered as an exchange, and changes nothing. -/
theorem run_post_eq (blob : Bytes) :
    (h.post o blob).run fs =
      (let a := h.exchange o (envelope blob)
        if a.status.isSuccess then .ok a.body else .error (.transport s!"HTTP {a.status.text}"), fs) := by
  have hdeclared : declaresTooMuch h.settings (envelope blob) = false := by
    rw [declaresTooMuch, declaredLength_envelope, Option.any_none]
  rw [post, StateT.run_bind, answer_of_exchange fs (route_envelope blob) rfl, hdeclared,
    if_neg Bool.false_ne_true]
  rfl

variable {h o fs} in
/-- A payer gets what the responder returns for a request that is not too long, and nothing else. -/
theorem post_eq_ok {blob reply : Bytes} :
    ((h.post o blob).run fs).1 = .ok reply ↔ blob.length ≤ h.settings.bodyLimit ∧
      Responder.handle ⟨o.cipher, h.secretKey, h.pool.source, o.now⟩ o.random blob = .ok reply := by
  rw [run_post_eq, exchange, bringsTooMuch_envelope]
  by_cases hlength : blob.length ≤ h.settings.bodyLimit
  · rw [decide_eq_false (Nat.not_lt.mpr hlength), if_neg Bool.false_ne_true]
    dsimp only [envelope]
    split
    · next sealed_ hsealed =>
      rw [hsealed]
      exact ⟨fun hreply => ⟨hlength, hreply⟩, fun hreply => hreply.2⟩
    · next e herror =>
      rw [herror, isSuccess_refusal]
      exact ⟨nofun, fun hreply => nomatch hreply.2⟩
  · rw [decide_eq_true (Nat.not_le.mp hlength), if_pos rfl]
    exact ⟨nofun, fun hreply => absurd hreply.1 hlength⟩

/-- A request that is not too long reaches the responder, and what it returns reaches the payer. -/
theorem run_post {blob reply : Bytes} (hlength : blob.length ≤ h.settings.bodyLimit)
    (hreply : Responder.handle ⟨o.cipher, h.secretKey, h.pool.source, o.now⟩ o.random blob =
      .ok reply) :
    (h.post o blob).run fs = (.ok reply, fs) :=
  Prod.ext (post_eq_ok.mpr ⟨hlength, hreply⟩) (by rw [run_post_eq])

end Host

end AddressExchange
