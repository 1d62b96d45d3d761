import AddressExchange.Proofs.Host.Returning

/-!
# One request after another

A host and its files, as requests of anybody find them and leave them. In between the host looks at
the schedule of rotations.
-/

namespace AddressExchange

open Web

/-- A request, what surrounds it, and whether pages of any site may ask. -/
structure Asked where
  request : HttpRequest
  around : Surroundings
  anySite : Bool := false

/-- An answer with the sites that may read it. -/
def Asked.granted (q : Asked) (a : HttpAnswer) : HttpAnswer :=
  { a with allowOrigin := if q.anySite then some "*" else a.allowOrigin }

/-- A host and its files. -/
structure Serving where
  host : Host
  files : Files

namespace Serving

/-- The answer to a request, and what is there afterwards. -/
def respond (w : Serving) (q : Asked) : HttpAnswer × Serving :=
  let answer := if q.anySite then w.host.answerAnySite q.around q.request
    else w.host.answer q.around q.request
  let ((a, host), files) := answer.run w.files
  (a, ⟨host, files⟩)

def answerTo (w : Serving) (q : Asked) : HttpAnswer := (w.respond q).1

def after (w : Serving) (q : Asked) : Serving := (w.respond q).2

/-- What is there after requests in their order. -/
def afterAll (w : Serving) (asked : List Asked) : Serving := asked.foldl after w

/-- What is there after a look at the schedule of rotations. -/
def afterLook (w : Serving) (now : Instant) : Serving :=
  let (host, files) := (w.host.look now).run w.files
  ⟨host, files⟩

def pool (w : Serving) : Pool := w.host.pool.pool

/-- The same with a pool that the host has tried to write. -/
def written (w : Serving) (pool : HeldPool) : Serving :=
  ⟨(w.host.written w.files pool).1, (w.host.written w.files pool).2⟩

/-- A host with entries in memory. -/
def sampleHolding (entries : Array Entry) : Serving where
  host := {
    settings := Hosting.sampleSettings
    secretKey := (KeyPair.filled 1).secretKey
    pool := .memory { config := Hosting.sampleSettings.pool, entries } }
  files := {}

variable {w : Serving} {q : Asked}

@[simp] theorem pool_written (pool : HeldPool) : (w.written pool).pool = pool.pool :=
  w.host.written_pool w.files pool

@[simp] theorem settings_written (pool : HeldPool) :
    (w.written pool).host.settings = w.host.settings := rfl

@[simp] theorem afterAll_nil (w : Serving) : w.afterAll [] = w := rfl

@[simp] theorem afterAll_cons (w : Serving) (q : Asked) (asked : List Asked) :
    w.afterAll (q :: asked) = (w.after q).afterAll asked := rfl

/-! ## One request -/

/-- Where pages of any site may ask, a request for permission is granted and nothing else happens. -/
theorem respond_permission (hsite : q.anySite = true) (hmethod : q.request.method = "OPTIONS") :
    w.respond q =
      (q.granted (Host.leaving (Route.ofPath? q.request.path) q.request { status := .ok }), w) := by
  simp only [respond, hsite, if_true, Host.answerAnySite, hmethod, StateT.run_bind, Asked.granted]
  rfl

/-- All other requests are answered as the host answers them. -/
theorem respond_of_answer (h : ¬ (q.anySite = true ∧ q.request.method = "OPTIONS"))
    {a : HttpAnswer} {host : Host} {files : Files}
    (ha : (w.host.answer q.around q.request).run w.files = ((a, host), files)) :
    w.respond q = (q.granted a, ⟨host, files⟩) := by
  cases hsite : q.anySite with
  | false =>
    simp only [respond, hsite, Bool.false_eq_true, if_false, ha, Asked.granted]
  | true =>
    have hmethod : q.request.method ≠ "OPTIONS" := fun hmethod => h ⟨hsite, hmethod⟩
    simp only [respond, hsite, if_true, Host.answerAnySite, if_neg hmethod, StateT.run_bind, ha,
      Asked.granted]
    rfl

/-- A request leaves all as it is, unless it adds an address. It then is blamed if it asked for
that. -/
theorem respond_inv (w : Serving) (q : Asked) :
    (∃ a, w.respond q = (a, w) ∧ (Route.ofPath? q.request.path = some .addresses →
        q.request.method = "POST" → a.status.BlamesRequest)) ∨
      ∃ activation at_ pool, w.host.Adds q.around q.request activation at_ pool := by
  by_cases hpermission : q.anySite = true ∧ q.request.method = "OPTIONS"
  · obtain ⟨hsite, hmethod⟩ := hpermission
    refine .inl ⟨_, respond_permission hsite hmethod, fun _ hpost => ?_⟩
    simp [hmethod] at hpost
  · rcases w.host.answer_inv q.around q.request w.files with ⟨a, ha, hstatus⟩ | hadds
    · exact .inl ⟨_, respond_of_answer hpermission ha, hstatus⟩
    · exact .inr hadds

section Adding

variable {activation : Host.Activation} {at_ : Instant} {pool : HeldPool}

/-- A request that adds an address is told of it if the pool is written, and of the trouble
otherwise. -/
theorem respond_of_adds (hadds : w.host.Adds q.around q.request activation at_ pool) :
    w.respond q =
      (q.granted (match (pool.persist.run w.files).1.1 with
        | .ok () => (w.written pool).host.acknowledgement ⟨Text.trim activation.address, at_⟩
        | .error e => .refusal (.ofFailure e)), w.written pool) := by
  refine respond_of_answer ?_ (hadds.answer_eq w.files)
  rintro ⟨-, hmethod⟩
  simp [hadds.method] at hmethod

theorem after_of_adds (hadds : w.host.Adds q.around q.request activation at_ pool) :
    w.after q = w.written pool := by
  rw [after, respond_of_adds hadds]

end Adding

/-- A request leaves all as it is, or it adds an address and the host tries to write the pool. -/
theorem after_cases (w : Serving) (q : Asked) :
    w.after q = w ∨ ∃ activation at_ pool,
      w.host.Adds q.around q.request activation at_ pool ∧ w.after q = w.written pool := by
  rcases w.respond_inv q with ⟨a, ha, -⟩ | ⟨activation, at_, pool, hadds⟩
  · exact .inl (congrArg Prod.snd ha)
  · exact .inr ⟨activation, at_, pool, hadds, after_of_adds hadds⟩

@[simp] theorem settings_after (w : Serving) (q : Asked) :
    (w.after q).host.settings = w.host.settings := by
  rcases w.after_cases q with h | ⟨_, _, pool, -, h⟩ <;> rw [h]
  exact settings_written pool

@[simp] theorem settings_afterAll (w : Serving) (asked : List Asked) :
    (w.afterAll asked).host.settings = w.host.settings := by
  induction asked generalizing w with
  | nil => rfl
  | cons q asked ih => simp [ih]

/-! ## One look -/

/-- A look leaves all as it is, or it rotates and the host tries to write the pool. -/
theorem afterLook_cases (w : Serving) (now : Instant) :
    w.afterLook now = w ∨ w.afterLook now = w.written (w.host.pool.rotate now) := by
  rcases w.host.look_cases w.files now with ⟨-, h⟩ | ⟨-, h⟩
  · exact .inl (by rw [afterLook, h])
  · exact .inr (by rw [afterLook, h]; rfl)

end Serving

end AddressExchange
