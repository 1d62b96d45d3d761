import AddressExchange.Proofs.Host.Serving
import Mathlib.Data.List.InsertIdx

/-!
# Only administrators touch the pool

A request changes the pool or its file only if it is an activation that shows the token of the
administrators, and then it adds one entry at most. Whoever asks as an administrator without the token
is refused before the pool is looked at, so the refusal tells nothing of it: two hosts with the same
settings answer alike, whatever their pools are and whatever they have been asked before.
-/

namespace AddressExchange

open Web

/-! ## Growth -/

/-- Has a pool at most `n` entries more than another, and is it the same apart from them? -/
structure Pool.Gains (p q : Pool) (n : Nat) : Prop where
  entries : p.entries.toList.Sublist q.entries.toList
  size : q.entries.size ≤ p.entries.size + n
  rest : q = { p with entries := q.entries }

namespace Pool.Gains

variable {p q r : Pool} {n m : Nat}

theorem refl (p : Pool) (n : Nat) : p.Gains p n where
  entries := List.Sublist.refl _
  size := Nat.le_add_right _ _
  rest := rfl

theorem trans (h : p.Gains q n) (h' : q.Gains r m) : p.Gains r (n + m) where
  entries := h.entries.trans h'.entries
  size := by
    have hpq := h.size
    have hqr := h'.size
    omega
  rest := by
    rw [h'.rest, h.rest]

/-- An activation adds one entry. -/
theorem activate {text : String} {at_ : Instant} (h : p.activate text at_ = .ok q) :
    p.Gains q 1 := by
  unfold Pool.activate at h
  split at h
  · cases h
  · split at h
    · cases h
    · next address _ _ =>
      cases h
      let entry : Entry := ⟨address, at_⟩
      have hinsert : (p.entries.insertIdxIfInBounds (p.activeCount at_) entry).toList =
          p.entries.toList.insertIdx (p.activeCount at_) entry := by
        conv_lhs => rw [← p.entries.toArray_toList, List.insertIdxIfInBounds_toArray]
      refine ⟨?_, ?_, rfl⟩
      · dsimp only
        rw [hinsert]
        exact List.sublist_insertIdx _ _ _
      · dsimp only
        rw [← Array.length_toList, hinsert, List.length_insertIdx, ← Array.length_toList]
        split <;> simp

end Pool.Gains

/-! ## The token -/

/-- Is the first authorization of a request just the token of the administrators, behind the name of
its scheme? -/
def ShowsToken (s : Settings) (r : HttpRequest) : Prop :=
  ∃ token ∈ s.adminToken, r.headers.lookup "authorization" = some ("Bearer " ++ token)

instance (s : Settings) (r : HttpRequest) : Decidable (ShowsToken s r) :=
  inferInstanceAs (Decidable (∃ token ∈ s.adminToken, _))

/-- Does a request bring an activation and show the token? -/
def Administers (s : Settings) (r : HttpRequest) : Prop :=
  r.method = "POST" ∧ r.path = "/api/v1/pool/addresses" ∧ ShowsToken s r

instance (s : Settings) (r : HttpRequest) : Decidable (Administers s r) :=
  inferInstanceAs (Decidable (_ ∧ _ ∧ _))

theorem showsToken_of_authorize {s : Settings} {r : HttpRequest} (h : Host.authorize s r = .ok ()) :
    ShowsToken s r := by
  unfold Host.authorize at h
  split at h
  · cases h
  · next token htoken =>
    split at h
    · cases h
    · next value hvalue =>
      dsimp only at h
      split at h
      · cases h
      · next hscheme =>
        split at h
        · next hrest =>
          obtain ⟨hlookup, -⟩ := Option.filter_eq_some_iff.mp hvalue
          refine ⟨token, htoken, hlookup.trans (congrArg some ?_)⟩
          have hbegins : "Bearer ".toList.isPrefixOf value.toList = true := by
            simpa only [Bool.not_eq_true', Bool.not_eq_false] using hscheme
          obtain ⟨rest, hvalue⟩ := List.isPrefixOf_iff_prefix.mp hbegins
          rw [← hvalue, List.drop_left] at hrest
          rw [← String.toList_inj, String.toList_append, ← hrest, hvalue]
        · cases h

/-! ## Requests without the token -/

/-- Of an administrator's route it is the same for all hosts what they answer to somebody else, but
for their settings. -/
theorem Host.answer_refused {h : Host} {o : Surroundings} {r : HttpRequest} {fs : Files} {route : Route}
    {reason : Unauthorized} (hroute : Route.ofPath? r.path = some route)
    (hadmin : route.isAdmin = true) (hwho : authorize h.settings r = .error reason) :
    (h.answer o r).run fs =
      ((leaving (some route) r
        (if declaresTooMuch h.settings r then tooLarge else .refusal (.unauthorized reason)), h), fs) := by
  have honRoute : h.onRoute o r route = pure (if declaresTooMuch h.settings r then tooLarge
      else .refusal (.unauthorized reason), h) := by
    simp only [onRoute, hadmin, if_true, hwho]
    split <;> rfl
  rw [answer, hroute]
  simp only [honRoute]
  rfl

namespace Serving

variable {w v : Serving} {a : Asked}

/-- Hosts with the same settings give the same answer to somebody who asks as an administrator
without the token. -/
theorem answerTo_eq_of_not_showsToken (hsettings : v.host.settings = w.host.settings) {route : Route}
    (hroute : Route.ofPath? a.request.path = some route) (hadmin : route.isAdmin = true)
    (h : ¬ ShowsToken w.host.settings a.request) (o : Surroundings) :
    w.answerTo a = v.answerTo { a with around := o } := by
  let b : Asked := { a with around := o }
  by_cases hpermission : a.anySite = true ∧ a.request.method = "OPTIONS"
  · obtain ⟨hsite, hmethod⟩ := hpermission
    have hw := respond_permission (w := w) hsite hmethod
    have hv := respond_permission (w := v) (q := b) hsite hmethod
    rw [answerTo, answerTo, hw, hv]
    rfl
  · cases hwho : Host.authorize w.host.settings a.request with
    | ok => exact absurd (showsToken_of_authorize hwho) h
    | error reason =>
      have hw := respond_of_answer hpermission (Host.answer_refused hroute hadmin hwho)
      have hv := respond_of_answer (w := v) (q := b) hpermission
        (Host.answer_refused hroute hadmin (hsettings ▸ hwho))
      rw [hsettings] at hv
      rw [answerTo, answerTo, hw, hv]
      rfl

/-! ## One request -/

/-- What does not administer the pool leaves the host and its files as they are. -/
theorem after_of_not_administers (h : ¬ Administers w.host.settings a.request) : w.after a = w := by
  rcases w.after_cases a with hsame | ⟨activation, at_, pool, hadds, -⟩
  · exact hsame
  · have hpath := Route.ofPath?_eq_some.mp hadds.route
    exact absurd ⟨hadds.method, hpath, showsToken_of_authorize hadds.authorized⟩ h

/-- A request adds one entry at most. -/
theorem gains_after (w : Serving) (a : Asked) : w.pool.Gains (w.after a).pool 1 := by
  rcases w.after_cases a with hsame | ⟨activation, at_, pool, hadds, hafter⟩
  · rw [hsame]
    exact .refl _ _
  · rw [hafter, pool_written]
    exact .activate (HeldPool.pool_activate hadds.pool)

/-! ## Whole runs -/

theorem afterAll_of_not_administers {asked : List Asked}
    (h : ∀ b ∈ asked, ¬ Administers w.host.settings b.request) : w.afterAll asked = w := by
  induction asked with
  | nil => rfl
  | cons b asked ih =>
    obtain ⟨hb, hrest⟩ := List.forall_mem_cons.mp h
    rw [afterAll_cons, after_of_not_administers hb]
    exact ih hrest

/-- Requests add no more entries than there are administrators' activations among them. -/
theorem gains_afterAll (w : Serving) (asked : List Asked) :
    w.pool.Gains (w.afterAll asked).pool
      (asked.countP fun b => Administers w.host.settings b.request) := by
  induction asked generalizing w with
  | nil => exact .refl _ _
  | cons b asked ih =>
    have hrest := ih (w.after b)
    rw [settings_after] at hrest
    by_cases hb : Administers w.host.settings b.request
    · rw [List.countP_cons_of_pos (by simpa using hb), Nat.add_comm]
      exact (w.gains_after b).trans hrest
    · rw [List.countP_cons_of_neg (by simpa using hb)]
      rw [after_of_not_administers hb] at hrest
      rw [afterAll_cons, after_of_not_administers hb]
      exact hrest

/-- Whatever requests a host has answered, the next one changes neither it nor its files unless it is
an activation with the token of the administrators. Each such request adds one entry at most and
changes nothing else about the pool, and so do all together. On the routes of the administrators,
whoever does not show the token is answered as by any other host with these settings, whatever its
pool is and whatever it has been asked. -/
theorem administration_closed (w v : Serving) (hsettings : v.host.settings = w.host.settings)
    (asked asked' : List Asked) (a : Asked) :
    let s := w.host.settings
    let w₁ := w.afterAll asked
    let v₁ := v.afterAll asked'
    (¬ Administers s a.request → w₁.after a = w₁) ∧
      w₁.pool.Gains (w₁.after a).pool 1 ∧
      ((∀ b ∈ asked, ¬ Administers s b.request) → w₁ = w) ∧
      w.pool.Gains w₁.pool (asked.countP fun b => Administers s b.request) ∧
      (a.request.path = "/api/v1/pool/stats" ∨ a.request.path = "/api/v1/pool/addresses" →
        ¬ ShowsToken s a.request → ∀ o, w₁.answerTo a = v₁.answerTo { a with around := o }) := by
  intro s w₁ v₁
  have hw₁ : w₁.host.settings = s := w.settings_afterAll asked
  have hv₁ : v₁.host.settings = w₁.host.settings := by
    rw [hw₁, settings_afterAll, hsettings]
  refine ⟨fun h => after_of_not_administers (hw₁ ▸ h), w₁.gains_after a,
    afterAll_of_not_administers, w.gains_afterAll asked, fun hpath h o => ?_⟩
  have hnone : ¬ ShowsToken w₁.host.settings a.request := hw₁ ▸ h
  rcases hpath with hstats | haddresses
  · have hroute : Route.ofPath? a.request.path = some .stats := Route.ofPath?_eq_some.mpr hstats
    exact answerTo_eq_of_not_showsToken hv₁ hroute rfl hnone o
  · have hroute : Route.ofPath? a.request.path = some .addresses :=
      Route.ofPath?_eq_some.mpr haddresses
    exact answerTo_eq_of_not_showsToken hv₁ hroute rfl hnone o

/-- Somebody guesses the token and misses it by the case of a letter. -/
def sampleGuess (now : Instant) : Asked where
  request := { Hosting.sampleRequest with
    headers := [("authorization", "Bearer T"), ("content-type", "application/json")] }
  around := { cipher := Hosting.sampleParties.cipher, random := [], now }

/-- The guess adds nothing, and is answered alike by a host without entries and by one with them. -/
theorem administration_closed_to_guess :
    let w := sampleHolding #[]
    let v := sampleHolding #[⟨"1A", .early 1 0⟩]
    let guess := sampleGuess (.early 2 0)
    w.afterAll [guess] = w ∧ w.pool.entries ≠ v.pool.entries ∧
      w.answerTo guess = v.answerTo guess := by
  intro w v guess
  have hnone : ¬ ShowsToken Hosting.sampleSettings guess.request := by decide +kernel
  have hpath : guess.request.path = "/api/v1/pool/addresses" := by decide +kernel
  obtain ⟨-, -, hrun, -, halike⟩ := administration_closed w v rfl [guess] [] guess
  have hsame : w.afterAll [guess] = w := by
    apply hrun
    intro b hb h
    rw [List.mem_singleton.mp hb] at h
    exact hnone h.2.2
  have hanswer := halike (.inr hpath) hnone guess.around
  rw [hsame] at hanswer
  refine ⟨hsame, ?_, hanswer⟩
  simp [w, v, sampleHolding, pool, HeldPool.pool]

end Serving

end AddressExchange
