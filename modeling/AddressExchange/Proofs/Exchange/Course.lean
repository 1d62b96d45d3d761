import AddressExchange.Cipher.Labelled
import AddressExchange.Exchange.Payer

/-!
# The course of an exchange

Whatever is called, and whatever ciphers, transports and answers do: an exchange is sealed at most
once and then opened at most once. A call that comes out of turn changes nothing and turns to nobody.
One that fails for any other reason ends the exchange.
-/

namespace AddressExchange

namespace ExchangeState

/-- The states in which calls leave an exchange. -/
inductive Resting : ExchangeState → Prop
  | built : Resting built
  | encrypted : Resting encrypted
  | decoded : Resting decoded
  | failed : Resting failed

/-- What a call may make of such a state, if it changes it. -/
inductive Moves : ExchangeState → ExchangeState → Prop
  | sealed : Moves built encrypted
  | opened : Moves encrypted decoded
  | unsealed : Moves built failed
  | unopened : Moves encrypted failed

theorem Moves.resting {s t : ExchangeState} (h : s.Moves t) : t.Resting := by
  cases h with
  | sealed => exact .encrypted
  | opened => exact .decoded
  | unsealed | unopened => exact .failed

/-- Is the exchange over? -/
def Over (s : ExchangeState) : Prop := s = decoded ∨ s = failed

end ExchangeState

namespace Exchange

open ExchangeState (Resting Moves Over)

/-! ## Calls -/

/-- A call to an exchange. Each call may meet another cipher. -/
inductive Call where
  | sealRequest (cipher : Cipher) (random : Bytes)
  | openAnswer (cipher : Cipher) (answer : Bytes)

/-- What a call brings that succeeds. -/
inductive Brought where
  | blob (bs : Bytes)
  | allocation (a : Allocation)

/-- Makes a call. -/
def call (x : Exchange) : Call → Exchange × Except Failure Brought
  | .sealRequest cipher random => (x.sealRequest cipher random).map id (·.map .blob)
  | .openAnswer cipher answer => (x.openAnswer cipher answer).map id (·.map .allocation)

/-- The exchange after calls in their order. -/
def afterCalls (x : Exchange) (calls : List Call) : Exchange :=
  calls.foldl (fun x c => (x.call c).1) x

/-- What the calls that succeed bring, in their order. -/
def brought (x : Exchange) : List Call → List Brought
  | [] => []
  | c :: calls => (x.call c).2.toOption.toList ++ (x.call c).1.brought calls

/-- Is it the turn of a call? -/
def Allows (x : Exchange) : Call → Prop
  | .sealRequest _ _ => x.state = .built
  | .openAnswer _ _ => x.state = .encrypted ∨ x.state = .sent

namespace Call

/-- The same call with another cipher. -/
def withCipher (cipher : Cipher) : Call → Call
  | sealRequest _ random => sealRequest cipher random
  | openAnswer _ answer => openAnswer cipher answer

/-- The state that a call leads to if it succeeds. -/
def goal : Call → ExchangeState
  | sealRequest _ _ => .encrypted
  | openAnswer _ _ => .decoded

end Call

/-- What the cipher and the wire format give to a call. -/
inductive Gives (x : Exchange) : Call → Except Failure Brought → Prop
  | sealed {cipher : Cipher} {random blob : Bytes}
      (h : cipher.encrypt random (Wire.encodeRequest x.request) x.matcherKey = .ok blob) :
      Gives x (.sealRequest cipher random) (.ok (.blob blob))
  | notEncrypted {cipher : Cipher} {random : Bytes} {e : Failure}
      (h : cipher.encrypt random (Wire.encodeRequest x.request) x.matcherKey = .error e) :
      Gives x (.sealRequest cipher random) (.error e)
  | opened {cipher : Cipher} {answer plain : Bytes} {response : Response}
      (h : cipher.decrypt answer x.replyKeys.secretKey = .ok plain)
      (hwire : Wire.decodeResponse plain = .ok response) :
      Gives x (.openAnswer cipher answer) (.ok (.allocation response.allocation))
  | notDecrypted {cipher : Cipher} {answer : Bytes} {e : Failure}
      (h : cipher.decrypt answer x.replyKeys.secretKey = .error e) :
      Gives x (.openAnswer cipher answer) (.error e)
  | notDecoded {cipher : Cipher} {answer plain : Bytes} {e : Failure}
      (h : cipher.decrypt answer x.replyKeys.secretKey = .ok plain)
      (hwire : Wire.decodeResponse plain = .error e) :
      Gives x (.openAnswer cipher answer) (.error e)

/-- The exchange after a call with a result whose turn it was. -/
def taking (x : Exchange) (c : Call) : Except Failure Brought → Exchange
  | .ok _ => { x with state := c.goal }
  | .error _ => x.fail

variable {x y : Exchange} {c : Call}

/-- A call out of turn is refused, whatever the cipher is. -/
theorem call_of_not_allows (h : ¬ x.Allows c) : x.call c = (x, .error (refusal x.state)) := by
  cases c with
  | sealRequest cipher random =>
    have hstate : x.state ≠ .built := h
    rw [call, sealRequest, if_pos hstate]
    rfl
  | openAnswer cipher answer =>
    rw [call, openAnswer, if_pos (not_or.mp h)]
    rfl

/-- A call in its turn does what the cipher and the wire format give. -/
theorem call_of_allows (h : x.Allows c) : ∃ r, x.Gives c r ∧ x.call c = (x.taking c r, r) := by
  cases c with
  | sealRequest cipher random =>
    have hstate : x.state = .built := h
    rw [call, sealRequest, if_neg (not_not_intro hstate)]
    dsimp only
    cases hblob : cipher.encrypt random (Wire.encodeRequest x.request) x.matcherKey with
    | ok blob => exact ⟨_, .sealed hblob, rfl⟩
    | error e => exact ⟨_, .notEncrypted hblob, rfl⟩
  | openAnswer cipher answer =>
    rw [call, openAnswer, if_neg fun hnot => h.elim hnot.1 hnot.2]
    dsimp only
    cases hplain : cipher.decrypt answer x.replyKeys.secretKey with
    | error e => exact ⟨_, .notDecrypted hplain, rfl⟩
    | ok plain =>
      dsimp only
      cases hwire : Wire.decodeResponse plain with
      | ok response => exact ⟨_, .opened hplain hwire, rfl⟩
      | error e => exact ⟨_, .notDecoded hplain hwire, rfl⟩

theorem allows_withCipher (cipher : Cipher) : x.Allows (c.withCipher cipher) ↔ x.Allows c := by
  cases c <;> rfl

theorem not_allows_of_over (h : x.state.Over) : ¬ x.Allows c := by
  cases c <;> rcases h with h | h <;> simp [Allows, h]

/-! ## One call -/

/-- A call in its turn moves an exchange on. -/
theorem moves_call (hx : x.state.Resting) (h : x.Allows c) :
    x.state.Moves (x.call c).1.state := by
  obtain ⟨r, -, hr⟩ := call_of_allows h
  rw [hr]
  cases c with
  | sealRequest cipher random =>
    rw [show x.state = .built from h]
    cases r with
    | ok b => exact .sealed
    | error e => exact .unsealed
  | openAnswer cipher answer =>
    -- Only inside of sending is an exchange ever in the state that is ruled out here.
    have hstate : x.state = .encrypted := by
      refine h.resolve_right fun hsent => ?_
      rw [hsent] at hx
      cases hx
    rw [hstate]
    cases r with
    | ok b => exact .opened
    | error e => exact .unopened

theorem resting_call (hx : x.state.Resting) (c : Call) : (x.call c).1.state.Resting := by
  by_cases h : x.Allows c
  · exact (moves_call hx h).resting
  · rw [call_of_not_allows h]
    exact hx

/-- Nothing but the state changes. -/
theorem call_fst (x : Exchange) (c : Call) :
    (x.call c).1 = { x with state := (x.call c).1.state } := by
  by_cases h : x.Allows c
  · obtain ⟨r, -, hr⟩ := call_of_allows h
    rw [hr]
    cases r <;> rfl
  · rw [call_of_not_allows h]

/-! ## Any number of calls -/

theorem resting_afterCalls (hx : x.state.Resting) (calls : List Call) :
    (x.afterCalls calls).state.Resting := by
  induction calls generalizing x with
  | nil => exact hx
  | cons c calls ih => exact ih (resting_call hx c)

theorem afterCalls_eq (x : Exchange) (calls : List Call) :
    x.afterCalls calls = { x with state := (x.afterCalls calls).state } := by
  induction calls generalizing x with
  | nil => rfl
  | cons c calls ih =>
    have hcall := call_fst x c
    have hrest := ih (x.call c).1
    change (x.call c).1.afterCalls calls = { x with state := ((x.call c).1.afterCalls calls).state }
    generalize (x.call c).1 = y at hcall hrest
    obtain ⟨-, hrequest, hkeys, hmatcher⟩ := (Exchange.mk.injEq ..).mp hcall
    rw [hrequest, hkeys, hmatcher] at hrest
    exact hrest

/-- An exchange that is over brings nothing more. -/
theorem brought_of_over (h : x.state.Over) (calls : List Call) : x.brought calls = [] := by
  induction calls with
  | nil => rfl
  | cons c calls ih =>
    rw [brought, call_of_not_allows (not_allows_of_over h)]
    exact ih

/-- An exchange that is sealed brings one allocation at most. -/
theorem brought_of_encrypted (h : x.state = .encrypted) (calls : List Call) :
    ∃ a, x.brought calls <+: [.allocation a] := by
  induction calls with
  | nil => exact ⟨⟨[], none⟩, List.nil_prefix⟩
  | cons c calls ih =>
    by_cases hc : x.Allows c
    · obtain ⟨r, hgives, hr⟩ := call_of_allows hc
      rw [brought, hr]
      -- Once it is opened, or this has failed, it is over.
      have hover : (x.taking c r).state.Over := by
        cases hgives with
        | sealed | notEncrypted => exact absurd (h.symm.trans hc) (by decide)
        | opened => exact .inl rfl
        | notDecrypted | notDecoded => exact .inr rfl
      rw [brought_of_over hover, List.append_nil]
      cases hgives with
      | sealed | notEncrypted => exact absurd (h.symm.trans hc) (by decide)
      | opened => exact ⟨_, List.prefix_refl _⟩
      | notDecrypted | notDecoded => exact ⟨⟨[], none⟩, List.nil_prefix⟩
    · rw [brought, call_of_not_allows hc]
      exact ih

/-- A new exchange brings at most one blob, and after that at most one allocation. -/
theorem brought_of_built (h : x.state = .built) (calls : List Call) :
    ∃ blob a, x.brought calls <+: [.blob blob, .allocation a] := by
  induction calls with
  | nil => exact ⟨[], ⟨[], none⟩, List.nil_prefix⟩
  | cons c calls ih =>
    by_cases hc : x.Allows c
    · obtain ⟨r, hgives, hr⟩ := call_of_allows hc
      rw [brought, hr]
      cases hgives with
      | opened | notDecrypted | notDecoded =>
        rcases hc with hc | hc <;> exact absurd (h.symm.trans hc) (by decide)
      | @sealed cipher random blob =>
        have hsealed : (x.taking (.sealRequest cipher random) (.ok (.blob blob))).state = .encrypted :=
          rfl
        obtain ⟨a, ha⟩ := brought_of_encrypted hsealed calls
        exact ⟨blob, a, List.prefix_cons_inj _ |>.mpr ha⟩
      | @notEncrypted cipher random e =>
        have hover : (x.taking (.sealRequest cipher random) (.error e)).state.Over := .inr rfl
        rw [brought_of_over hover]
        exact ⟨[], ⟨[], none⟩, List.nil_prefix⟩
    · rw [brought, call_of_not_allows hc]
      exact ih

/-! ## Sending -/

variable {σ : Type}

/-- A transport that keeps the bodies that are posted over it. -/
def Transport.recorded (post : Transport σ) : Transport (σ × List Bytes) := fun body => do
  let (s, posted) ← get
  let (result, s) := (post body).run s
  set (s, posted ++ [body])
  pure result

/-- How an exchange is sent that was not sealed before: the bodies that are posted, the state that it
ends in, the result, and what becomes of the world. -/
inductive Sending (x : Exchange) (cipher : Cipher) (random : Bytes) (post : Transport σ) (s : σ) :
    List Bytes → ExchangeState → Except Failure Allocation → σ → Prop
  | unsealed {e : Failure} (h : x.Gives (.sealRequest cipher random) (.error e)) :
      Sending x cipher random post s [] .failed (.error e) s
  | undelivered {blob : Bytes} {e : Failure} {s' : σ}
      (h : x.Gives (.sealRequest cipher random) (.ok (.blob blob)))
      (hpost : (post blob).run s = (.error e, s')) :
      Sending x cipher random post s [blob] .failed (.error e) s'
  | unopened {blob answer : Bytes} {e : Failure} {s' : σ}
      (h : x.Gives (.sealRequest cipher random) (.ok (.blob blob)))
      (hpost : (post blob).run s = (.ok answer, s'))
      (hanswer : x.Gives (.openAnswer cipher answer) (.error e)) :
      Sending x cipher random post s [blob] .failed (.error e) s'
  | opened {blob answer : Bytes} {a : Allocation} {s' : σ}
      (h : x.Gives (.sealRequest cipher random) (.ok (.blob blob)))
      (hpost : (post blob).run s = (.ok answer, s'))
      (hanswer : x.Gives (.openAnswer cipher answer) (.ok (.allocation a))) :
      Sending x cipher random post s [blob] .decoded (.ok a) s'

variable {cipher : Cipher} {random : Bytes} {post : Transport σ} {s : σ}

/-- Sending an exchange that was sealed before posts nothing. -/
theorem send_of_not_built (hx : x.state ≠ .built) :
    (x.send cipher random post).run s = ((x, .error (refusal x.state)), s) := by
  rw [send, sealRequest, if_pos hx]
  rfl

theorem run_recorded (blob : Bytes) (posted : List Bytes) :
    (post.recorded blob).run (s, posted) =
      (((post blob).run s).1, ((post blob).run s).2, posted ++ [blob]) := rfl

/-- An exchange that was not sealed before is sealed, or has failed. -/
theorem sealRequest_of_built (hx : x.state = .built) (cipher : Cipher) (random : Bytes) :
    (∃ blob, x.Gives (.sealRequest cipher random) (.ok (.blob blob)) ∧
      x.sealRequest cipher random = ({ x with state := .encrypted }, .ok blob)) ∨
    ∃ e, x.Gives (.sealRequest cipher random) (.error e) ∧
      x.sealRequest cipher random = ({ x with state := .failed }, .error e) := by
  rw [sealRequest, if_neg (not_not_intro hx)]
  dsimp only
  cases hblob : cipher.encrypt random (Wire.encodeRequest x.request) x.matcherKey with
  | ok blob => exact .inl ⟨blob, .sealed hblob, rfl⟩
  | error e => exact .inr ⟨e, .notEncrypted hblob, rfl⟩

/-- An answer that was waited for is opened like one that is handed in. -/
theorem openAnswer_sent (x : Exchange) (cipher : Cipher) (answer : Bytes) :
    (∃ a, x.Gives (.openAnswer cipher answer) (.ok (.allocation a)) ∧
      ({ x with state := .sent } : Exchange).openAnswer cipher answer =
        ({ x with state := .decoded }, .ok a)) ∨
    ∃ e, x.Gives (.openAnswer cipher answer) (.error e) ∧
      ({ x with state := .sent } : Exchange).openAnswer cipher answer =
        ({ x with state := .failed }, .error e) := by
  rw [openAnswer, if_neg fun hnot => hnot.2 rfl]
  dsimp only
  cases hplain : cipher.decrypt answer x.replyKeys.secretKey with
  | error e => exact .inr ⟨e, .notDecrypted hplain, rfl⟩
  | ok plain =>
    dsimp only
    cases hwire : Wire.decodeResponse plain with
    | ok response => exact .inl ⟨_, .opened hplain hwire, rfl⟩
    | error e => exact .inr ⟨e, .notDecoded hplain hwire, rfl⟩

/-- Sending over a recorded transport is sending over the transport. -/
theorem send_of_built (hx : x.state = .built) (cipher : Cipher) (random : Bytes) (post : Transport σ)
    (s : σ) (posted : List Bytes) :
    ∃ bodies state result s', Sending x cipher random post s bodies state result s' ∧
      (x.send cipher random post).run s = (({ x with state }, result), s') ∧
      (x.send cipher random post.recorded).run (s, posted) =
        (({ x with state }, result), (s', posted ++ bodies)) := by
  rcases sealRequest_of_built hx cipher random with ⟨blob, hsealed, hseal⟩ | ⟨e, hunsealed, hseal⟩
  · simp only [send, hseal]
    rcases hpost : (post blob).run s with ⟨e | answer, s'⟩
    · refine ⟨_, _, _, _, .undelivered hsealed hpost, ?_, ?_⟩
      · simp only [StateT.run_bind, hpost]
        rfl
      · simp only [StateT.run_bind, run_recorded, hpost]
        rfl
    · rcases openAnswer_sent x cipher answer with ⟨a, hanswer, hopen⟩ | ⟨e, hanswer, hopen⟩
      · refine ⟨_, _, _, _, .opened hsealed hpost hanswer, ?_, ?_⟩
        · simp only [StateT.run_bind, hpost]
          exact congrArg (·, s') hopen
        · simp only [StateT.run_bind, run_recorded, hpost]
          exact congrArg (·, s', posted ++ [blob]) hopen
      · refine ⟨_, _, _, _, .unopened hsealed hpost hanswer, ?_, ?_⟩
        · simp only [StateT.run_bind, hpost]
          exact congrArg (·, s') hopen
        · simp only [StateT.run_bind, run_recorded, hpost]
          exact congrArg (·, s', posted ++ [blob]) hopen
  · simp only [send, hseal]
    exact ⟨_, _, _, _, .unsealed hunsealed, rfl, by rw [List.append_nil]; rfl⟩

/-- What sending posts: one body if the exchange was built and could be sealed, and else none. -/
theorem Sending.bodies {bodies : List Bytes} {state : ExchangeState}
    {result : Except Failure Allocation} {s' : σ}
    (h : Sending x cipher random post s bodies state result s') :
    bodies.length ≤ 1 ∧ (bodies.length = 1 ↔
      ∃ blob, x.Gives (.sealRequest cipher random) (.ok (.blob blob))) := by
  cases h with
  | unsealed h =>
    refine ⟨Nat.zero_le 1, nofun, ?_⟩
    rintro ⟨blob, hblob⟩
    cases h with
    | notEncrypted h =>
      cases hblob with
      | sealed hblob => exact absurd (h.symm.trans hblob) nofun
  | undelivered h | unopened h | opened h => exact ⟨Nat.le_refl 1, fun _ => ⟨_, h⟩, fun _ => rfl⟩

/-! ## The whole course -/

/-- After any calls on a new exchange, with any ciphers and any answers:
it rests in one of four states, and nothing else about it has changed;
the calls that succeeded are one that sealed it and then one that opened it, if there were any;
a call out of turn leaves it alone whatever the cipher is;
one in its turn moves it on, to the end just if the cipher or the wire format gives an error;
once it is over, it is nobody's turn;
and if it is sent, over any transport, then one body is posted at most, and one just if it was still to
be sealed and could be. -/
theorem calls_in_turn {keySeed : Bytes} {matcherKey : PublicKey} {payerId : Option PayerId}
    {date : Option Instant} (hx : build cipher keySeed matcherKey payerId date = .ok x)
    (calls : List Call) :
    let y := x.afterCalls calls
    (y.state.Resting ∧ y = { x with state := y.state }) ∧
    (∃ blob a, x.brought calls <+: [.blob blob, .allocation a]) ∧
    (∀ c, ¬ y.Allows c → ∀ cipher,
      y.call (c.withCipher cipher) = (y, .error (refusal y.state))) ∧
    (∀ c, y.Allows c → y.Gives c (y.call c).2 ∧ y.state.Moves (y.call c).1.state ∧
      ((y.call c).1.state = .failed ↔ ∃ e, (y.call c).2 = .error e)) ∧
    (y.state.Over → ∀ c, ¬ y.Allows c) ∧
    ∀ (σ : Type) (cipher : Cipher) (random : Bytes) (post : Transport σ) (s : σ),
      let sent := (y.send cipher random post.recorded).run (s, [])
      let posted := sent.2.2
      posted.length ≤ 1 ∧
      (posted.length = 1 ↔ y.state = .built ∧
        ∃ blob, y.Gives (.sealRequest cipher random) (.ok (.blob blob))) ∧
      (y.send cipher random post).run s = (sent.1, sent.2.1) ∧
      (y.state ≠ .built → sent = ((y, .error (refusal y.state)), s, [])) ∧
      (y.state = .built → ∃ state result s',
        Sending y cipher random post s posted state result s' ∧
          sent = (({ y with state }, result), s', posted)) := by
  intro y
  have hbuilt : x.state = .built := by
    cases payerId with
    | none => cases hx
    | some id =>
      cases hx
      rfl
  have hresting : x.state.Resting := hbuilt ▸ .built
  have hy : y.state.Resting := resting_afterCalls hresting calls
  refine ⟨⟨hy, afterCalls_eq x calls⟩, brought_of_built hbuilt calls, fun c hc cipher => ?_,
    fun c hc => ?_, fun hover c => not_allows_of_over hover, fun σ cipher random post s => ?_⟩
  · exact call_of_not_allows (mt (allows_withCipher cipher).mp hc)
  · have hmoves := moves_call hy hc
    obtain ⟨r, hgives, hr⟩ := call_of_allows hc
    refine ⟨by rw [hr]; exact hgives, hmoves, ?_⟩
    rw [hr]
    cases r with
    | ok b => cases c <;> simp [taking, Call.goal]
    | error e => simp [taking, fail]
  · intro sent posted
    by_cases hstate : y.state = .built
    · obtain ⟨bodies, state, result, s', hsending, hplain, hrecorded⟩ :=
        send_of_built hstate cipher random post s []
      have hsent : sent = (({ y with state }, result), s', bodies) := hrecorded
      have hposted : posted = bodies := congrArg (·.2.2) hsent
      obtain ⟨hle, hone⟩ := hsending.bodies
      rw [hposted, hsent]
      exact ⟨hle, hone.trans (and_iff_right hstate).symm, hplain, absurd hstate,
        fun _ => ⟨state, result, s', hsending, rfl⟩⟩
    · have hsent : sent = ((y, .error (refusal y.state)), s, []) := send_of_not_built hstate
      have hposted : posted = [] := congrArg (·.2.2) hsent
      rw [hposted, hsent]
      exact ⟨Nat.zero_le 1, ⟨nofun, fun h => absurd h.1 hstate⟩, send_of_not_built hstate,
        fun _ => rfl, fun h => absurd h hstate⟩

/-- One call comes too early, the next one seals the exchange, and then an answer comes that is not one.
The exchange is over: sealing it is refused, and sending it posts nothing. -/
theorem calls_in_turn_garbage :
    let cipher := Cipher.labelled 0 "refused"
    let x : Exchange :=
      ⟨.built, .make (.filled 7) none (KeyPair.filled 2).publicKey, .filled 2, (KeyPair.filled 1).publicKey⟩
    let y := x.afterCalls [.openAnswer cipher [2], .sealRequest cipher [], .openAnswer cipher []]
    y.request = x.request ∧ y.call (.sealRequest cipher []) = (y, .error (refusal .failed)) ∧
      ∀ post : Transport Unit, ((y.send cipher [] post.recorded).run ((), [])).2.2 = [] := by
  intro cipher x y
  have hx : build cipher [2] (KeyPair.filled 1).publicKey (some (.filled 7)) none = .ok x := rfl
  have hstate : y.state = .failed := by decide +kernel
  obtain ⟨⟨-, hsame⟩, -, hrefused, -, hover, hsend⟩ := calls_in_turn hx
    [.openAnswer cipher [2], .sealRequest cipher [], .openAnswer cipher []]
  have hrequest : y.request = x.request := by rw [show y = _ from hsame]
  refine ⟨hrequest, ?_, fun post => ?_⟩
  · rw [← hstate]
    exact hrefused (.sealRequest cipher []) (hover (.inr hstate) _) cipher
  · obtain ⟨-, -, -, hnot, -⟩ := hsend Unit cipher [] post ()
    have hbuilt : y.state ≠ .built := by
      rw [hstate]
      decide
    rw [hnot hbuilt]

end Exchange

end AddressExchange
