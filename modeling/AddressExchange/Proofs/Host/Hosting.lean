import AddressExchange.Proofs.Exchange.Replay
import AddressExchange.Proofs.Host
import AddressExchange.Proofs.Pool.History

/-!
# A host at work

A host takes requests of the web while its clock goes on, and a payer asks it now and then. What is
added to the pool gets the instant of the clock, and so does the cohort when it is rotated. For the
pool this is one of the runs in which no address is skipped; that its host and the web are around it
makes no difference to what the payer receives, if it receives anything.
-/

namespace AddressExchange

open Web

/-- A host and its files, the clock, and the date that a payer holds. -/
structure Hosting where
  host : Host
  files : Files
  now : Instant
  date : Option Instant

/-- What may happen to a host. -/
inductive HostingEvent where
  | tick (later : Instant)
  /-- A request of anybody. -/
  | request (random : Bytes) (uptime : Nat) (r : HttpRequest)
  /-- A look at the schedule of rotations. -/
  | look
  | rotate
  /-- The payer asks. -/
  | exchange (seeds : ExchangeSeeds)

namespace Hosting

variable (parties : Parties)

def pool (w : Hosting) : Pool := w.host.pool.pool

/-- What surrounds a request at the present instant. -/
def surroundings (w : Hosting) (random : Bytes) (uptime : Nat) : Surroundings :=
  { cipher := parties.cipher, random, now := w.now, uptime }

/-- What the payer receives when it asks over the web. -/
def ask (w : Hosting) (seeds : ExchangeSeeds) : Except Failure Allocation :=
  match Exchange.build parties.cipher seeds.replyKeys parties.matcherKeys.publicKey
      (some parties.payerId) w.date with
  | .error e => .error e
  | .ok x =>
    let post := w.host.post (w.surroundings parties seeds.answer 0)
    ((x.send parties.cipher seeds.request post).run w.files).1.2

/-- What is there after an event. A response without a date leaves the payer the one that it has. -/
def step (w : Hosting) : HostingEvent → Hosting
  | .tick later => { w with now := later }
  | .request random uptime r =>
    let ((_, host), files) := (w.host.answer (w.surroundings parties random uptime) r).run w.files
    { w with host, files }
  | .look =>
    let (host, files) := (w.host.look w.now).run w.files
    { w with host, files }
  | .rotate => { w with host := { w.host with pool := w.host.pool.rotate w.now } }
  | .exchange seeds =>
    match w.ask parties seeds with
    | .ok allocation => { w with date := allocation.replayDate.or w.date }
    | .error _ => w

/-- May an event happen? The clock does not go back, and who adds an address leaves its instant to
the clock. The cipher opens what it encrypts in an exchange. -/
def Allowed (w : Hosting) : HostingEvent → Prop
  | .tick later => w.now ≤ later
  | .request random uptime r => ∀ activation at_ pool,
      w.host.Adds (w.surroundings parties random uptime) r activation at_ pool →
        activation.millis = none
  | .look | .rotate => True
  | .exchange seeds => parties.Opens seeds

/-- Do the request of the payer and the response to it get through? The cipher takes both, and the
encrypted request is not longer than the host takes. -/
structure Sends (w : Hosting) (seeds : ExchangeSeeds) : Prop
    extends parties.Sends seeds w.pool.source w.date w.now where
  fits : ∀ blob, parties.cipher.encrypt seeds.request
      (Wire.encodeRequest (parties.exchange seeds w.date).request) parties.matcherKeys.publicKey =
        .ok blob →
    blob.length ≤ w.host.settings.bodyLimit

/-- Does an event leave the clock outside leap seconds? -/
def KeepsPlain : HostingEvent → Prop
  | .tick later => later.IsPlain
  | .request _ _ _ | .look | .rotate | .exchange _ => True

/-- Events that have a property, one after another. -/
inductive Run (P : Hosting → HostingEvent → Prop) : Hosting → Hosting → Prop
  | refl (w : Hosting) : Run P w w
  | step {w w' : Hosting} {event : HostingEvent} (run : Run P w w') (h : P w' event) :
      Run P w (w'.step parties event)

/-- How a host may begin: with a pool that holds nothing of the future, and a payer that has not
asked yet. -/
structure Begins (w : Hosting) : Prop where
  secretKey : w.host.secretKey = parties.matcherKeys.secretKey
  pool : w.pool.Reachable
  active : w.pool.AllInstants (· ≤ w.now)
  date : w.date = none

/-- Are the clock and all entries outside leap seconds? -/
def Plain (w : Hosting) : Prop := w.now.IsPlain ∧ w.pool.AllInstants Instant.IsPlain

variable {parties : Parties} {w w' : Hosting}

/-! ## One event -/

/-- The same without the host around the pool. -/
def view (w : Hosting) : Replay := ⟨w.pool, w.now, w.date⟩

/-- Nothing about the host and the payer is in the future, and the clock keeps out of leap
seconds. -/
structure Consistent (parties : Parties) (w : Hosting) : Prop where
  replay : w.view.Consistent
  secretKey : w.host.secretKey = parties.matcherKeys.secretKey
  active : w.pool.AllInstants (· ≤ w.now)
  clock : w.now.IsPlain

theorem secretKey_step (w : Hosting) (event : HostingEvent) :
    (w.step parties event).host.secretKey = w.host.secretKey := by
  cases event with
  | tick later => rfl
  | request random uptime r =>
    rcases w.host.answer_cases (w.surroundings parties random uptime) r w.files with
      ⟨a, ha⟩ | ⟨_, _, _, _, a, ha⟩
    · simp only [step, ha]
    · simp only [step, ha, Host.written_secretKey]
  | look =>
    rcases w.host.look_cases w.files w.now with ⟨-, hl⟩ | ⟨-, hl⟩
    · simp only [step, hl]
    · simp only [step, hl, Host.written_secretKey]
  | rotate => rfl
  | exchange seeds =>
    simp only [step]
    split <;> rfl

theorem le_now_step {event : HostingEvent} (ha : w.Allowed parties event) :
    w.now ≤ (w.step parties event).now := by
  cases event with
  | tick later => exact ha
  | request _ _ _ | look | rotate => exact Std.le_refl _
  | exchange seeds =>
    simp only [step]
    split <;> exact Std.le_refl _

/-- A request leaves the pool as it is, or adds an address at the instant of the clock. -/
theorem pool_request {random : Bytes} {uptime : Nat} {r : HttpRequest}
    (ha : w.Allowed parties (.request random uptime r)) :
    (w.step parties (.request random uptime r)).pool = w.pool ∨
      ∃ text, w.pool.activate text w.now =
        .ok (w.step parties (.request random uptime r)).pool := by
  rcases w.host.answer_cases (w.surroundings parties random uptime) r w.files with
    ⟨a, hanswer⟩ | ⟨activation, at_, pool, hadds, a, hanswer⟩
  · left
    simp only [step, hanswer, Hosting.pool]
  · right
    have hmillis := ha activation at_ pool hadds
    obtain rfl : w.now = at_ := by
      have hinstant := hadds.instant
      rw [hmillis] at hinstant
      exact Except.ok.inj hinstant
    refine ⟨activation.address, ?_⟩
    simp only [step, hanswer, Hosting.pool, Host.written_pool]
    exact HeldPool.pool_activate hadds.pool

theorem pool_look : (w.step parties .look).pool = (w.pool.rotateIfDue w.now).1 := by
  rw [Pool.rotateIfDue_fst]
  rcases w.host.look_cases w.files w.now with ⟨hdue, hl⟩ | ⟨hdue, hl⟩
  · simp only [step, hl, Hosting.pool, hdue, Bool.false_eq_true, if_false]
  · simp only [step, hl, Hosting.pool, hdue, if_true, Host.written_pool, HeldPool.pool_rotate]

theorem pool_rotate : (w.step parties .rotate).pool = w.pool.rotate w.now :=
  w.host.pool.pool_rotate w.now

theorem pool_exchange (seeds : ExchangeSeeds) :
    (w.step parties (.exchange seeds)).pool = w.pool := by
  simp only [step]
  split <;> rfl

/-- What comes into the pool has the instant of the clock. -/
theorem mem_entries_step (hw : w.pool.WellFormed) {event : HostingEvent}
    (ha : w.Allowed parties event) {e : Entry}
    (he : e ∈ (w.step parties event).pool.entries.toList) :
    e ∈ w.pool.entries.toList ∨ e.activatedAt = w.now := by
  cases event with
  | tick later => exact .inl he
  | request random uptime r =>
    rcases pool_request ha with hsame | ⟨text, hactivate⟩
    · exact .inl (hsame ▸ he)
    · obtain ⟨address, -, -, hpool⟩ := (Pool.activate_eq_ok hw.ordered).mp hactivate
      rw [hpool] at he
      cases Entry.mem_place.mp he with
      | inl hnew => exact .inr (hnew ▸ rfl)
      | inr hold => exact .inl hold
  | look =>
    rw [pool_look, Pool.rotateIfDue_fst] at he
    split at he <;> exact .inl he
  | rotate =>
    rw [pool_rotate] at he
    exact .inl he
  | exchange seeds => exact .inl (pool_exchange seeds ▸ he)

section Exchanges

variable (hkey : w.host.secretKey = parties.matcherKeys.secretKey) {seeds : ExchangeSeeds}
  (hopens : parties.Opens seeds) (hdate : ∀ d ∈ w.date, d.IsPlain)

include hkey hopens hdate

/-- What the payer receives is what it reads of the response of the pool. -/
theorem ask_of_response (hsends : w.Sends parties seeds) {response : Response}
    (hresponse : Wire.decodeResponse (Wire.encodeResponse
      (Allocation.allocate w.pool.source (w.date.map Instant.floorMillis) w.now)) = .ok response) :
    w.ask parties seeds = .ok response.allocation := by
  have hpost : ∀ blob reply,
      parties.cipher.encrypt seeds.request (Wire.encodeRequest (parties.exchange seeds w.date).request)
        parties.matcherKeys.publicKey = .ok blob →
      (parties.responder w.pool.source w.now).handle seeds.answer blob = .ok reply →
      (w.host.post (w.surroundings parties seeds.answer 0) blob).run w.files =
        (.ok reply, w.files) := by
    intro blob reply hblob hhandle
    rw [Parties.responder, ← hkey] at hhandle
    exact w.host.run_post _ _ (hsends.fits blob hblob) hhandle
  exact congrArg (·.1.2) (Parties.send_over hopens hdate hsends.toSends hpost hresponse)

/-- A payer that receives something has been sent it. -/
theorem sends_of_ask {allocation : Allocation} (hask : w.ask parties seeds = .ok allocation) :
    w.Sends parties seeds := by
  let post := w.host.post (w.surroundings parties seeds.answer 0)
  have hpost : ∀ blob answer, ((post blob).run w.files).1 = .ok answer →
      (parties.responder w.pool.source w.now).handle seeds.answer blob = .ok answer := by
    intro blob answer hanswer
    rw [Parties.responder, ← hkey]
    exact (Host.post_eq_ok.mp hanswer).2
  refine { Parties.sends_of_send hopens hdate hpost hask with fits := fun blob hblob => ?_ }
  obtain ⟨blob', answer, hblob', hanswer⟩ := Exchange.of_send_ok rfl hask
  obtain rfl := Except.ok.inj (hblob'.symm.trans hblob)
  exact (Host.post_eq_ok.mp hanswer).1

end Exchanges

/-- Envelopes get through to a host that takes bodies of eleven thousand bytes, unless its pool has
millions of entries. -/
theorem sends_envelope {suite : Suite} (hs : suite.OpensSealed) {keys : KeyPair} {id : PayerId}
    {seeds : ExchangeSeeds} (hpool : w.pool.WellFormed)
    (hsize : w.pool.cohort.length + w.pool.entries.size ≤ 2 ^ 24)
    (hlimit : 11000 ≤ w.host.settings.bodyLimit) : w.Sends ⟨Envelope.cipher suite, keys, id⟩ seeds where
  toSends := Parties.sends_envelope_of_size hpool hsize w.date w.now
  fits blob hblob := by
    have hrequest := Wire.length_encodeRequest_le id w.date (suite.generate seeds.replyKeys).publicKey
    rw [Envelope.length_cipher hs hblob]
    exact (Nat.add_le_add_left (Nat.add_le_add_right hrequest _) _).trans
      (Nat.le_trans (by decide) hlimit)

section Steps

variable (h : Consistent parties w)

include h

/-- An exchange over the web brings something just if both messages get through, and then what the
pool allocates for the date of the payer. -/
theorem Consistent.ask_eq_ok {seeds : ExchangeSeeds} (hopens : parties.Opens seeds)
    {allocation : Allocation} :
    let response := Allocation.allocate w.pool.source w.date w.now
    w.ask parties seeds = .ok allocation ↔ w.Sends parties seeds ∧
      allocation = ⟨response.addresses, response.replayDate.map Instant.floorMillis⟩ := by
  intro response
  have hresponded : w.pool.received w.date w.now =
      ⟨response.addresses, response.replayDate.map Instant.floorMillis⟩ := h.replay.received_eq
  rw [← hresponded]
  have hpool : w.pool.WellFormed := h.replay.pool
  have hdate : ∀ d ∈ w.date, d.IsPlain := h.replay.datePlain
  obtain ⟨response, hreceived, hresponse⟩ := hpool.decode_received h.replay.plain hdate w.now
  have hsent (hsends : w.Sends parties seeds) :
      w.ask parties seeds = .ok (w.pool.received w.date w.now) :=
    hreceived ▸ ask_of_response h.secretKey hopens hdate hsends hresponse
  constructor
  · intro hask
    have hsends := sends_of_ask h.secretKey hopens hdate hask
    exact ⟨hsends, Except.ok.inj (hask.symm.trans (hsent hsends))⟩
  · rintro ⟨hsends, rfl⟩
    exact hsent hsends

/-- What the payer receives over the web it would have received in the same process. -/
theorem Consistent.ask_view {seeds : ExchangeSeeds} (hopens : parties.Opens seeds)
    {allocation : Allocation} (hask : w.ask parties seeds = .ok allocation) :
    w.view.ask parties seeds = .ok allocation := by
  obtain ⟨hsends, rfl⟩ := (h.ask_eq_ok hopens).mp hask
  exact (h.replay.ask_eq_ok hopens).mpr ⟨hsends.toSends, rfl⟩

/-- For the pool an event of a host is one that a pool may go through. -/
theorem Consistent.view_step {event : HostingEvent} (ha : w.Allowed parties event) :
    ∃ event', (w.step parties event).view = w.view.step parties event' ∧
      w.view.Allowed parties event' := by
  cases event with
  | tick later => exact ⟨.tick later, rfl, ha⟩
  | request random uptime r =>
    rcases pool_request ha with hsame | ⟨text, hactivate⟩
    · refine ⟨.tick w.now, ?_, Std.le_refl _⟩
      rw [view, hsame]
      rfl
    · refine ⟨.change (.activate text w.now), ?_, h.clock, trivial⟩
      simp only [Replay.step, Pool.apply, view, hactivate]
      rfl
  | look =>
    refine ⟨.change (.rotateIfDue w.now), ?_, trivial, rfl⟩
    rw [view, pool_look]
    rfl
  | rotate =>
    refine ⟨.change (.rotate w.now), ?_, trivial, rfl⟩
    rw [view, pool_rotate]
    rfl
  | exchange seeds =>
    cases hask : w.ask parties seeds with
    | ok allocation =>
      refine ⟨.exchange seeds, ?_, ha⟩
      simp only [step, Replay.step, hask, h.ask_view ha hask]
      rfl
    | error e =>
      -- For the pool an exchange that fails is none.
      refine ⟨.tick w.now, ?_, Std.le_refl _⟩
      simp only [step, hask]
      rfl

theorem Consistent.step {event : HostingEvent} (ha : w.Allowed parties event)
    (hplain : KeepsPlain event) : Consistent parties (w.step parties event) where
  replay := by
    obtain ⟨event', hview, ha'⟩ := h.view_step ha
    exact hview ▸ h.replay.step ha'
  secretKey := (secretKey_step w event).trans h.secretKey
  active := by
    intro e he
    have hnow : e.activatedAt ≤ w.now := by
      cases mem_entries_step h.replay.pool ha he with
      | inl hold => exact h.active e hold
      | inr hnew => exact hnew ▸ Std.le_refl _
    exact Std.le_trans hnow (le_now_step ha)
  clock := by
    cases event with
    | tick later => exact hplain
    | request _ _ _ | look | rotate => exact h.clock
    | exchange seeds =>
      simp only [Hosting.step]
      split <;> exact h.clock

end Steps

/-! ## Whole runs -/

theorem Run.mono {P Q : Hosting → HostingEvent → Prop} (hPQ : ∀ w event, P w event → Q w event)
    (hrun : Run parties P w w') : Run parties Q w w' := by
  induction hrun with
  | refl => exact .refl _
  | step _ hevent ih => exact .step ih (hPQ _ _ hevent)

theorem Begins.consistent (h : w.Begins parties) (hplain : w.Plain) : Consistent parties w := by
  have hdate : ∀ d, d ∉ w.date := by
    rw [h.date]
    exact Option.not_mem_none
  exact {
    replay := {
      pool := h.pool.wellFormed
      plain := hplain.2
      cohort := fun e he => h.active e (h.pool.wellFormed.mem_of_mem_cohort he)
      datePlain := fun d hd => absurd hd (hdate d)
      dateMillis := fun d hd => absurd hd (hdate d)
      datePast := fun d hd => absurd hd (hdate d) }
    secretKey := h.secretKey
    active := h.active
    clock := hplain.1 }

theorem Consistent.run (h : Consistent parties w)
    (hrun : Run parties (fun w event => w.Allowed parties event ∧ KeepsPlain event) w w') :
    Consistent parties w' := by
  induction hrun with
  | refl => exact h
  | step _ hevent ih => exact ih.step hevent.1 hevent.2

end Hosting

end AddressExchange
