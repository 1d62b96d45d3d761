import AddressExchange.Proofs.Host.Hosting

/-!
# New addresses reach returning payers

A payer names the date of its last response with addresses. The next one brings all that came into
the pool since, except for what came at the very instant of that date and is not in the cohort. What
comes at one instant with a response may come before or after it, and the date cannot tell which.
-/

namespace AddressExchange

open Web

namespace Hosting

variable (parties : Parties)

/-- Does the payer receive no address in an event? -/
def Idle (w : Hosting) : HostingEvent → Prop
  | .exchange seeds => ∀ a, w.ask parties seeds = .ok a → a.addresses = []
  | .tick _ | .request _ _ _ | .look | .rotate => True

/-- After a response with addresses an entry comes into the pool, and the next response does not have
its address. -/
structure Misses (w₁ w₂ : Hosting) (e : Entry) : Prop where
  before : ∃ w, Begins parties w ∧ Run parties (Allowed parties) w w₁
  between : ∃ seeds first, w₁.Allowed parties (.exchange seeds) ∧
    w₁.ask parties seeds = .ok first ∧ first.addresses ≠ [] ∧
    Run parties (fun w event => w.Allowed parties event ∧ w.Idle parties event)
      (w₁.step parties (.exchange seeds)) w₂
  comes : e ∈ w₂.pool.entries.toList ∧ e ∉ w₁.pool.entries.toList
  missed : ∃ seeds next, w₂.Allowed parties (.exchange seeds) ∧ w₂.ask parties seeds = .ok next ∧
    e.address ∉ next.addresses

variable {parties : Parties} {w w' : Hosting}

/-! ## Exchanges with and without addresses -/

section Steps

variable (h : Consistent parties w)

include h

/-- An exchange that brings no address, or fails, leaves the payer the date that it has. -/
theorem Consistent.date_step {event : HostingEvent} (ha : w.Allowed parties event)
    (hidle : w.Idle parties event) : (w.step parties event).date = w.date := by
  cases event with
  | tick _ | request _ _ _ | look | rotate => rfl
  | exchange seeds =>
    cases hask : w.ask parties seeds with
    | error e => simp only [Hosting.step, hask]
    | ok allocation =>
      have hnone := hidle _ hask
      obtain ⟨-, hreceived⟩ := (h.ask_eq_ok ha).mp hask
      have hdate : allocation.replayDate = none := by
        rw [hreceived] at hnone ⊢
        exact congrArg (Option.map Instant.floorMillis) (Allocation.replayDate_eq_none hnone)
      simp only [Hosting.step, hask, hdate]
      rfl

/-- An exchange that brings addresses gives the payer a date. -/
theorem Consistent.date_exchange {seeds : ExchangeSeeds} (hopens : parties.Opens seeds)
    {first : Allocation} (hfirst : w.ask parties seeds = .ok first) (hsome : first.addresses ≠ []) :
    ∃ date, first.replayDate = some date ∧
      (w.step parties (.exchange seeds)).date = some date := by
  obtain ⟨-, hreceived⟩ := (h.ask_eq_ok hopens).mp hfirst
  have hconsidered : Allocation.considered w.pool.source w.date w.now ≠ [] := by
    intro hnil
    rw [hreceived, Allocation.allocate_eq_make, hnil] at hsome
    exact hsome rfl
  obtain ⟨d, hd, -⟩ := Allocation.le_replayDate hconsidered
  have hdate : first.replayDate = some d.floorMillis := by
    rw [hreceived]
    exact congrArg (Option.map Instant.floorMillis) hd
  refine ⟨d.floorMillis, hdate, ?_⟩
  simp only [Hosting.step, hfirst, hdate]
  rfl

/-- A payer with a date receives what is later than it or in the cohort. -/
theorem Consistent.mem_ask {seeds : ExchangeSeeds} (hopens : parties.Opens seeds) {date : Instant}
    (hdate : w.date = some date) {next : Allocation} (hnext : w.ask parties seeds = .ok next)
    {e : Entry} (he : e ∈ w.pool.entries.toList) :
    e.address ∈ next.addresses ↔ date < e.activatedAt ∨ e ∈ w.pool.cohort := by
  obtain ⟨-, rfl⟩ := (h.ask_eq_ok hopens).mp hnext
  have hpool : w.pool.WellFormed := h.replay.pool
  have hknown : Allocation.knownDate w.date w.now = some date :=
    Allocation.knownDate_eq_some.mpr ⟨hdate, h.replay.datePast date hdate⟩
  have hgiven : e.address ∈ (Allocation.allocate w.pool.source w.date w.now).addresses ↔
      e ∈ Allocation.considered w.pool.source w.date w.now :=
    Allocation.address_mem_allocate hpool he
  rw [Allocation.mem_considered hpool, hknown] at hgiven
  refine hgiven.trans ⟨?_, ?_⟩
  · rintro (hcohort | ⟨-, since, hsince, hlt, -⟩)
    · exact .inr hcohort
    · exact .inl (Option.some.inj hsince ▸ hlt)
  · rintro (hlt | hcohort)
    · exact .inr ⟨he, date, rfl, hlt, h.active e he⟩
    · exact .inl hcohort

end Steps

/-- As long as the payer receives no address it keeps its date, and what comes into the pool comes at
later instants. -/
theorem Consistent.idle_run (h : Consistent parties w)
    (hrun : Run parties
      (fun w event => (w.Allowed parties event ∧ KeepsPlain event) ∧ w.Idle parties event) w w') :
    Consistent parties w' ∧ w'.date = w.date ∧ w.now ≤ w'.now ∧
      ∀ e ∈ w'.pool.entries.toList, e ∈ w.pool.entries.toList ∨ w.now ≤ e.activatedAt := by
  induction hrun with
  | refl => exact ⟨h, rfl, Std.le_refl _, fun e he => .inl he⟩
  | step _ hevent ih =>
    obtain ⟨⟨ha, hplain⟩, hidle⟩ := hevent
    obtain ⟨h', hdate, hnow, hentries⟩ := ih
    refine ⟨h'.step ha hplain, (h'.date_step ha hidle).trans hdate,
      Std.le_trans hnow (le_now_step ha), fun e he => ?_⟩
    cases mem_entries_step h'.replay.pool ha he with
    | inl hold => exact hentries e hold
    | inr hnew => exact .inr (hnew ▸ hnow)

/-! ## A host with two addresses -/

/-- Parties whose envelopes carry their secrets in the open. -/
def sampleParties : Parties := ⟨Envelope.cipher Envelope.openSuite, .filled 1, .filled 7⟩

def sampleSeeds : ExchangeSeeds := ⟨[2], [3], [4]⟩

def sampleSettings : Settings := { cohortSize := 1, adminToken := some "t" }

/-- An administrator adds an address. -/
def sampleRequest : HttpRequest where
  method := "POST"
  target := "/api/v1/pool/addresses"
  headers := [("authorization", "Bearer t"), ("content-type", "application/json")]
  body := Text.utf8 "\x7b\"address\":\"1B\"\x7d"

/-- One address was activated just now, and is the cohort. -/
def sampleStart (t : Instant) : Hosting where
  host := {
    settings := sampleSettings
    secretKey := (KeyPair.filled 1).secretKey
    pool := .memory (({ config := sampleSettings.pool } : Pool).operateAll [
      .change (.activate "1A" t), .change (.rotate t)]) }
  files := {}
  now := t
  date := none

/-- The payer asks, and later another address is added. -/
def sampleEnd (t later : Instant) : Hosting :=
  (((sampleStart t).step sampleParties (.exchange sampleSeeds)).step sampleParties
    (.tick later)).step sampleParties (.request [] 0 sampleRequest)

/-- The pool in the end. -/
def samplePool (t later : Instant) : Pool where
  config := sampleSettings.pool
  entries := #[⟨"1A", t⟩, ⟨"1B", later⟩]
  cohort := [⟨"1A", t⟩]
  lastRotation := some t
  rotations := 1

section Sample

variable {t later d : Instant}

theorem opens_sampleParties : sampleParties.Opens sampleSeeds :=
  Parties.opens_envelope Envelope.opensSealed_openSuite (Envelope.isPair_openSuite _ _)
    (Envelope.isPair_openSuite _ _)

theorem pool_sampleStart (t : Instant) : (sampleStart t).pool = {
    config := sampleSettings.pool
    entries := #[⟨"1A", t⟩]
    cohort := [⟨"1A", t⟩]
    lastRotation := some t
    rotations := 1 } := by
  let config := sampleSettings.pool
  have hactivate : ({ config } : Pool).activate "1A" t =
      .ok { config, entries := #[⟨"1A", t⟩] } :=
    Pool.activate_first config (by decide +kernel)
  let p : Pool := { config, entries := #[⟨"1A", t⟩] }
  have hordered : Entry.Ordered p.entries.toList := List.pairwise_singleton _ _
  have hactive : p.active t = [⟨"1A", t⟩] := by
    simp [Pool.active, p, Std.le_refl]
  have hcohort : (p.rotate t).cohort = [⟨"1A", t⟩] := by
    rw [Pool.rotate_cohort hordered, hactive]
    rfl
  have hpool : (sampleStart t).pool = p.rotate t := by
    have happly : ({ config } : Pool).apply (.activate "1A" t) = p := by
      rw [Pool.apply, hactivate]
    exact congrArg (Pool.rotate · t) happly
  have hrotate : p.rotate t = { p with
      cohort := (p.rotate t).cohort, lastRotation := some t, rotations := 1 } := rfl
  rw [hpool, hrotate, hcohort]

theorem read_sampleRequest :
    Host.readActivation sampleSettings sampleRequest = .ok ⟨"1B", none⟩ := by
  have hjson : sampleRequest.isJson = true := by
    have hheader : sampleRequest.header? "content-type" = some "application/json" := by
      decide +kernel
    rw [HttpRequest.isJson, hheader, Option.bind_some, MediaType.parse_json]
    rfl
  have hlength : Host.bringsTooMuch sampleSettings sampleRequest = false := by decide +kernel
  have hbody : Host.Activation.reader sampleRequest.body = .ok (⟨"1B", none⟩, []) := rfl
  simp only [Host.readActivation, hjson, hlength, hbody, Bool.not_true, Bool.false_eq_true, if_false]

theorem adds_sampleRequest (hsettings : w.host.settings = sampleSettings) {pool : HeldPool}
    (hpool : w.host.pool.activate "1B" w.now = .ok pool) :
    w.host.Adds (w.surroundings sampleParties [] 0) sampleRequest ⟨"1B", none⟩ w.now pool where
  route := by decide +kernel
  length := by
    rw [hsettings]
    decide +kernel
  authorized := by
    rw [hsettings]
    rfl
  method := rfl
  read := by rw [hsettings, read_sampleRequest]
  instant := rfl
  pool := hpool

theorem begins_sampleStart (t : Instant) : (sampleStart t).Begins sampleParties where
  secretKey := rfl
  pool := (Pool.Reachable.empty _).operateAll _
  active := by
    rw [pool_sampleStart]
    intro e he
    rw [List.mem_singleton.mp he]
    exact Std.le_refl t
  date := rfl

theorem sends_sampleStart (t : Instant) : (sampleStart t).Sends sampleParties sampleSeeds := by
  refine sends_envelope Envelope.opensSealed_openSuite (begins_sampleStart t).pool.wellFormed ?_ ?_
  · rw [pool_sampleStart]
    exact (by decide : 1 + 1 ≤ 2 ^ 24)
  · exact (by decide : 11000 ≤ sampleSettings.bodyLimit)

theorem activate_sampleStart (hle : t ≤ later) :
    (sampleStart t).pool.activate "1B" later = .ok (samplePool t later) := by
  have hstart := begins_sampleStart t
  have hfresh : "1B" ∉ (sampleStart t).pool.entries.toList.map (·.address) := by
    rw [pool_sampleStart]
    simp
  have hlast : ∀ e ∈ (sampleStart t).pool.entries.toList, e.activatedAt ≤ later := fun e he =>
    Std.le_trans (hstart.active e he) hle
  rw [Pool.activate_last hstart.pool.wellFormed.ordered (by decide +kernel) hfresh hlast,
    pool_sampleStart]
  rfl

theorem wellFormed_samplePool (hle : t ≤ later) : (samplePool t later).WellFormed :=
  (begins_sampleStart t).pool.wellFormed.activate (activate_sampleStart hle)

theorem mem_samplePool {e : Entry} :
    e ∈ (samplePool t later).entries.toList ↔ e = ⟨"1A", t⟩ ∨ e = ⟨"1B", later⟩ := by
  simp [samplePool]

/-- If the first instant is in a leap second, then the second response has the other one. -/
theorem plain_samplePool (hplain : d.IsPlain) (hle : t ≤ later) (hlater : later.IsPlain) {r : Instant}
    (hr : (Allocation.allocate (samplePool t later).source (some d) later).replayDate = some r) :
    r.IsPlain := by
  have hformed := wellFormed_samplePool hle
  have hmem : ⟨"1B", later⟩ ∈ (samplePool t later).entries.toList := mem_samplePool.mpr (.inr rfl)
  have hactive := Allocation.le_replayDate_of_active hformed hr
    (Pool.mem_active.mpr ⟨hmem, Std.le_refl later⟩)
  cases Allocation.replayDate_mem hformed hr with
  | inl hprior => exact Option.some.inj hprior ▸ hplain
  | inr hentry =>
    obtain ⟨x, hx, rfl⟩ := hentry
    rcases mem_samplePool.mp hx with rfl | rfl
    · exact Std.le_antisymm hle hactive ▸ hlater
    · exact hlater

section Exchanges

-- The wire makes `d` of the first instant.
variable (hd : Wire.decodeResponse (Wire.encodeResponse (.make (some t) ["1A"])) =
      .ok (.make (some d) ["1A"]))

include hd

/-- The payer receives the one address, and what the wire leaves of its instant. -/
theorem ask_sampleStart :
    (sampleStart t).ask sampleParties sampleSeeds = .ok ⟨["1A"], some d⟩ := by
  have hconsidered : Allocation.considered (sampleStart t).pool.source none t = [⟨"1A", t⟩] := by
    rw [pool_sampleStart]
    rfl
  have hdate : (Allocation.allocate (sampleStart t).pool.source none t).replayDate = some t := by
    obtain ⟨r, hr, -⟩ := Allocation.le_replayDate (hconsidered ▸ List.cons_ne_nil _ _)
    cases Allocation.replayDate_mem (begins_sampleStart t).pool.wellFormed hr with
    | inl hnone => cases hnone
    | inr hentry =>
      obtain ⟨e, he, rfl⟩ := hentry
      rw [pool_sampleStart] at he
      rw [hr, List.mem_singleton.mp he]
  have hallocate : Allocation.allocate (sampleStart t).pool.source none t =
      .make (some t) ["1A"] := by
    rw [Allocation.allocate_eq_make, hconsidered, hdate]
    rfl
  exact ask_of_response rfl opens_sampleParties (fun d hd => absurd hd (Option.not_mem_none d))
    (sends_sampleStart t) (by rw [← hd, ← hallocate]; rfl)

variable (hle : t ≤ later)

include hle

theorem sampleEnd_eq :
    sampleEnd t later = {
      host := {
        settings := sampleSettings
        secretKey := (KeyPair.filled 1).secretKey
        pool := .memory (samplePool t later) }
      files := {}
      now := later
      date := some d } := by
  let w : Hosting := { sampleStart t with now := later, date := some d }
  have hw : ((sampleStart t).step sampleParties (.exchange sampleSeeds)).step sampleParties
      (.tick later) = w := by
    rw [step, step, ask_sampleStart hd]
    rfl
  have hactivate : w.host.pool.activate "1B" w.now = .ok (.memory (samplePool t later)) :=
    congrArg (Except.map HeldPool.memory) (activate_sampleStart hle)
  obtain ⟨a, ha⟩ := (adds_sampleRequest rfl hactivate).answer w.files
  rw [sampleEnd, hw, step, ha]
  rfl

theorem sends_sampleEnd : (sampleEnd t later).Sends sampleParties sampleSeeds := by
  rw [sampleEnd_eq hd hle]
  refine sends_envelope Envelope.opensSealed_openSuite (wellFormed_samplePool hle) ?_ ?_
  · exact (by decide : 1 + 2 ≤ 2 ^ 24)
  · exact (by decide : 11000 ≤ sampleSettings.bodyLimit)

theorem run_sampleEnd (hlater : later.IsPlain) :
    Run sampleParties (fun w event =>
        (w.Allowed sampleParties event ∧ KeepsPlain event) ∧ w.Idle sampleParties event)
      ((sampleStart t).step sampleParties (.exchange sampleSeeds)) (sampleEnd t later) := by
  have hasked : (sampleStart t).step sampleParties (.exchange sampleSeeds) =
      { sampleStart t with date := some d } := by
    rw [step, ask_sampleStart hd]
    rfl
  refine .step (.step (.refl _) ?_) ?_
  · rw [hasked]
    exact ⟨⟨hle, hlater⟩, trivial⟩
  · refine ⟨⟨fun activation at_ pool hadds => ?_, trivial⟩, trivial⟩
    rw [hasked] at hadds
    have hread := hadds.read.symm.trans read_sampleRequest
    rw [Except.ok.inj hread]

theorem comes_sampleEnd :
    ⟨"1B", later⟩ ∈ (sampleEnd t later).pool.entries.toList ∧
      ⟨"1B", later⟩ ∉ (sampleStart t).pool.entries.toList := by
  rw [sampleEnd_eq hd hle, pool_sampleStart]
  exact ⟨mem_samplePool.mpr (.inr rfl), by simp⟩

/-- The second response arrives, with its date in milliseconds. -/
theorem ask_sampleEnd (hfloor : d.floorMillis = d) (hplain : d.IsPlain) (hlater : later.IsPlain) :
    let response := Allocation.allocate (samplePool t later).source (some d) later
    (sampleEnd t later).ask sampleParties sampleSeeds =
      .ok ⟨response.addresses, response.replayDate.map Instant.floorMillis⟩ := by
  have hend := sampleEnd_eq hd hle
  have hkey : (sampleEnd t later).host.secretKey = sampleParties.matcherKeys.secretKey := by
    rw [hend]
    rfl
  have hpool : (sampleEnd t later).pool = samplePool t later := by
    rw [hend]
    rfl
  have hnow : (sampleEnd t later).now = later := by rw [hend]
  have hheld : (sampleEnd t later).date = some d := by rw [hend]
  have hheldPlain : ∀ x ∈ (sampleEnd t later).date, x.IsPlain := by
    rw [hheld]
    exact fun x hx => Option.some.inj hx ▸ hplain
  have hresponse := (wellFormed_samplePool hle).decodeResponse
    fun r hr => plain_samplePool hplain hle hlater hr
  intro response
  have hask : (sampleEnd t later).ask sampleParties sampleSeeds = .ok (Response.make
      (response.replayDate.map Instant.floorMillis) response.addresses).allocation := by
    refine ask_of_response hkey opens_sampleParties hheldPlain (sends_sampleEnd hd hle) ?_
    rw [hpool, hnow, hheld, Option.map_some, hfloor]
    exact hresponse
  exact hask

/-- The payer misses the other address if its date is not before the instant of that. -/
theorem misses_sampleEnd (hfloor : d.floorMillis = d) (hplain : d.IsPlain)
    (hlater : later.IsPlain) (hlate : later ≤ d) :
    Misses sampleParties (sampleStart t) (sampleEnd t later) ⟨"1B", later⟩ where
  before := ⟨_, begins_sampleStart t, .refl _⟩
  between := by
    have hrun := run_sampleEnd hd hle hlater
    exact ⟨sampleSeeds, _, opens_sampleParties, ask_sampleStart hd, List.cons_ne_nil _ _,
      hrun.mono fun w event h => ⟨h.1.1, h.2⟩⟩
  comes := comes_sampleEnd hd hle
  missed := by
    have hformed := wellFormed_samplePool hle
    have hmem : ⟨"1B", later⟩ ∈ (samplePool t later).entries.toList := mem_samplePool.mpr (.inr rfl)
    refine ⟨sampleSeeds, _, opens_sampleParties, ask_sampleEnd hd hle hfloor hplain hlater, ?_⟩
    intro hgiven
    have hconsidered := (Allocation.address_mem_allocate hformed hmem).mp hgiven
    rcases (Allocation.mem_considered hformed).mp hconsidered with
      hcohort | ⟨-, since, hknown, hlt, -⟩
    · simp [samplePool] at hcohort
    · obtain ⟨hsince, -⟩ := Allocation.knownDate_eq_some.mp hknown
      obtain rfl := Option.some.inj hsince
      exact absurd hlt (Std.not_lt.mpr hlate)

end Exchanges

end Sample

/-! ## What arrives -/

/-- A payer has received addresses, and since then, in whatever happened, no address. It asks again
with the date of that response, and receives something just if both messages get through. Of all that
has come into the pool since, it then receives what is later than the date or in the cohort. All of it
came at or after the instant of the response, and the date is not later than that: what is missed came
at this very instant. -/
theorem new_addresses_arrive {w w₁ w₂ : Hosting} (hw : w.Begins parties) (hplain : w.Plain)
    (h₁ : Run parties (fun w event => w.Allowed parties event ∧ KeepsPlain event) w w₁)
    {seeds : ExchangeSeeds} (hs : w₁.Allowed parties (.exchange seeds)) {first : Allocation}
    (hfirst : w₁.ask parties seeds = .ok first) (hsome : first.addresses ≠ [])
    (h₂ : Run parties
      (fun w event => (w.Allowed parties event ∧ KeepsPlain event) ∧ w.Idle parties event)
      (w₁.step parties (.exchange seeds)) w₂)
    {seeds' : ExchangeSeeds} (hs' : w₂.Allowed parties (.exchange seeds')) :
    ∃ date, first.replayDate = some date ∧ w₂.date = some date ∧ date ≤ w₁.now ∧
      ((∃ next, w₂.ask parties seeds' = .ok next) ↔ w₂.Sends parties seeds') ∧
      ∀ next, w₂.ask parties seeds' = .ok next →
        ∀ e ∈ w₂.pool.entries.toList, e ∉ w₁.pool.entries.toList → w₁.now ≤ e.activatedAt ∧
          (e.address ∈ next.addresses ↔ date < e.activatedAt ∨ e ∈ w₂.pool.cohort) := by
  have hc₁ : Consistent parties w₁ := (hw.consistent hplain).run h₁
  obtain ⟨date, hreplay, hdate⟩ := hc₁.date_exchange hs hfirst hsome
  have hstep := hc₁.step hs trivial
  have hnow : (w₁.step parties (.exchange seeds)).now = w₁.now := by
    simp only [Hosting.step, hfirst]
  obtain ⟨hc₂, hdate₂, -, hentries⟩ := hstep.idle_run h₂
  rw [hdate] at hdate₂
  rw [hnow, pool_exchange] at hentries
  have hpast : date ≤ w₁.now := hnow ▸ hstep.replay.datePast date hdate
  refine ⟨date, hreplay, hdate₂, hpast, ?_, fun next hnext e he hnew => ?_⟩
  · simp only [hc₂.ask_eq_ok hs', exists_and_left, exists_eq, and_true]
  · exact ⟨(hentries e he).resolve_left hnew, hc₂.mem_ask hs' hdate₂ hnext he⟩

/-- An address is added a while after the first response. -/
theorem new_addresses_arrive_in_time :
    ∃ next, (sampleEnd (.early 1 0) (.early 5 0)).ask sampleParties sampleSeeds = .ok next ∧
      "1B" ∈ next.addresses := by
  have hd : Wire.decodeResponse (Wire.encodeResponse (.make (some (.early 1 0)) ["1A"])) =
      .ok (.make (some (.early 1 0)) ["1A"]) := by
    rfl
  have hle : Instant.early 1 0 ≤ .early 5 0 := by decide
  have hplain : (sampleStart (.early 1 0)).Plain := by
    refine ⟨rfl, ?_⟩
    rw [pool_sampleStart]
    intro e he
    rw [List.mem_singleton.mp he]
    rfl
  obtain ⟨date, hdate, -, -, hsome, hgiven⟩ := new_addresses_arrive (begins_sampleStart _) hplain
    (.refl _) opens_sampleParties (ask_sampleStart hd) (List.cons_ne_nil _ _)
    (run_sampleEnd hd hle rfl) opens_sampleParties
  obtain ⟨next, hnext⟩ := hsome.mpr (sends_sampleEnd hd hle)
  obtain rfl := Option.some.inj hdate
  obtain ⟨hmem, hnew⟩ := comes_sampleEnd hd hle
  exact ⟨next, hnext, ((hgiven next hnext _ hmem hnew).2).mpr (.inl (by decide))⟩

/-- An address that is added at the instant of the response is missed, and so is one that is added
after a response in a leap second, whose date the wire carries past that. -/
theorem new_addresses_missed :
    let leap : Instant := { seconds := 59, nanos := 1500000000 }
    Misses sampleParties (sampleStart (.early 1 0)) (sampleEnd (.early 1 0) (.early 1 0))
        ⟨"1B", .early 1 0⟩ ∧
      Misses sampleParties (sampleStart leap) (sampleEnd leap (.early 60 200000000))
        ⟨"1B", .early 60 200000000⟩ := by
  intro leap
  have hd : Wire.decodeResponse (Wire.encodeResponse (.make (some (.early 1 0)) ["1A"])) =
      .ok (.make (some (.early 1 0)) ["1A"]) := by
    rfl
  have hleap : Wire.decodeResponse (Wire.encodeResponse (.make (some leap) ["1A"])) =
      .ok (.make (some (.early 60 500000000)) ["1A"]) := by
    decide +kernel
  constructor
  · exact misses_sampleEnd hd (by decide) (by decide) rfl rfl (by decide)
  · exact misses_sampleEnd hleap (by decide) (by decide) rfl rfl (by decide)

end Hosting

end AddressExchange
