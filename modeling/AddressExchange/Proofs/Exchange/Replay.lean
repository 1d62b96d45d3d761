import AddressExchange.Proofs.Exchange

/-!
# No address is skipped

A Matcher changes its pool while the clock goes on, and a payer asks it now and then. The payer
names the date of the last answer that had one. What its date has not reached it will be given: the
date passes the instant of an entry of the pool only in an exchange that brings its address. An exchange
in which the cipher does not take the request or the response fails, and leaves the date as it is.
-/

namespace AddressExchange

/-- The pool of the Matcher, the clock, and the date that the payer holds. -/
structure Replay where
  pool : Pool
  now : Instant
  date : Option Instant

/-- What may happen. -/
inductive ReplayEvent where
  | tick (later : Instant)
  | change (c : Pool.Change)
  | exchange (seeds : ExchangeSeeds)

namespace Replay

variable (parties : Parties)

/-- What the payer receives when it asks. -/
def ask (w : Replay) (seeds : ExchangeSeeds) : Except Failure Allocation :=
  match Exchange.build parties.cipher seeds.replyKeys parties.matcherKeys.publicKey
      (some parties.payerId) w.date with
  | .error e => .error e
  | .ok x =>
    let responder : Responder := ⟨parties.cipher, parties.matcherKeys.secretKey, w.pool.source, w.now⟩
    ((x.send parties.cipher seeds.request (responder.post seeds.answer)).run ()).1.2

/-- What is there after an event. An answer without a date leaves the payer the one that it has. -/
def step (w : Replay) : ReplayEvent → Replay
  | .tick later => { w with now := later }
  | .change c => { w with pool := w.pool.apply c }
  | .exchange seeds =>
    match w.ask parties seeds with
    | .ok allocation => { w with date := allocation.replayDate.or w.date }
    | .error _ => w

/-- May an event happen? The clock does not go back, rotations are at its instant, entries are
activated outside leap seconds, and the cipher opens what it encrypts in an exchange. -/
def Allowed (w : Replay) : ReplayEvent → Prop
  | .tick later => w.now ≤ later
  | .change c => c.AllInstants Instant.IsPlain ∧ c.RotatesAt w.now
  | .exchange seeds => parties.Opens seeds

/-- Does the cipher take the request of the payer, and the response to it? -/
def Sends (w : Replay) (seeds : ExchangeSeeds) : Prop :=
  parties.Sends seeds w.pool.source w.date w.now

/-- Does an event leave an entry in the pool, and bring the payer nothing at or after its instant? -/
def Awaits (e : Entry) (w : Replay) (event : ReplayEvent) : Prop :=
  e ∈ (w.step parties event).pool.entries.toList ∧
    ∀ seeds allocation, event = .exchange seeds → w.ask parties seeds = .ok allocation →
      w.now < e.activatedAt

/-- Events that have a property, one after another. -/
inductive Run (P : Replay → ReplayEvent → Prop) : Replay → Replay → Prop
  | refl (w : Replay) : Run P w w
  | step {w w' : Replay} {event : ReplayEvent} (run : Run P w w') (h : P w' event) :
      Run P w (w'.step parties event)

/-- At the beginning the pool is empty, and the payer has no date. -/
def start (config : PoolConfig) (now : Instant) : Replay := ⟨{ config }, now, none⟩

/-! ## What holds at all times -/

/-- The pool is in order and its cohort active, and the date of the payer is a past one in
milliseconds. -/
structure Consistent (w : Replay) : Prop where
  pool : w.pool.WellFormed
  plain : w.pool.AllInstants Instant.IsPlain
  cohort : ∀ e ∈ w.pool.cohort, e.activatedAt ≤ w.now
  datePlain : ∀ d ∈ w.date, d.IsPlain
  dateMillis : ∀ d ∈ w.date, d.floorMillis = d
  datePast : ∀ d ∈ w.date, d ≤ w.now

variable {parties : Parties} {w w' : Replay}

theorem consistent_start (config : PoolConfig) (now : Instant) : Consistent (start config now) where
  pool := Pool.wellFormed_empty config
  plain _ he := absurd he List.not_mem_nil
  cohort _ he := absurd he List.not_mem_nil
  datePlain d hd := absurd hd (Option.not_mem_none d)
  dateMillis d hd := absurd hd (Option.not_mem_none d)
  datePast d hd := absurd hd (Option.not_mem_none d)

/-- The date of the payer stays as it is on the way. -/
theorem Consistent.received_eq (h : Consistent w) :
    let response := Allocation.allocate w.pool.source w.date w.now
    w.pool.received w.date w.now =
      ⟨response.addresses, response.replayDate.map Instant.floorMillis⟩ := by
  have hfloor : w.date.map Instant.floorMillis = w.date := by
    cases hd : w.date with
    | none => rfl
    | some d => exact congrArg some (h.dateMillis d hd)
  rw [Pool.received, hfloor]

section Steps

variable (h : Consistent w)

include h

/-- An exchange brings something just if the cipher takes the request and the response, and then what
the pool allocates for the date of the payer. -/
theorem Consistent.ask_eq_ok {seeds : ExchangeSeeds} (hopens : parties.Opens seeds)
    {allocation : Allocation} :
    let response := Allocation.allocate w.pool.source w.date w.now
    w.ask parties seeds = .ok allocation ↔ w.Sends parties seeds ∧
      allocation = ⟨response.addresses, response.replayDate.map Instant.floorMillis⟩ := by
  intro response
  rw [← h.received_eq]
  have hsent (hsends : w.Sends parties seeds) :
      w.ask parties seeds = .ok (w.pool.received w.date w.now) :=
    congrArg (·.1.2) (h.pool.exchange h.plain hopens h.datePlain hsends ())
  let responder := parties.responder w.pool.source w.now
  have hpost : ∀ blob answer, ((responder.post seeds.answer blob).run ()).1 = .ok answer →
      responder.handle seeds.answer blob = .ok answer := fun _ _ hanswer => hanswer
  constructor
  · intro hask
    have hsends : w.Sends parties seeds := Parties.sends_of_send hopens h.datePlain hpost hask
    exact ⟨hsends, Except.ok.inj (hask.symm.trans (hsent hsends))⟩
  · rintro ⟨hsends, rfl⟩
    exact hsent hsends

/-- An exchange gives the payer the date of the response in milliseconds, if it has one. -/
theorem Consistent.step_of_sends {seeds : ExchangeSeeds} (hopens : parties.Opens seeds)
    (hsends : w.Sends parties seeds) :
    let response := Allocation.allocate w.pool.source w.date w.now
    w.step parties (.exchange seeds) =
      { w with date := (response.replayDate.map Instant.floorMillis).or w.date } := by
  intro response
  rw [Replay.step, (h.ask_eq_ok hopens).mpr ⟨hsends, rfl⟩]

omit h in
/-- An exchange that fails leaves all as it is. -/
theorem step_of_error {seeds : ExchangeSeeds} {e : Failure} (he : w.ask parties seeds = .error e) :
    w.step parties (.exchange seeds) = w := by
  rw [Replay.step, he]

/-- An exchange leaves all as it is, or gives the payer the date of the response in milliseconds, if it
has one. -/
theorem Consistent.step_exchange {seeds : ExchangeSeeds} (hopens : parties.Opens seeds) :
    let response := Allocation.allocate w.pool.source w.date w.now
    w.step parties (.exchange seeds) = w ∨ w.step parties (.exchange seeds) =
      { w with date := (response.replayDate.map Instant.floorMillis).or w.date } := by
  cases hask : w.ask parties seeds with
  | error e => exact .inl (step_of_error hask)
  | ok allocation => exact .inr (h.step_of_sends hopens ((h.ask_eq_ok hopens).mp hask).1)

theorem Consistent.step {event : ReplayEvent} (ha : w.Allowed parties event) :
    Consistent (w.step parties event) := by
  cases event with
  | tick later =>
    -- What was in the past stays there.
    have hle : w.now ≤ later := ha
    exact { h with
      cohort := fun e he => Std.le_trans (h.cohort e he) hle
      datePast := fun d hd => Std.le_trans (h.datePast d hd) hle }
  | change c =>
    exact { h with
      pool := h.pool.apply c
      plain := h.plain.apply h.pool ha.1
      cohort := Pool.cohort_active_apply h.pool h.cohort ha.2 }
  | exchange seeds =>
    rcases h.step_exchange ha with hstep | hstep
    · exact hstep.symm ▸ h
    rw [hstep]
    -- The new date is the one that the payer had, or comes from the response.
    have hdate : ∀ d ∈ ((Allocation.allocate w.pool.source w.date w.now).replayDate.map
        Instant.floorMillis).or w.date, d ∈ w.date ∨ ∃ r, r.floorMillis = d ∧
          (Allocation.allocate w.pool.source w.date w.now).replayDate = some r := by
      intro d hd
      cases hr : (Allocation.allocate w.pool.source w.date w.now).replayDate with
      | none =>
        rw [hr] at hd
        exact .inl hd
      | some r =>
        rw [hr] at hd
        exact .inr ⟨r, Option.some.inj hd, rfl⟩
    refine { h with datePlain := ?_, dateMillis := ?_, datePast := ?_ }
    · intro d hd
      rcases hdate d hd with hold | ⟨r, rfl, hr⟩
      · exact h.datePlain d hold
      · rw [Instant.IsPlain, Instant.isLeap_floorMillis]
        rcases Allocation.replayDate_mem h.pool hr with hprior | ⟨e, he, rfl⟩
        · exact h.datePlain r hprior
        · exact h.plain e he
    · intro d hd
      rcases hdate d hd with hold | ⟨r, rfl, hr⟩
      · exact h.dateMillis d hold
      · exact Instant.floorMillis_floorMillis r
    · intro d hd
      rcases hdate d hd with hold | ⟨r, rfl, hr⟩
      · exact h.datePast d hold
      · exact Std.le_trans r.floorMillis_le (Allocation.replayDate_le h.pool h.cohort hr)

/-- No event sets the date of the payer back. -/
theorem Consistent.le_date_step {event : ReplayEvent} (ha : w.Allowed parties event) {d : Instant}
    (hd : w.date = some d) : ∃ d', (w.step parties event).date = some d' ∧ d ≤ d' := by
  cases event with
  | tick later => exact ⟨d, hd, Std.le_refl d⟩
  | change c => exact ⟨d, hd, Std.le_refl d⟩
  | exchange seeds =>
    rcases h.step_exchange ha with hstep | hstep <;> rw [hstep]
    · exact ⟨d, hd, Std.le_refl d⟩
    cases hr : (Allocation.allocate w.pool.source w.date w.now).replayDate with
    | none => exact ⟨d, hd, Std.le_refl d⟩
    | some r =>
      -- Rounding down keeps the order, and leaves the payer's own date as it is.
      have hknown : Allocation.knownDate w.date w.now = some d :=
        Allocation.knownDate_eq_some.mpr ⟨hd, h.datePast d hd⟩
      have hle := Instant.floorMillis_mono (Allocation.le_replayDate_of_known hknown hr)
      rw [h.dateMillis d hd] at hle
      exact ⟨r.floorMillis, rfl, hle⟩

/-- The date of the payer does not reach an entry that is awaited. -/
theorem Consistent.date_lt_step {event : ReplayEvent} (ha : w.Allowed parties event) {e : Entry}
    (he : w.Awaits parties e event) {d : Instant} (hd : w.date = some d) (hlt : d < e.activatedAt) :
    ∃ d', (w.step parties event).date = some d' ∧ d' < e.activatedAt := by
  cases event with
  | tick later => exact ⟨d, hd, hlt⟩
  | change c => exact ⟨d, hd, hlt⟩
  | exchange seeds =>
    cases hask : w.ask parties seeds with
    | error e => exact ⟨d, by rw [step_of_error hask, hd], hlt⟩
    | ok allocation =>
      -- The new date is in the past, and the clock has not reached the entry.
      obtain ⟨d', hd', -⟩ := h.le_date_step ha hd
      have hpast := (h.step ha).datePast d' hd'
      rw [h.step_of_sends ha ((h.ask_eq_ok ha).mp hask).1] at hpast
      exact ⟨d', hd', Std.lt_of_le_of_lt hpast (he.2 seeds allocation rfl hask)⟩

/-- What an exchange brings has every active entry that the date of the payer has not reached. -/
theorem Consistent.mem_ask {e : Entry} (he : e ∈ w.pool.entries.toList) {d : Instant}
    (hd : w.date = some d) (hlt : d < e.activatedAt) (hle : e.activatedAt ≤ w.now)
    {seeds : ExchangeSeeds} (hopens : parties.Opens seeds) {allocation : Allocation}
    (hask : w.ask parties seeds = .ok allocation) : e.address ∈ allocation.addresses := by
  obtain ⟨-, rfl⟩ := (h.ask_eq_ok hopens).mp hask
  have hknown : Allocation.knownDate w.date w.now = some d :=
    Allocation.knownDate_eq_some.mpr ⟨hd, h.datePast d hd⟩
  have hgiven := (Allocation.mem_considered h.pool).mpr (.inr ⟨he, d, hknown, hlt, hle⟩)
  exact (Allocation.address_mem_allocate h.pool he).mpr hgiven

end Steps

/-! ## Whole runs -/

theorem Consistent.run (h : Consistent w) (hrun : Run parties (Allowed parties) w w') :
    Consistent w' := by
  induction hrun with
  | refl => exact h
  | step _ ha ih => exact ih.step ha

theorem Consistent.le_date_run (h : Consistent w) (hrun : Run parties (Allowed parties) w w')
    {d : Instant} (hd : w.date = some d) : ∃ d', w'.date = some d' ∧ d ≤ d' := by
  induction hrun with
  | refl => exact ⟨d, hd, Std.le_refl d⟩
  | step hrun ha ih =>
    obtain ⟨d', hd', hle⟩ := ih
    obtain ⟨d'', hd'', hle'⟩ := (h.run hrun).le_date_step ha hd'
    exact ⟨d'', hd'', Std.le_trans hle hle'⟩

theorem Consistent.date_lt_run (h : Consistent w) {e : Entry}
    (hrun : Run parties (fun w event => w.Allowed parties event ∧ w.Awaits parties e event) w w')
    {d : Instant} (hd : w.date = some d) (hlt : d < e.activatedAt) :
    Consistent w' ∧ ∃ d', w'.date = some d' ∧ d' < e.activatedAt := by
  induction hrun with
  | refl => exact ⟨h, d, hd, hlt⟩
  | step _ ha ih =>
    obtain ⟨h', d', hd', hlt'⟩ := ih
    exact ⟨h'.step ha.1, h'.date_lt_step ha.1 ha.2 hd' hlt'⟩

/-- What is awaited stays in the pool. -/
theorem mem_entries_run {e : Entry} (he : e ∈ w.pool.entries.toList)
    (hrun : Run parties (fun w event => w.Allowed parties event ∧ w.Awaits parties e event) w w') :
    e ∈ w'.pool.entries.toList := by
  cases hrun with
  | refl => exact he
  | step _ ha => exact ha.2.1

/-- Whatever happens, the date of the payer does not go back and is never in the future. An entry
that it has not reached it does not pass as long as the entry stays in the pool, and the first
exchange at or after the instant of the entry brings its address. An exchange fails only if the cipher
does not take the request or the response. -/
theorem no_entry_skipped (config : PoolConfig) (now : Instant)
    (hw : Run parties (Allowed parties) (start config now) w) :
    (∀ d, w.date = some d → d ≤ w.now ∧
      ∀ w', Run parties (Allowed parties) w w' → ∃ d', w'.date = some d' ∧ d ≤ d') ∧
    ∀ e ∈ w.pool.entries.toList, ∀ d, w.date = some d → d < e.activatedAt →
      ∀ w', Run parties (fun w event => w.Allowed parties event ∧ w.Awaits parties e event) w w' →
        (∃ d', w'.date = some d' ∧ d' < e.activatedAt) ∧
        (e.activatedAt ≤ w'.now → ∀ seeds, w'.Allowed parties (.exchange seeds) →
          ((∃ allocation, w'.ask parties seeds = .ok allocation) ↔ w'.Sends parties seeds) ∧
          ∀ allocation, w'.ask parties seeds = .ok allocation →
            e.address ∈ allocation.addresses) := by
  have h : Consistent w := (consistent_start config now).run hw
  constructor
  · intro d hd
    exact ⟨h.datePast d hd, fun w' hrun => h.le_date_run hrun hd⟩
  · intro e he d hd hlt w' hrun
    obtain ⟨h', d', hd', hlt'⟩ := h.date_lt_run hrun hd hlt
    refine ⟨⟨d', hd', hlt'⟩, fun hle seeds hopens => ⟨?_, fun allocation hask => ?_⟩⟩
    · simp only [h'.ask_eq_ok hopens, exists_and_left, exists_eq, and_true]
    · exact h'.mem_ask (mem_entries_run he hrun) hd' hlt' hle hopens hask

/-- A payer that has seen one address in an envelope is given the next one as soon as its instant has
come. -/
theorem no_entry_skipped_after_first_contact :
    let parties : Parties := ⟨Envelope.cipher Envelope.openSuite, .filled 1, .filled 7⟩
    let seeds : ExchangeSeeds := ⟨[2], [3], [4]⟩
    let rotated := ((start {} (.early 2 0)).step parties
      (.change (.activate "1A" (.early 1 0)))).step parties
        (.change (.rotate (.early 2 0)))
    let waiting := (rotated.step parties (.exchange seeds)).step parties
      (.change (.activate "1B" (.early 5 1)))
    let reached := waiting.step parties (.tick (.early 6 0))
    ∃ allocation, reached.ask parties seeds = .ok allocation ∧ "1B" ∈ allocation.addresses := by
  intro parties seeds rotated waiting reached
  have hopens : parties.Opens seeds := Parties.opens_envelope Envelope.opensSealed_openSuite
    (Envelope.isPair_openSuite _ _) (Envelope.isPair_openSuite _ _)
  have hrotated : Run parties (Allowed parties) (start {} (.early 2 0)) rotated := by
    refine .step (.step (.refl _) ?_) ?_
    · exact ⟨rfl, trivial⟩
    · exact ⟨trivial, rfl⟩
  have hwaiting : Run parties (Allowed parties) (start {} (.early 2 0)) waiting :=
    .step (.step hrotated hopens) ⟨rfl, trivial⟩
  have hexchange : rotated.step parties (.exchange seeds) =
      { rotated with date := some (.early 1 0) } := by
    have h := (consistent_start {} (.early 2 0)).run hrotated
    have hdate : ((Allocation.allocate rotated.pool.source none rotated.now).replayDate.map
        Instant.floorMillis).or none = some (.early 1 0) := by
      decide +kernel
    have hsends : rotated.Sends parties seeds :=
      Parties.sends_envelope_of_size h.pool (by decide +kernel) _ _
    rw [h.step_of_sends hopens hsends, ← hdate]
    rfl
  have hstate : waiting = ({ rotated with date := some (.early 1 0) } : Replay).step
      parties (.change (.activate "1B" (.early 5 1))) := by
    rw [← hexchange]
  have hdate : waiting.date = some (.early 1 0) := by
    rw [hstate]
    rfl
  have hnow : waiting.now = .early 2 0 := by
    rw [hstate]
    rfl
  have hentry : ⟨"1B", .early 5 1⟩ ∈ waiting.pool.entries.toList := by
    rw [hstate]
    decide +kernel
  have hsize : waiting.pool.cohort.length + waiting.pool.entries.size ≤ 2 ^ 24 := by
    rw [hstate]
    decide +kernel
  -- Nothing else about the state matters from here on.
  suffices hall : ∀ w : Replay, Run parties (Allowed parties) (start {} (.early 2 0)) w →
      w.date = some (.early 1 0) → w.now = .early 2 0 →
      ⟨"1B", .early 5 1⟩ ∈ w.pool.entries.toList →
      w.pool.cohort.length + w.pool.entries.size ≤ 2 ^ 24 →
      ∃ allocation, (w.step parties (.tick (.early 6 0))).ask parties seeds =
        .ok allocation ∧ "1B" ∈ allocation.addresses from
    hall waiting hwaiting hdate hnow hentry hsize
  intro w hw hd hn he hsize
  have htick : Run parties (fun w event => w.Allowed parties event ∧
      w.Awaits parties ⟨"1B", .early 5 1⟩ event) w
        (w.step parties (.tick (.early 6 0))) := by
    refine .step (.refl w) ⟨?_, he, fun _ _ h => nomatch h⟩
    show w.now ≤ _
    rw [hn]
    decide
  have hle : Instant.early 5 1 ≤ .early 6 0 := by decide
  obtain ⟨-, hbrings⟩ := (no_entry_skipped {} (.early 2 0) hw).2 _ he
    (.early 1 0) hd (by decide) _ htick
  obtain ⟨hsome, hgiven⟩ := hbrings hle seeds hopens
  have hpool := ((consistent_start {} (.early 2 0)).run hw).pool
  obtain ⟨allocation, hask⟩ := hsome.mpr (Parties.sends_envelope_of_size hpool hsize _ _)
  exact ⟨allocation, hask, hgiven allocation hask⟩

end Replay

end AddressExchange
