import AddressExchange.Proofs.Fees.Wallet
import Mathlib.Logic.Function.Basic
import Mathlib.Logic.Relation

/-!
# Refreshes at the same time

Any number of refreshes of one service go on at once. Each of them loads the stored date, runs its
exchange, saves the date that it received, and caches the addresses, and nothing holds the others back in
between. In the end the store has the date of the refresh that saved last, and the cache the addresses
of the one that cached last, which need not be the same.
-/

namespace AddressExchange

open Function (update)

/-- How far a refresh has come. -/
inductive RefreshStage where
  | begun
  | loaded (prior : Option Instant)
  | received (a : Allocation)
  | saved (a : Allocation)
  | done (result : Option Allocation)

namespace RefreshStage

/-- The date that a refresh has saved, if it has saved one. -/
def savedDate : RefreshStage → Option (Option Instant)
  | saved a | done (some a) => a.replayDate.map some
  | begun | loaded _ | received _ | done none => none

/-- What a refresh has cached, if it has cached anything. -/
def cachedAllocation : RefreshStage → Option Allocation
  | done (some a) => if a.addresses.isEmpty then none else some a
  | begun | loaded _ | received _ | saved _ | done none => none

end RefreshStage

/-- The refreshes of a service, and what they share. No step depends on `saver` and `cacher`, which are
what an onlooker remembers. -/
structure Refreshes (σ ι : Type) where
  world : σ
  service : FeeService
  stage : ι → RefreshStage := fun _ => .begun
  /-- The refresh that saved its date last. -/
  saver : Option ι := none
  /-- The refresh that cached its addresses last. -/
  cacher : Option ι := none

namespace Refreshes

variable {σ ι : Type} [DecidableEq ι]

/-- The next step of a refresh. -/
def advance (host : WalletHost σ) (t : Refreshes σ ι) (i : ι) : Refreshes σ ι :=
  match t.stage i with
  | .begun =>
    let loading := (FeeService.priorDate host).run t.world
    { t with world := loading.2, stage := update t.stage i (.loaded loading.1) }
  | .loaded prior =>
    let left := t.service.config.retry.maxAttempts.toNat - 1
    let exchange := (t.service.attempts host prior 1 left).run t.world
    { t with world := exchange.2, stage := update t.stage i (exchange.1.elim (.done none) .received) }
  | .received a =>
    { t with
      world := ((FeeService.keepDate host a).run t.world).2
      stage := update t.stage i (.saved a)
      saver := if a.replayDate.isSome then some i else t.saver }
  | .saved a =>
    { t with
      service := t.service.keepAddresses a
      stage := update t.stage i (.done (some a))
      cacher := if a.addresses.isEmpty then t.cacher else some i }
  | .done _ => t

/-- One step of any refresh, or of whatever else there is. -/
inductive Step (host : WalletHost σ) (stored : σ → Option Instant) (t : Refreshes σ ι) :
    Refreshes σ ι → Prop where
  | advance (i : ι) : Step host stored t (t.advance host i)
  /-- All but the store and the cache may change. -/
  | elsewhere (world : σ) (h : stored world = stored t.world) (fees : FeeState) :
      Step host stored t { t with world, service := { t.service with fees } }

/-- Any number of steps. -/
def Steps (host : WalletHost σ) (stored : σ → Option Instant) :
    Refreshes σ ι → Refreshes σ ι → Prop :=
  Relation.ReflTransGen (Step host stored)

/-- A refresh that is alone from its beginning to its end does what it does when there are no others. -/
theorem advance_alone (host : WalletHost σ) {t : Refreshes σ ι} {i : ι} (h : t.stage i = .begun) :
    let u := (((t.advance host i).advance host i).advance host i).advance host i
    ∃ result, u.stage i = .done result ∧
      (t.service.refresh host).run t.world = ((u.service, result), u.world) := by
  rcases hload : (FeeService.priorDate host).run t.world with ⟨prior, w⟩
  rcases hexchange : (t.service.attempts host prior 1
    (t.service.config.retry.maxAttempts.toNat - 1)).run w with ⟨_ | a, w'⟩
  · refine ⟨none, by simp [advance, h, hload, hexchange], ?_⟩
    simp [advance, h, hload, hexchange, FeeService.run_refresh]
  · refine ⟨some a, by simp [advance, h, hload, hexchange], ?_⟩
    simp [advance, h, hload, hexchange, FeeService.run_refresh]

/-! ## Cells -/

/-- What a cell holds that held `first`: what the last one who wrote wrote to it, if there is one. -/
inductive LastWritten {α : Type} (first : α) (wrote : ι → Option α) : Option ι → α → Prop where
  | untouched (h : ∀ i, wrote i = none) : LastWritten first wrote none first
  | written {i : ι} {a : α} (h : wrote i = some a) : LastWritten first wrote (some i) a

omit [DecidableEq ι] in
/-- If everybody wrote, somebody wrote last. -/
theorem LastWritten.of_all {α : Type} [Nonempty ι] {first cell : α} {wrote : ι → Option α}
    {last : Option ι} (h : LastWritten first wrote last cell) {a : ι → α}
    (ha : ∀ i, wrote i = some (a i)) : ∃ i, last = some i ∧ cell = a i := by
  cases h with
  | untouched hnone =>
    obtain ⟨i⟩ := ‹Nonempty ι›
    cases (hnone i).symm.trans (ha i)
  | written hi => exact ⟨_, rfl, Option.some.inj (hi.symm.trans (ha _))⟩

section Stages

variable {α : Type} (f : RefreshStage → Option α) {stage : ι → RefreshStage} {i : ι}
  {next : RefreshStage}

/-- A step by which nothing is written leaves what was written as it was. -/
theorem apply_update_of_eq (h : f next = f (stage i)) (j : ι) :
    f (update stage i next j) = f (stage j) := by
  by_cases hj : j = i
  · rw [hj, Function.update_self, h]
  · rw [Function.update_of_ne hj]

theorem LastWritten.update {first cell : α} {last : Option ι}
    (hw : LastWritten first (fun j => f (stage j)) last cell) (h : f next = f (stage i)) :
    LastWritten first (fun j => f (update stage i next j)) last cell := by
  rw [funext (apply_update_of_eq f h)]
  exact hw

theorem lastWritten_update (first : α) {a : α} (h : f next = some a) :
    LastWritten first (fun j => f (Function.update stage i next j)) (some i) a := by
  refine .written ?_
  rw [Function.update_self, h]

end Stages

/-! ## One step -/

/-- What the store and the cache hold, in terms of what the refreshes have done. -/
structure Tracked (stored : σ → Option Instant) (s : FeeService) (w : σ) (t : Refreshes σ ι) :
    Prop where
  date : LastWritten (stored w) (fun i => (t.stage i).savedDate) t.saver (stored t.world)
  cache : LastWritten s.cached (fun i => (t.stage i).cachedAllocation) t.cacher t.service.cached
  /-- What was received is stored as it is. -/
  received : ∀ i a, t.stage i = .received a → Instant.InMillis a.replayDate

variable {host : WalletHost σ} {stored : σ → Option Instant} {s : FeeService} {w : σ}
  {t u : Refreshes σ ι}

omit [DecidableEq ι] in
theorem tracked_begun (s : FeeService) (w : σ) :
    Tracked stored s w ({ world := w, service := s } : Refreshes σ ι) where
  date := .untouched fun _ => rfl
  cache := .untouched fun _ => rfl
  received _ _ h := by cases h

namespace Tracked

variable (h : Tracked stored s w t)

include h

theorem received_update {i : ι} {next : RefreshStage}
    (hnext : ∀ a, next = .received a → Instant.InMillis a.replayDate) (j : ι) (a : Allocation)
    (hj : update t.stage i next j = .received a) : Instant.InMillis a.replayDate := by
  by_cases hji : j = i
  · rw [hji, Function.update_self] at hj
    exact hnext a hj
  · rw [Function.update_of_ne hji] at hj
    exact h.received j a hj

/-- A step that writes neither to the store nor to the cache. -/
theorem move {world : σ} (hworld : stored world = stored t.world) {i : ι} {next : RefreshStage}
    (hdate : next.savedDate = (t.stage i).savedDate)
    (hcache : next.cachedAllocation = (t.stage i).cachedAllocation)
    (hnext : ∀ a, next = .received a → Instant.InMillis a.replayDate) :
    Tracked stored s w { t with world, stage := update t.stage i next } where
  date := hworld ▸ h.date.update _ hdate
  cache := h.cache.update _ hcache
  received := h.received_update hnext

theorem advance (hstore : host.Stores stored) (i : ι) : Tracked stored s w (t.advance host i) := by
  unfold Refreshes.advance
  cases hstage : t.stage i with
  | begun =>
    obtain ⟨-, hstored⟩ := hstore.run_priorDate t.world
    exact h.move hstored (by rw [hstage]; rfl) (by rw [hstage]; rfl) (fun a ha => by cases ha)
  | loaded prior =>
    obtain ⟨hstored, hresult⟩ := hstore.spares.leaves_attempts t.service prior 1
      (t.service.config.retry.maxAttempts.toNat - 1) t.world
    dsimp only
    generalize (t.service.attempts host prior 1 _).run t.world = exchange at hstored hresult ⊢
    obtain ⟨_ | a, world⟩ := exchange
    · exact h.move hstored (by rw [hstage]; rfl) (by rw [hstage]; rfl) (fun a ha => by cases ha)
    · refine h.move hstored (by rw [hstage]; rfl) (by rw [hstage]; rfl) fun a' ha => ?_
      cases ha
      exact hresult a rfl
  | received a =>
    have hstored := hstore.stored_keepDate (h.received i a hstage) t.world
    dsimp only
    cases hdate : a.replayDate with
    | none =>
      -- Nothing is saved, and who saved last stays who it was.
      rw [hdate] at hstored
      refine h.move hstored ?_ (by rw [hstage]; rfl) (fun a ha => by cases ha)
      rw [hstage, RefreshStage.savedDate, hdate]
      rfl
    | some d =>
      rw [hdate] at hstored
      exact {
        date := by
          dsimp only
          rw [hstored]
          exact lastWritten_update _ _ (by rw [RefreshStage.savedDate, hdate]; rfl)
        cache := h.cache.update _ (by rw [hstage]; rfl)
        received := h.received_update fun a ha => by cases ha }
  | saved a =>
    dsimp only
    rw [FeeService.keepAddresses]
    cases haddresses : a.addresses.isEmpty with
    | true =>
      refine h.move rfl (by rw [hstage]; rfl) ?_ (fun a ha => by cases ha)
      rw [hstage, RefreshStage.cachedAllocation, haddresses]
      rfl
    | false =>
      exact {
        date := h.date.update _ (by rw [hstage]; rfl)
        cache := lastWritten_update _ _ (by rw [RefreshStage.cachedAllocation, haddresses]; rfl)
        received := h.received_update fun a ha => by cases ha }
  | done result => exact h

theorem step (hstore : host.Stores stored) (hu : Step host stored t u) : Tracked stored s w u := by
  cases hu with
  | advance i => exact h.advance hstore i
  | elsewhere world hworld fees => exact { h with date := hworld ▸ h.date }

theorem steps (hstore : host.Stores stored) (hu : Steps host stored t u) : Tracked stored s w u := by
  induction hu with
  | refl => exact h
  | tail _ hstep ih => exact ih.step hstore hstep

end Tracked

/-! ## All done -/

/-- When all refreshes are done, and each of them received addresses and a date, the store has the date
of the one that saved last, and the cache the allocation of the one that cached last. The store and the
cache agree exactly if those two received the same date, and on the latest of all dates exactly if both
received that. Of what a pool activated outside its cohort, the next response has what is later than the
date of the one that saved last. -/
theorem settled_by_last_writers [Nonempty ι] (hstore : host.Stores stored)
    (hsteps : Steps host stored { world := w, service := s } t) {a : ι → Allocation}
    (hdone : ∀ i, t.stage i = .done (some (a i))) (haddresses : ∀ i, (a i).addresses ≠ [])
    {d : ι → Instant} (hdates : ∀ i, (a i).replayDate = some (d i)) :
    ∃ saver cacher, t.saver = some saver ∧ t.cacher = some cacher ∧
      stored t.world = some (d saver) ∧ t.service.cached = a cacher ∧
      (stored t.world = t.service.cached.replayDate ↔ d saver = d cacher) ∧
      (stored t.world = t.service.cached.replayDate ∧ (∀ i, d i ≤ d saver) ↔
        ∀ i, d i ≤ d saver ∧ d i ≤ d cacher) ∧
      ∀ (p : Pool) (now : Instant), p.WellFormed → d saver ≤ now → ∀ e ∈ p.active now, e ∉ p.cohort →
        (e.address ∈ (Allocation.allocate p.source (stored t.world) now).addresses ↔
          d saver < e.activatedAt) := by
  have h := (tracked_begun s w).steps hstore hsteps
  have hsaved (i : ι) : (t.stage i).savedDate = some (some (d i)) := by
    rw [hdone, RefreshStage.savedDate, hdates]
    rfl
  have hcached (i : ι) : (t.stage i).cachedAllocation = some (a i) := by
    rw [hdone, RefreshStage.cachedAllocation]
    exact if_neg (mt List.isEmpty_iff.mp (haddresses i))
  obtain ⟨saver, hsaver, hdate⟩ := h.date.of_all hsaved
  obtain ⟨cacher, hcacher, hcache⟩ := h.cache.of_all hcached
  have hagree : stored t.world = t.service.cached.replayDate ↔ d saver = d cacher := by
    rw [hdate, hcache, hdates, Option.some.injEq]
  refine ⟨saver, cacher, hsaver, hcacher, hdate, hcache, hagree, ?_, ?_⟩
  · rw [hagree]
    constructor
    · rintro ⟨heq, hlatest⟩ i
      exact ⟨hlatest i, heq ▸ hlatest i⟩
    · intro hlatest
      exact ⟨Std.le_antisymm (hlatest saver).2 (hlatest cacher).1, fun i => (hlatest i).1⟩
  · intro p now hp hle e he hcohort
    rw [hdate]
    exact Allocation.address_mem_allocate_of_notMem_cohort hp hle he hcohort

/-! ## Two refreshes of a wallet beside its Matcher -/

/-- The pool with a cohort of one address to which entries came one after the other, each of them
followed by a rotation. -/
def steady (arrivals : List Entry) : Pool :=
  ({ config := { cohortSize := 1 } } : Pool).applyAll
    (arrivals.flatMap fun e => [.activate e.address e.activatedAt, .rotate e.activatedAt])

theorem wellFormed_steady (arrivals : List Entry) : (steady arrivals).WellFormed :=
  (Pool.wellFormed_empty _).applyAll _

theorem plain_steady {arrivals : List Entry} (h : ∀ e ∈ arrivals, e.activatedAt.IsPlain) :
    (steady arrivals).AllInstants Instant.IsPlain := by
  refine Pool.AllInstants.applyAll (fun e he => absurd he List.not_mem_nil)
    (Pool.wellFormed_empty _) fun c hc => ?_
  obtain ⟨e, he, hc⟩ := List.mem_flatMap.mp hc
  simp only [List.mem_cons, List.not_mem_nil, or_false] at hc
  rcases hc with rfl | rfl
  · exact h e he
  · trivial

/-- A refresh that has loaded a date receives what the pool allocates. -/
theorem advance_loaded {parties : Parties} {random : Bytes}
    (hopens : parties.Opens ⟨random, random, random⟩) {t : Refreshes Replay ι}
    (hkey : t.service.matcherKey = parties.matcherKeys.publicKey)
    (hid : t.service.payerId = parties.payerId) (hp : t.world.pool.WellFormed)
    (hplain : t.world.pool.AllInstants Instant.IsPlain) {i : ι} {prior : Option Instant}
    (hprior : ∀ d ∈ prior, d.IsPlain)
    (hsends : parties.Sends ⟨random, random, random⟩ t.world.pool.source prior t.world.now)
    (hi : t.stage i = .loaded prior) :
    t.advance (Replay.wallet parties random) i = { t with
      stage := update t.stage i (.received (t.world.pool.received prior t.world.now)) } := by
  rw [advance, hi]
  dsimp only
  rw [Replay.run_attempts_wallet hopens hkey hid hp hplain hprior hsends]
  rfl

def sampleParties : Parties := ⟨.labelled 0 "refused", .filled 1, .filled 7⟩

def sampleHost : WalletHost Replay := Replay.wallet sampleParties [2]

def sampleEntries : List Entry := [⟨"1A", .early 1 0⟩, ⟨"1B", .early 2 0⟩, ⟨"1C", .early 3 0⟩]

/-- The replay after the first few of these have come, at the instant of the last one. -/
def sampleWorld (n : Nat) : Replay :=
  ⟨steady (sampleEntries.take n), .early (.ofNat _ n) 0, none⟩

/-- A new wallet that refreshes twice. -/
def sampleStart : Refreshes Replay Bool where
  world := sampleWorld 1
  service := ⟨.filled 7, sampleParties.matcherKeys.publicKey, {}, ⟨[], none⟩, .fresh {} 0⟩

def sampleReceived : Bool → Allocation
  | false => ⟨["1A"], some (.early 1 0)⟩
  | true => ⟨["1B"], some (.early 2 0)⟩

theorem plain_sample (n : Nat) : (sampleWorld n).pool.AllInstants Instant.IsPlain := by
  refine plain_steady fun e he => ?_
  have hall : ∀ e ∈ sampleEntries, e.activatedAt.IsPlain := by simp [sampleEntries, Instant.IsPlain]
  exact hall e (List.mem_of_mem_take he)

/-- Both refreshes load the date before either of them has received one, and an entry comes between
their exchanges. -/
theorem both_received :
    ∃ t, Steps sampleHost Replay.date sampleStart t ∧
      ∀ i, t.stage i = .received (sampleReceived i) := by
  have hopens : sampleParties.Opens ⟨[2], [2], [2]⟩ := Parties.opens_labelled 0 _ 1 _
  have hsends (w : Replay) : sampleParties.Sends ⟨[2], [2], [2]⟩ w.pool.source none w.now :=
    Parties.sends_labelled (by decide) (by decide)
  have hnone : ∀ d ∈ (none : Option Instant), d.IsPlain :=
    fun d hd => absurd hd (Option.not_mem_none d)
  let loaded : Refreshes Replay Bool :=
    (sampleStart.advance sampleHost false).advance sampleHost true
  have hloaded : Steps sampleHost Replay.date sampleStart loaded :=
    .tail (.single (.advance false)) (.advance true)
  have hfirst : loaded.advance sampleHost false =
      { loaded with stage := update loaded.stage false (.received (sampleReceived false)) } := by
    have hreceived : (sampleWorld 1).pool.received none (.early 1 0) = sampleReceived false := by
      decide +kernel
    rw [← hreceived]
    exact advance_loaded hopens rfl rfl (wellFormed_steady _) (plain_sample 1) hnone (hsends _) rfl
  -- The Matcher's pool and the clock go on before the other one asks.
  let between : Refreshes Replay Bool := { loaded with
    world := sampleWorld 2
    stage := update loaded.stage false (.received (sampleReceived false)) }
  have hbetween : Steps sampleHost Replay.date sampleStart between := by
    refine .tail (.tail hloaded (.advance false)) ?_
    rw [hfirst]
    exact .elsewhere (sampleWorld 2) rfl loaded.service.fees
  have hsecond : between.advance sampleHost true = { between with
      stage := update between.stage true (.received (sampleReceived true)) } := by
    have hreceived : (sampleWorld 2).pool.received none (.early 2 0) = sampleReceived true := by
      decide +kernel
    rw [← hreceived]
    exact advance_loaded hopens rfl rfl (wellFormed_steady _) (plain_sample 2) hnone (hsends _) rfl
  refine ⟨_, .tail hbetween (.advance true), ?_⟩
  rw [hsecond]
  intro i
  cases i <;> rfl

/-- Where one refresh saves and caches before the other one does, the two agree. -/
theorem settled_by_last_writers_in_order :
    ∃ t, Steps sampleHost Replay.date sampleStart t ∧
      (∀ i, t.stage i = .done (some (sampleReceived i))) ∧
      t.world.date = some (.early 2 0) ∧ t.world.date = t.service.cached.replayDate := by
  obtain ⟨t, ht, hstage⟩ := both_received
  let u := (((t.advance sampleHost false).advance sampleHost false).advance sampleHost true).advance
    sampleHost true
  have hu : Steps sampleHost Replay.date sampleStart u :=
    .tail (.tail (.tail (.tail ht (.advance false)) (.advance false)) (.advance true)) (.advance true)
  have hdone (i : Bool) : u.stage i = .done (some (sampleReceived i)) := by
    cases i <;> simp [u, advance, hstage]
  have haddresses (i : Bool) : (sampleReceived i).addresses ≠ [] := by cases i <;> decide
  let d : Bool → Instant := fun i => if i then .early 2 0 else .early 1 0
  have hdates (i : Bool) : (sampleReceived i).replayDate = some (d i) := by cases i <;> rfl
  obtain ⟨saver, cacher, hsaver, hcacher, hdate, -, hagree, -⟩ :=
    settled_by_last_writers (Replay.stores_wallet sampleParties [2]) hu hdone haddresses hdates
  have hsaver' : u.saver = some true := by simp [u, advance, hstage, sampleReceived]
  have hcacher' : u.cacher = some true := by simp [u, advance, hstage, sampleReceived]
  obtain rfl : true = saver := Option.some.inj (hsaver'.symm.trans hsaver)
  obtain rfl : true = cacher := Option.some.inj (hcacher'.symm.trans hcacher)
  exact ⟨u, hu, hdone, hdate, hagree.mpr rfl⟩

/-- One refresh receives a date, the other one a later date, and that one saves and caches while the
first one has saved and not cached yet. The store is ahead of the cache then: an address that was
received is not cached, and the next response lacks it. -/
theorem settled_apart :
    ∃ t, Steps sampleHost Replay.date sampleStart t ∧
      (∀ i, t.stage i = .done (some (sampleReceived i))) ∧
      t.world.date = some (.early 2 0) ∧ t.service.cached.replayDate = some (.early 1 0) ∧
      "1B" ∈ (sampleReceived true).addresses ∧ "1B" ∉ t.service.cached.addresses ∧
      ⟨"1B", .early 2 0⟩ ∈ (sampleWorld 3).pool.entries.toList ∧
      "1B" ∉ ((sampleWorld 3).pool.received t.world.date (sampleWorld 3).now).addresses := by
  obtain ⟨t, ht, hstage⟩ := both_received
  -- The one with the earlier date is the first to save and the last to cache.
  let u := (((t.advance sampleHost false).advance sampleHost true).advance sampleHost true).advance
    sampleHost false
  have hu : Steps sampleHost Replay.date sampleStart u :=
    .tail (.tail (.tail (.tail ht (.advance false)) (.advance true)) (.advance true)) (.advance false)
  have hdone (i : Bool) : u.stage i = .done (some (sampleReceived i)) := by
    cases i <;> simp [u, advance, hstage]
  have hdate : u.world.date = some (.early 2 0) := by
    simp [u, advance, hstage, sampleReceived, sampleHost]
  have hcached : u.service.cached = sampleReceived false := by
    simp [u, advance, hstage, sampleReceived, FeeService.keepAddresses]
  have hactive : ⟨"1B", .early 2 0⟩ ∈ (sampleWorld 3).pool.active (.early 3 0) := by decide +kernel
  have hcohort : ⟨"1B", .early 2 0⟩ ∉ (sampleWorld 3).pool.cohort := by decide +kernel
  refine ⟨u, hu, hdone, hdate, by rw [hcached]; rfl, by decide, by rw [hcached]; decide,
    (Pool.mem_active.mp hactive).1, ?_⟩
  rw [hdate]
  refine mt (Allocation.address_mem_allocate_of_notMem_cohort (wellFormed_steady _) ?_ hactive
    hcohort).mp ?_
  · decide
  · decide

end Refreshes

end AddressExchange
