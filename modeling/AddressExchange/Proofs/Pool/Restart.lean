import AddressExchange.Pool.Held
import AddressExchange.Proofs.Pool.Stored

/-!
# Restarts

A pool with a file may be saved, given up and opened again at any time. Whatever is asked of it, and
whenever that happens, it answers as a pool in memory that was never given up. The invariant is that
both pools are the same but for the count of rotations, which no file has and no answer tells.
-/

namespace AddressExchange

namespace HeldPool

/-- What may be asked of a pool. -/
inductive Request where
  | activate (text : String) (at_ : Instant)
  | rotate (now : Instant)
  | rotateIfDue (now : Instant)
  | cohort
  | activatedSince (since until_ : Instant)
  | latestActivation (until_ : Instant)
  | allocate (prior : Option Instant) (now : Instant)

/-- What comes back. -/
inductive Answer where
  | activated (result : Except Failure Unit)
  | rotated (due : Bool)
  | entries (es : List Entry)
  | newest (date : Option Instant)
  | response (response : Response)
  deriving DecidableEq

/-- A request, or a restart. -/
inductive Event where
  | request (r : Request)
  | restart

/-- The requests alone. -/
def Event.requests : List Event → List Request
  | [] => []
  | .request r :: events => r :: requests events
  | .restart :: events => requests events

/-- What a pool answers, and the pool afterwards. -/
def answer (h : HeldPool) : Request → Answer × HeldPool
  | .activate text at_ =>
    match h.activate text at_ with
    | .ok h => (.activated (.ok ()), h)
    | .error e => (.activated (.error e), h)
  | .rotate now => let h := h.rotate now; (.entries h.pool.cohort, h)
  | .rotateIfDue now => let (h, due) := h.rotateIfDue now; (.rotated due, h)
  | .cohort => (.entries h.source.cohort, h)
  | .activatedSince since until_ => (.entries (h.source.activatedSince since until_), h)
  | .latestActivation until_ => (.newest (h.source.latestActivation until_), h)
  | .allocate prior now => (.response (Allocation.allocate h.source prior now), h)

/-- The answers to requests in their order, and the pool afterwards. -/
def answers (h : HeldPool) : List Request → List Answer × HeldPool
  | [] => ([], h)
  | r :: requests =>
    let (a, h) := h.answer r
    let (as, h) := h.answers requests
    (a :: as, h)

/-- Saves a pool, gives it up and opens it again. Without a file all is lost. -/
def restart : HeldPool → Filing HeldPool
  | memory p => pure (memory { config := p.config })
  | stored p => do
    match ← p.save with
    | (.error e, _) => throw e
    | (.ok (), p) => return stored (← StoredPool.openAt p.path p.pool.config)

/-- The answers of a pool that is restarted between requests, and the pool afterwards. -/
def run (h : HeldPool) : List Event → Filing (List Answer × HeldPool)
  | [] => pure ([], h)
  | .request r :: events => do
    let (a, h) := h.answer r
    let (as, h) ← h.run events
    return (a :: as, h)
  | .restart :: events => do (← h.restart).run events

end HeldPool

/-! ## The count of rotations -/

namespace Pool

/-- Are two pools the same but for the count of rotations? -/
def Alike (p q : Pool) : Prop := ∃ n, q = { p with rotations := n }

variable {p q : Pool}

theorem Alike.wellFormed (h : p.Alike q) (hp : p.WellFormed) : q.WellFormed := by
  obtain ⟨n, rfl⟩ := h
  exact ⟨hp.ordered, hp.distinct, hp.checked, hp.cohort, hp.mem_of_mem_cohort⟩

theorem Alike.kept (h : p.Alike q) : p.Alike q.kept := by
  obtain ⟨n, rfl⟩ := h
  exact ⟨0, rfl⟩

theorem activate_rotations (p : Pool) (n : UInt64) (text : String) (at_ : Instant) :
    ({ p with rotations := n } : Pool).activate text at_ =
      (p.activate text at_).map fun q => { q with rotations := n } := by
  unfold activate
  cases Address.check text with
  | error e => rfl
  | ok address =>
    have hfind : ({ p with rotations := n } : Pool).find? address = p.find? address := rfl
    dsimp only
    rw [hfind]
    cases p.find? address <;> rfl

theorem rotateIfDue_rotations (p : Pool) (n : UInt64) (now : Instant) :
    ∃ m, ({ p with rotations := n } : Pool).rotateIfDue now =
      ({ (p.rotateIfDue now).1 with rotations := m }, (p.rotateIfDue now).2) := by
  unfold rotateIfDue
  have hdue : ({ p with rotations := n } : Pool).isDue now = p.isDue now := rfl
  rw [hdue]
  split
  · exact ⟨n + 1, rfl⟩
  · exact ⟨n, rfl⟩

end Pool

/-! ## One request -/

namespace HeldPool

/-- A pool with a file answers as a pool in memory that is the same but for the count of rotations,
and the pools stay so. -/
theorem answer_stored {m : Pool} {p : StoredPool} (hm : m.WellFormed) (h : m.Alike p.pool)
    (r : Request) :
    ∃ a m' p', (memory m).answer r = (a, memory m') ∧ (stored p).answer r = (a, stored p') ∧
      m'.WellFormed ∧ m'.Alike p'.pool ∧ p'.path = p.path := by
  obtain ⟨path, pool, dirty⟩ := p
  obtain ⟨n, rfl⟩ := h
  cases r with
  | activate text at_ =>
    simp only [answer, HeldPool.activate, StoredPool.activate, Pool.activate_rotations]
    cases hq : m.activate text at_ with
    | error e => exact ⟨_, m, _, rfl, rfl, hm, ⟨n, rfl⟩, rfl⟩
    | ok q => exact ⟨_, q, _, rfl, rfl, hm.activate hq, ⟨n, rfl⟩, rfl⟩
  | rotate now => exact ⟨_, m.rotate now, _, rfl, rfl, hm.rotate now, ⟨n + 1, rfl⟩, rfl⟩
  | rotateIfDue now =>
    obtain ⟨k, hk⟩ := m.rotateIfDue_rotations n now
    simp only [answer, HeldPool.rotateIfDue, StoredPool.rotateIfDue, hk]
    exact ⟨_, (m.rotateIfDue now).1, _, rfl, rfl, hm.rotateIfDue now, ⟨k, rfl⟩, rfl⟩
  -- Queries look at entries and cohort alone, which are the same in both pools.
  | cohort | activatedSince since until_ | latestActivation until_ | allocate prior now =>
    exact ⟨_, m, _, rfl, rfl, hm, ⟨n, rfl⟩, rfl⟩

/-! ## One restart -/

/-- A pool in order is the same after a restart, if the disk lets it be written. -/
theorem restart_stored {p : StoredPool} (hp : p.pool.WellFormed) {fs : Files} {x : Option Node}
    (hx : fs.resolve p.path = .ok x) (hplace : x ≠ some .directory)
    (hdisk : ∀ t ∈ fs.trouble, t = none) :
    ∃ fs' content, (stored p).restart.run fs =
        (.ok (stored ⟨p.path, p.pool.kept, false⟩), fs') ∧
      fs'.resolve p.path = .ok (some (.file content true)) ∧ ∀ t ∈ fs'.trouble, t = none := by
  obtain ⟨fs', hwrite, hdisk'⟩ := StoredPool.write_eq_ok hx hplace hdisk
  have hfile := StoredPool.resolve_of_write hwrite
  have hsave : (liftM p.save : Filing _).run fs = (.ok (.ok (), { p with dirty := false }), fs') := by
    show (Except.ok (p.save.run fs).1, (p.save.run fs).2) = _
    rw [StoredPool.save_of_write hwrite]
  refine ⟨fs', (Snapshot.ofPool p.pool).write, ?_, hfile, hdisk'⟩
  rw [restart, run_bind, hsave]
  dsimp only
  rw [run_bind, StoredPool.run_openAt, hfile, StoredPool.found_ofPool hp]
  rfl

/-! ## Whole runs -/

/-- A pool with a file answers as one in memory, whenever it is restarted. -/
theorem run_stored {m : Pool} {p : StoredPool} (hm : m.WellFormed) (h : m.Alike p.pool)
    {fs : Files} {x : Option Node} (hx : fs.resolve p.path = .ok x) (hplace : x ≠ some .directory)
    (hdisk : ∀ t ∈ fs.trouble, t = none) (events : List Event) :
    ∃ as m' p' fs', (memory m).answers (Event.requests events) = (as, memory m') ∧
      ((stored p).run events).run fs = (.ok (as, stored p'), fs') ∧ m'.Alike p'.pool := by
  induction events generalizing m p fs x with
  | nil => exact ⟨[], m, p, fs, rfl, rfl, h⟩
  | cons event events ih =>
    cases event with
    | request r =>
      obtain ⟨a, m₁, p₁, hmemory, hstored, hm₁, h₁, hpath⟩ := answer_stored hm h r
      rw [← hpath] at hx
      obtain ⟨as, m', p', fs', hanswers, hrun, h'⟩ := ih hm₁ h₁ hx hplace hdisk
      refine ⟨a :: as, m', p', fs', ?_, ?_, h'⟩
      · rw [Event.requests, answers, hmemory]
        dsimp only
        rw [hanswers]
      · rw [run, hstored]
        dsimp only
        rw [run_bind, hrun]
        rfl
    | restart =>
      -- The pool that is opened again has counted no rotations; all else is as it was.
      obtain ⟨fs₁, content, hrestart, hfile, hdisk₁⟩ :=
        restart_stored (h.wellFormed hm) hx hplace hdisk
      obtain ⟨as, m', p', fs', hanswers, hrun, h'⟩ :=
        ih (p := ⟨p.path, p.pool.kept, false⟩) hm h.kept hfile nofun hdisk₁
      refine ⟨as, m', p', fs', hanswers, ?_, h'⟩
      rw [run, run_bind, hrestart]
      exact hrun

/-- A pool whose file is new answers as one in memory that is never given up, whatever is asked and
however often it is saved, given up and opened again. Its entries, its cohort and its last rotation
are those of the pool in memory as well. -/
theorem restarts_invisible (path : Path) (config : PoolConfig) (fs : Files)
    (hfresh : fs.resolve path = .ok none) (hdisk : ∀ t ∈ fs.trouble, t = none)
    (events : List Event) :
    let alone := (memory { config }).answers (Event.requests events)
    ∃ p fs', (do (stored (← StoredPool.openAt path config)).run events).run fs =
        (.ok (alone.1, stored p), fs') ∧
      p.pool.entries = alone.2.pool.entries ∧ p.pool.cohort = alone.2.pool.cohort ∧
      p.pool.lastRotation = alone.2.pool.lastRotation := by
  have hempty : ({ config } : Pool).Alike { config } := ⟨0, rfl⟩
  obtain ⟨as, m, p, fs', hanswers, hrun, n, hp⟩ :=
    run_stored (p := { path, pool := { config } }) (Pool.wellFormed_empty config) hempty hfresh
      nofun hdisk events
  rw [hanswers]
  refine ⟨p, fs', ?_, by rw [hp]; rfl, by rw [hp]; rfl, by rw [hp]; rfl⟩
  rw [run_bind, StoredPool.run_openAt, hfresh]
  exact hrun

/-- Two addresses of one instant, with letters of other scripts, and a restart before the rotation
and one after it. -/
theorem restarts_invisible_twice :
    let path := ["pool.json"]
    let events : List Event := [.request (.activate "1Ω" (.early 3 1)), .restart,
      .request (.activate "1\"\\ж" (.early 3 1)), .request (.rotateIfDue (.early 3 1)),
      .restart, .request (.allocate none (.early 4 0))]
    ∃ p fs', (do (stored (← StoredPool.openAt path { cohortSize := 1 })).run events).run {} =
        (.ok ([.activated (.ok ()), .activated (.ok ()), .rotated true,
          .response (.make (some (.early 3 1)) ["1\"\\ж"])], stored p), fs') ∧
      p.pool.entries = #[⟨"1Ω", .early 3 1⟩, ⟨"1\"\\ж", .early 3 1⟩] ∧
      p.pool.cohort = [⟨"1\"\\ж", .early 3 1⟩] ∧ p.pool.lastRotation = some (.early 3 1) := by
  intro path events
  let alone := (memory { config := { cohortSize := 1 } }).answers (Event.requests events)
  have hanswers : alone.1 = [.activated (.ok ()), .activated (.ok ()), .rotated true,
      .response (.make (some (.early 3 1)) ["1\"\\ж"])] := by decide +kernel
  have hentries : alone.2.pool.entries = #[⟨"1Ω", .early 3 1⟩, ⟨"1\"\\ж", .early 3 1⟩] := by
    decide +kernel
  have hcohort : alone.2.pool.cohort = [⟨"1\"\\ж", .early 3 1⟩] := by decide +kernel
  have hlast : alone.2.pool.lastRotation = some (.early 3 1) := by decide +kernel
  have hnone : ∀ t ∈ ({} : Files).trouble, t = none := fun t ht => absurd ht List.not_mem_nil
  have hfresh : ({} : Files).resolve path = .ok none := by decide +kernel
  rw [← hanswers, ← hentries, ← hcohort, ← hlast]
  exact restarts_invisible path { cohortSize := 1 } {} hfresh hnone events

end HeldPool

end AddressExchange
