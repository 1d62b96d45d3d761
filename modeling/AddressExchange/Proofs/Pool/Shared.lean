import AddressExchange.Proofs.Pool.Stored
import Mathlib.Logic.Function.Basic
import Mathlib.Logic.Relation

/-!
# Stored pools in many hands

Any number of callers change a stored pool, save it and flush it at once. A change is made before
the mark is set, and the mark is cleared before the parts of the pool are read, one after the other.
A call that is alone does what it does to a stored pool that nobody shares.
-/

namespace AddressExchange

open Function (update)

/-- What the calls that change a pool make of it, when they change it. -/
inductive StoredPool.Changed (p : StoredPool) : StoredPool → Prop where
  | activate {q : StoredPool} (text : String) (at_ : Instant) (h : p.activate text at_ = .ok q) :
      p.Changed q
  | rotate (now : Instant) : p.Changed (p.rotate now)
  | rotateIfDue {q : StoredPool} (now : Instant) (h : p.rotateIfDue now = (q, true)) : p.Changed q

namespace StoredPool.Changed

variable {p q : StoredPool}

/-- A change sets the mark, and is an activation or a rotation. -/
theorem inv (h : p.Changed q) :
    q = { p with pool := q.pool, dirty := true } ∧
      ((∃ text at_, p.pool.activate text at_ = .ok q.pool) ∨ ∃ now, q.pool = p.pool.rotate now) := by
  cases h with
  | activate text at_ h =>
    obtain ⟨pool, hpool, h⟩ := bind_eq_ok.mp h
    cases h
    exact ⟨rfl, .inl ⟨text, at_, hpool⟩⟩
  | rotate now => exact ⟨rfl, .inr ⟨now, rfl⟩⟩
  | rotateIfDue now h =>
    simp only [StoredPool.rotateIfDue, Pool.rotateIfDue] at h
    split at h
    · cases h
      exact ⟨by rw [Bool.or_true], .inr ⟨now, rfl⟩⟩
    · cases h

theorem wellFormed (h : p.Changed q) (hp : p.pool.WellFormed) : q.pool.WellFormed := by
  obtain ⟨-, ⟨text, at_, hpool⟩ | ⟨now, hpool⟩⟩ := h.inv
  · exact hp.activate hpool
  · exact hpool ▸ hp.rotate now

theorem config (h : p.Changed q) : q.pool.config = p.pool.config := by
  obtain ⟨-, ⟨text, at_, hpool⟩ | ⟨now, hpool⟩⟩ := h.inv
  · exact Pool.config_activate hpool
  · rw [hpool]
    rfl

end StoredPool.Changed

/-! ## Callers -/

namespace SharedPool

/-- A call that writes. A flush does so only if the mark is set. -/
inductive Writer where
  | save
  | flush
  deriving DecidableEq

/-- Where a caller is. A call that changes nothing is over at once and is no step. -/
inductive Caller where
  | idle
  /-- It has made the change of a number and has not set the mark yet. -/
  | changed (number : Nat)
  /-- It waits for the lock; `before` are the changes whose calls had returned when it was made. -/
  | waiting (writer : Writer) (before : List Nat)
  /-- It has the lock. -/
  | inside
  | returned (writer : Writer) (before : List Nat) (result : Except Failure Unit)

/-- Is a call under way? -/
def Caller.Busy : Caller → Prop
  | .idle | .returned _ _ _ => False
  | .changed _ | .waiting _ _ | .inside => True

/-- A part of a pool, and how many changes there had been when it was read. -/
structure Part (α : Type) where
  value : α
  changes : Nat

/-- The parts that make up a snapshot. -/
structure Reading where
  entries : Part (Array Entry)
  cohort : Part (List Entry)
  lastRotation : Part (Option Instant)

def Reading.snapshot (r : Reading) : Snapshot :=
  .ofParts r.entries.value r.cohort.value r.lastRotation.value

/-- How far the call with the lock is. -/
inductive Stage where
  | locked
  | cleared
  | entriesRead (entries : Part (Array Entry))
  | cohortRead (entries : Part (Array Entry)) (cohort : Part (List Entry))
  | allRead (r : Reading)
  | failed (e : Failure)
  | finished (result : Except Failure Unit)

/-- The call with the lock. -/
structure Holder where
  caller : Nat
  writer : Writer
  before : List Nat
  stage : Stage := .locked

end SharedPool

open SharedPool in
/-- A stored pool, the files, and the calls. No step depends on `past`, `completed` and `written`,
which are what an onlooker remembers. -/
structure SharedPool where
  stored : StoredPool
  files : Files
  callers : Nat → Caller := fun _ => .idle
  holder : Option Holder := none
  /-- The pools before each of the changes so far. -/
  past : List Pool := []
  /-- The numbers of the changes whose calls have returned. -/
  completed : List Nat := []
  /-- What the file was last written from. -/
  written : Option Reading := none

namespace SharedPool

/-- Reads a part of the pool. -/
def part {α : Type} (s : SharedPool) (f : Pool → α) : Part α := ⟨f s.stored.pool, s.past.length⟩

/-- The next step of the call with the lock. -/
def advance (s : SharedPool) (h : Holder) : SharedPool :=
  let goTo (stage : Stage) : Option Holder := some { h with stage }
  match h.stage with
  | .locked =>
    if h.writer = .flush ∧ s.stored.dirty = false then { s with holder := goTo (.finished (.ok ())) }
    else { s with stored := { s.stored with dirty := false }, holder := goTo .cleared }
  | .cleared => { s with holder := goTo (.entriesRead (s.part (·.entries))) }
  | .entriesRead entries => { s with holder := goTo (.cohortRead entries (s.part (·.cohort))) }
  | .cohortRead entries cohort =>
    { s with holder := goTo (.allRead ⟨entries, cohort, s.part (·.lastRotation)⟩) }
  | .allRead r =>
    match (StoredPool.write s.stored.path r.snapshot).run s.files with
    | (.ok (), files) =>
      { s with files, written := some r, holder := goTo (.finished (.ok ())) }
    | (.error e, files) => { s with files, holder := goTo (.failed e) }
  | .failed e =>
    { s with stored := { s.stored with dirty := true }, holder := goTo (.finished (.error e)) }
  | .finished result =>
    { s with holder := none, callers := update s.callers h.caller (.returned h.writer h.before result) }

/-- One step of any caller, or of whoever else uses the disk. -/
inductive Step (s : SharedPool) : SharedPool → Prop where
  | change {i : Nat} {q : StoredPool} (hi : s.callers i = .idle) (hq : s.stored.Changed q) :
      Step s { s with
        stored := { s.stored with pool := q.pool }
        past := s.past ++ [s.stored.pool]
        callers := update s.callers i (.changed (s.past.length + 1)) }
  | mark {i number : Nat} (hi : s.callers i = .changed number) :
      Step s { s with
        stored := { s.stored with dirty := true }
        completed := number :: s.completed
        callers := update s.callers i .idle }
  | call {i : Nat} (writer : Writer) (hi : s.callers i = .idle) :
      Step s { s with callers := update s.callers i (.waiting writer s.completed) }
  | lock {i : Nat} {writer : Writer} {before : List Nat} (hi : s.callers i = .waiting writer before)
      (hfree : s.holder = none) :
      Step s { s with
        holder := some { caller := i, writer, before }
        callers := update s.callers i .inside }
  | advance {h : Holder} (hh : s.holder = some h) : Step s (s.advance h)
  | leave {i : Nat} {writer : Writer} {before : List Nat} {result : Except Failure Unit}
      (hi : s.callers i = .returned writer before result) :
      Step s { s with callers := update s.callers i .idle }
  /-- All but the file of the pool may change. -/
  | elsewhere {fs : Files} (hfs : fs.resolve s.stored.path = s.files.resolve s.stored.path) :
      Step s { s with files := fs }

/-- Any number of steps. -/
def Steps : SharedPool → SharedPool → Prop := Relation.ReflTransGen Step

/-- A pool that was opened, before any call. -/
def opened (p : StoredPool) (fs : Files) : SharedPool := { stored := p, files := fs }

/-! ## What the file holds -/

/-- All pools so far, the present one at the end. -/
def pools (s : SharedPool) : List Pool := s.past ++ [s.stored.pool]

/-- Was a part read after the change of a number, from the pool that there was then? -/
def Part.After {α : Type} (x : Part α) (ps : List Pool) (f : Pool → α) (number : Nat) : Prop :=
  number ≤ x.changes ∧ ps[x.changes]?.map f = some x.value

/-- Were all parts read after the change of a number? -/
structure Reading.After (r : Reading) (ps : List Pool) (number : Nat) : Prop where
  entries : r.entries.After ps (·.entries) number
  cohort : r.cohort.After ps (·.cohort) number
  lastRotation : r.lastRotation.After ps (·.lastRotation) number

/-- Does the file hold a snapshot of which all parts were read after the change of a number? -/
def Reflects (s : SharedPool) (number : Nat) : Prop :=
  ∃ r, s.written = some r ∧ s.files.contentOf s.stored.path = .ok r.snapshot.write ∧
    r.After s.pools number

variable {s s' : SharedPool} {n m : Nat}

/-! ## Growth -/

theorem after_part {α : Type} (f : Pool → α) (h : n ≤ s.past.length) : (s.part f).After s.pools f n :=
  ⟨h, by simp [part, pools]⟩

theorem Part.After.mono {α : Type} {x : Part α} {ps : List Pool} {f : Pool → α}
    (h : x.After ps f m) (hle : n ≤ m) : x.After ps f n :=
  ⟨Nat.le_trans hle h.1, h.2⟩

theorem Reading.After.mono {r : Reading} {ps : List Pool} (h : r.After ps m) (hle : n ≤ m) :
    r.After ps n :=
  ⟨h.entries.mono hle, h.cohort.mono hle, h.lastRotation.mono hle⟩

/-- A part that was read after all changes so far is that of the present pool. -/
theorem Part.After.value_eq {α : Type} {x : Part α} {f : Pool → α}
    (h : x.After s.pools f s.past.length) : x.value = f s.stored.pool := by
  obtain ⟨hle, hvalue⟩ := h
  obtain ⟨p, hp, -⟩ := Option.map_eq_some_iff.mp hvalue
  obtain ⟨hlt, -⟩ := List.getElem?_eq_some_iff.mp hp
  have hlength : x.changes = s.past.length := by
    simp only [pools, List.length_append, List.length_singleton] at hlt
    exact Nat.le_antisymm (Nat.le_of_lt_succ hlt) hle
  rw [hlength, pools, List.getElem?_concat_length, Option.map_some] at hvalue
  exact (Option.some.inj hvalue).symm

/-- What no step takes away. -/
structure Grows (s s' : SharedPool) : Prop where
  path : s'.stored.path = s.stored.path
  config : s'.stored.pool.config = s.stored.pool.config
  pools : s.pools <+: s'.pools
  completed : s.completed ⊆ s'.completed

namespace Grows

/-- What has the same pools and the same completed changes has lost nothing. -/
theorem same (hpath : s'.stored.path = s.stored.path) (hpool : s'.stored.pool = s.stored.pool)
    (hpast : s'.past = s.past) (hcompleted : s'.completed = s.completed) : s.Grows s' where
  path := hpath
  config := by rw [hpool]
  pools := by rw [SharedPool.pools, SharedPool.pools, hpast, hpool]
  completed := by rw [hcompleted]; exact List.Subset.refl _

theorem trans {t : SharedPool} (h : s.Grows s') (h' : s'.Grows t) : s.Grows t where
  path := h'.path.trans h.path
  config := h'.config.trans h.config
  pools := h.pools.trans h'.pools
  completed := List.Subset.trans h.completed h'.completed

theorem length_le (hg : s.Grows s') : s.past.length ≤ s'.past.length := by
  have h := hg.pools.length_le
  simp only [SharedPool.pools, List.length_append, List.length_singleton] at h
  exact Nat.le_of_add_le_add_right h

theorem part {α : Type} {x : Part α} {f : Pool → α} (hg : s.Grows s') (h : x.After s.pools f n) :
    x.After s'.pools f n := by
  obtain ⟨hle, hvalue⟩ := h
  obtain ⟨p, hp, -⟩ := Option.map_eq_some_iff.mp hvalue
  obtain ⟨hlt, -⟩ := List.getElem?_eq_some_iff.mp hp
  obtain ⟨later, hlater⟩ := hg.pools
  refine ⟨hle, ?_⟩
  rw [← hlater, List.getElem?_append_left hlt]
  exact hvalue

theorem reading {r : Reading} (hg : s.Grows s') (h : r.After s.pools n) : r.After s'.pools n :=
  ⟨hg.part h.entries, hg.part h.cohort, hg.part h.lastRotation⟩

end Grows

theorem grows_advance (s : SharedPool) (v : Holder) : s.Grows (s.advance v) := by
  unfold advance
  dsimp only
  split <;> try exact .same rfl rfl rfl rfl
  · split <;> exact .same rfl rfl rfl rfl
  · split <;> exact .same rfl rfl rfl rfl

/-! ## Calls alone -/

/-- What a call that writes does when there are no others. -/
def Writer.run : Writer → StoredPool → StateM Files (Except Failure Unit × StoredPool)
  | .save, p => p.save
  | .flush, p => p.flush

theorem Steps.advance {t : SharedPool} (hs : Steps s t) {v : Holder} (hv : t.holder = some v) :
    Steps s (t.advance v) :=
  Relation.ReflTransGen.tail hs (.advance hv)

/-- A change that is followed by its mark is that of the stored pool. -/
theorem steps_change {i : Nat} {q : StoredPool} (hi : s.callers i = .idle)
    (hq : s.stored.Changed q) :
    ∃ t, Steps s t ∧ t.stored = q ∧ t.callers = s.callers ∧ t.files = s.files ∧
      t.completed = (s.past.length + 1) :: s.completed ∧ t.holder = s.holder := by
  refine ⟨_, .tail (.tail .refl (.change hi hq)) (.mark (Function.update_self ..)), hq.inv.1.symm, ?_,
    rfl, rfl, rfl⟩
  dsimp only
  rw [Function.update_idem, ← hi, Function.update_eq_self]

theorem Steps.finish {t : SharedPool} (hs : Steps s t) {v : Holder} {result : Except Failure Unit}
    (hv : t.holder = some { v with stage := .finished result }) :
    ∃ u, Steps s u ∧
      u.callers = update t.callers v.caller (.returned v.writer v.before result) ∧
      u.stored = t.stored ∧ u.files = t.files :=
  ⟨_, hs.advance hv, rfl, rfl, rfl⟩

/-- What is written from parts that were read together is written as saving does. -/
theorem Steps.write {t : SharedPool} (hs : Steps s t) {v : Holder} {r : Reading}
    (hv : t.holder = some { v with stage := .allRead r }) (hdirty : t.stored.dirty = false)
    (hr : r.snapshot = .ofPool t.stored.pool) :
    ∃ u result, Steps s u ∧
      u.callers = update t.callers v.caller (.returned v.writer v.before result) ∧
      t.stored.save.run t.files = ((result, u.stored), u.files) := by
  have h₁ := hs.advance hv
  unfold SharedPool.advance at h₁
  dsimp only at h₁
  rw [hr] at h₁
  split at h₁
  · next files hwrite =>
    obtain ⟨u, hu, hcaller, hstored, hfiles⟩ := h₁.finish (v := v) rfl
    refine ⟨u, _, hu, hcaller, ?_⟩
    have hstored' : { t.stored with dirty := false } = t.stored := by rw [← hdirty]
    rw [StoredPool.save_of_write hwrite, hstored, hfiles]
    exact congrArg (fun p => ((Except.ok (), p), files)) hstored'
  · next e files hwrite =>
    obtain ⟨u, hu, hcaller, hstored, hfiles⟩ := (h₁.advance rfl).finish (v := v) rfl
    refine ⟨u, _, hu, hcaller, ?_⟩
    rw [StoredPool.save_of_write_error hwrite, hstored, hfiles]
    rfl

/-- A call that writes, alone from its beginning to its end, does what it does when there are no
others. -/
theorem steps_write {i : Nat} (writer : Writer) (hi : s.callers i = .idle) (hfree : s.holder = none) :
    ∃ t result, Steps s t ∧ t.callers = update s.callers i (.returned writer s.completed result) ∧
      (writer.run s.stored).run s.files = ((result, t.stored), t.files) := by
  let v : Holder := { caller := i, writer, before := s.completed }
  have h₀ : Steps s { s with
      holder := some v
      callers := update (update s.callers i (.waiting writer s.completed)) i .inside } :=
    .tail (.tail .refl (.call writer hi)) (.lock (Function.update_self ..) hfree)
  -- With the lock it clears the mark, and is done at once if a flush finds it clear.
  have h₁ := h₀.advance rfl
  unfold SharedPool.advance at h₁
  dsimp only [v] at h₁
  split at h₁
  · next hspare =>
    obtain ⟨u, hu, hcallers, hstored, hfiles⟩ := h₁.finish (v := v) rfl
    refine ⟨u, _, hu, by rw [hcallers, Function.update_idem, Function.update_idem], ?_⟩
    obtain ⟨rfl, hdirty⟩ := hspare
    rw [hstored, hfiles, Writer.run, StoredPool.flush, hdirty]
    rfl
  · next hneeded =>
    -- Nobody changes the pool between the three reads, so they make up its snapshot.
    have h₄ := ((h₁.advance rfl).advance rfl).advance rfl
    obtain ⟨u, result, hu, hcallers, hsave⟩ := h₄.write (v := v) rfl rfl rfl
    refine ⟨u, result, hu, ?_, ?_⟩
    · rw [hcallers]
      exact (Function.update_idem ..).trans (Function.update_idem ..)
    have hrun : writer.run s.stored = s.stored.save := by
      cases writer with
      | save => rfl
      | flush =>
        have hdirty : s.stored.dirty = true := by simpa using hneeded
        rw [Writer.run, StoredPool.flush, if_pos hdirty]
    rw [hrun, ← hsave]
    exact congrArg (·.run s.files) (s.stored.save_dirty false).symm

end SharedPool

end AddressExchange
