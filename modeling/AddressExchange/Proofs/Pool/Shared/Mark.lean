import AddressExchange.Proofs.Pool.Shared

/-!
# The mark of a shared pool

The invariant bounds what the file may lack: while the mark is not set, all changes whose calls have
returned are in the file, or in the parts that the call with the lock has read or is still to read.
So nothing is lost, in whatever order the steps of all calls come.
-/

namespace AddressExchange.SharedPool

open Function (update)

variable {s s' : SharedPool} {n m : Nat}

/-! ## The invariant -/

/-- Are numbers those of some of the first `n` changes? -/
def Covered (numbers : List Nat) (n : Nat) : Prop := ∀ k ∈ numbers, 0 < k ∧ k ≤ n

theorem Covered.mono {numbers : List Nat} {m n : Nat} (h : Covered numbers n) (hle : n ≤ m) :
    Covered numbers m :=
  fun k hk => ⟨(h k hk).1, Nat.le_trans (h k hk).2 hle⟩

/-- Does the file hold parts that were read after the first `n` changes? Before the first write it
holds the pool that was opened. -/
def Holds (s : SharedPool) (n : Nat) : Prop :=
  (∃ r, s.written = some r ∧
    s.files.resolve s.stored.path = .ok (some (.file r.snapshot.write true)) ∧ r.After s.pools n) ∨
  n = 0 ∧ ∃ p, s.pools.head? = some p.pool ∧
    StoredPool.found s.stored.path s.stored.pool.config (s.files.resolve s.stored.path) = .ok p

/-- Is the last change completed, or is its call still to set the mark? -/
def Noted (s : SharedPool) : Prop :=
  s.past = [] ∨ s.past.length ∈ s.completed ∨ ∃ i, s.callers i = .changed s.past.length

/-- What is known of a caller while the file holds the first `n` changes. -/
def CallerSound (s : SharedPool) (n : Nat) : Caller → Prop
  | .idle | .inside => True
  | .changed number => 0 < number ∧ number ≤ s.past.length
  | .waiting _ before => before ⊆ s.completed
  | .returned _ before (.ok ()) => Covered before n
  | .returned _ _ (.error _) => True

/-- What is known of the call with the lock while the file holds the first `n` changes. Once the mark
is cleared, all that is read comes after the first `m`. -/
def StageSound (s : SharedPool) (n m : Nat) (before : List Nat) : Stage → Prop
  | .locked => m = n ∧ before ⊆ s.completed
  | .cleared => Covered before m
  | .entriesRead entries => Covered before m ∧ entries.After s.pools (·.entries) m
  | .cohortRead entries cohort =>
    Covered before m ∧ entries.After s.pools (·.entries) m ∧ cohort.After s.pools (·.cohort) m
  | .allRead r => Covered before m ∧ r.After s.pools m
  | .failed _ => True
  | .finished (.ok ()) => m = n ∧ Covered before n
  | .finished (.error _) => m = n

/-- What holds at all times: the file holds the first `n` changes, and the changes whose calls have
returned are among the first `m` unless the mark is set. -/
structure Sound (s : SharedPool) (n m : Nat) : Prop where
  wellFormed : s.stored.pool.WellFormed
  holds : s.Holds n
  le : n ≤ m
  le_length : m ≤ s.past.length
  completed : Covered s.completed s.past.length
  marked : s.stored.dirty = false → Covered s.completed m
  noted : s.Noted
  caller : ∀ i, s.CallerSound n (s.callers i)
  free : s.holder = none → m = n
  inside : ∀ h, s.holder = some h → s.callers h.caller = .inside ∧ s.StageSound n m h.before h.stage

/-! ## Growth -/

theorem Holds.grow (h : s.Holds n) (hg : s.Grows s') (hwritten : s'.written = s.written)
    (hfile : s'.files.resolve s'.stored.path = s.files.resolve s.stored.path) : s'.Holds n := by
  cases h with
  | inl h =>
    obtain ⟨r, hr, hresolve, hafter⟩ := h
    exact .inl ⟨r, hwritten.trans hr, hfile.trans hresolve, hg.reading hafter⟩
  | inr h =>
    obtain ⟨hn, p, hfirst, hfound⟩ := h
    refine .inr ⟨hn, p, ?_, ?_⟩
    · obtain ⟨later, hlater⟩ := hg.pools
      rw [← hlater, List.head?_append, hfirst, Option.some_or]
    · rw [hfile, hg.path, hg.config]
      exact hfound

theorem CallerSound.grow {c : Caller} (h : s.CallerSound n c) (hg : s.Grows s') (hle : n ≤ m) :
    s'.CallerSound m c := by
  unfold CallerSound at *
  split at h
  · trivial
  · trivial
  · exact ⟨h.1, Nat.le_trans h.2 hg.length_le⟩
  · exact List.Subset.trans h hg.completed
  · exact h.mono hle
  · trivial

theorem CallerSound.update (h : ∀ j, s.CallerSound n (s.callers j)) (hg : s.Grows s') {i : Nat}
    {c : Caller} (hc : s'.CallerSound n c) (j : Nat) :
    s'.CallerSound n (update s.callers i c j) := by
  by_cases hj : j = i
  · rw [hj, Function.update_self]
    exact hc
  · rw [Function.update_of_ne hj]
    exact (h j).grow hg (Nat.le_refl n)

theorem Noted.update (h : s.Noted) {i : Nat} {c : Caller}
    (hi : ∀ number, s.callers i ≠ .changed number) :
    Noted { s with callers := update s.callers i c } := by
  rcases h with hpast | hdone | ⟨j, hj⟩
  · exact .inl hpast
  · exact .inr (.inl hdone)
  · have hji : j ≠ i := fun heq => hi _ (heq ▸ hj)
    exact .inr (.inr ⟨j, (Function.update_of_ne hji ..).trans hj⟩)

theorem StageSound.grow {before : List Nat} {stage : Stage} (h : s.StageSound n m before stage)
    (hg : s.Grows s') : s'.StageSound n m before stage := by
  unfold StageSound at *
  split at h
  · exact ⟨h.1, List.Subset.trans h.2 hg.completed⟩
  · exact h
  · exact ⟨h.1, hg.part h.2⟩
  · exact ⟨h.1, hg.part h.2.1, hg.part h.2.2⟩
  · exact ⟨h.1, hg.reading h.2⟩
  · trivial
  · exact h
  · exact h

/-! ## Callers without the lock -/

/-- A step of one caller without the lock, and of nobody else. -/
theorem Sound.caller_step (h : s.Sound n m) {i : Nat} {c : Caller} (hi : s.callers i ≠ .inside)
    (hg : s.Grows s') (hcallers : s'.callers = update s.callers i c) (hholder : s'.holder = s.holder)
    (hfiles : s'.files = s.files) (hwritten : s'.written = s.written) (hc : s'.CallerSound n c)
    (hformed : s'.stored.pool.WellFormed) (hcompleted : Covered s'.completed s'.past.length)
    (hmarked : s'.stored.dirty = false → Covered s'.completed m) (hnoted : s'.Noted) :
    s'.Sound n m where
  wellFormed := hformed
  holds := h.holds.grow hg hwritten (by rw [hfiles, hg.path])
  le := h.le
  le_length := Nat.le_trans h.le_length hg.length_le
  completed := hcompleted
  marked := hmarked
  noted := hnoted
  caller j := hcallers ▸ CallerSound.update h.caller hg hc j
  free := hholder ▸ h.free
  inside v hv := by
    obtain ⟨hcaller, hstage⟩ := h.inside v (hholder ▸ hv)
    refine ⟨?_, hstage.grow hg⟩
    have hne : v.caller ≠ i := fun heq => hi (heq ▸ hcaller)
    rw [hcallers, Function.update_of_ne hne]
    exact hcaller

theorem Sound.change (h : s.Sound n m) {i : Nat} {q : StoredPool} (hi : s.callers i = .idle)
    (hq : s.stored.Changed q) :
    Sound { s with
      stored := { s.stored with pool := q.pool }
      past := s.past ++ [s.stored.pool]
      callers := update s.callers i (.changed (s.past.length + 1)) } n m := by
  have hlength : (s.past ++ [s.stored.pool]).length = s.past.length + 1 := List.length_append
  refine h.caller_step (i := i) (hi ▸ nofun) ⟨rfl, hq.config, ?_, fun _ hk => hk⟩ rfl rfl
    rfl rfl ?_ (hq.wellFormed h.wellFormed) ?_ h.marked ?_
  · exact List.prefix_append _ _
  · exact ⟨Nat.succ_pos _, Nat.le_of_eq hlength.symm⟩
  · exact h.completed.mono (by rw [hlength]; exact Nat.le_succ _)
  · refine .inr (.inr ⟨i, ?_⟩)
    dsimp only
    rw [Function.update_self, hlength]

theorem Sound.mark (h : s.Sound n m) {i number : Nat} (hi : s.callers i = .changed number) :
    Sound { s with
      stored := { s.stored with dirty := true }
      completed := number :: s.completed
      callers := update s.callers i .idle } n m := by
  refine h.caller_step (i := i) (hi ▸ nofun)
    ⟨rfl, rfl, List.prefix_refl _, List.subset_cons_self _ _⟩ rfl rfl rfl rfl trivial h.wellFormed ?_
    nofun ?_
  · have hnumber := h.caller i
    rw [hi] at hnumber
    exact List.forall_mem_cons.mpr ⟨hnumber, h.completed⟩
  · rcases h.noted with hpast | hdone | ⟨j, hj⟩
    · exact .inl hpast
    · exact .inr (.inl (List.mem_cons_of_mem _ hdone))
    · by_cases hji : j = i
      · rw [hji, hi] at hj
        obtain rfl := Caller.changed.inj hj
        exact .inr (.inl List.mem_cons_self)
      · exact .inr (.inr ⟨j, (Function.update_of_ne hji ..).trans hj⟩)

/-- A caller that has made no change may begin or leave a call that writes. -/
theorem Sound.idle_step (h : s.Sound n m) {i : Nat} {c : Caller} (hi : s.callers i ≠ .inside)
    (hchanged : ∀ number, s.callers i ≠ .changed number) (hc : s.CallerSound n c) :
    Sound { s with callers := update s.callers i c } n m := by
  have hg : s.Grows { s with callers := update s.callers i c } := .same rfl rfl rfl rfl
  exact h.caller_step hi hg rfl rfl rfl rfl (hc.grow hg (Nat.le_refl n)) h.wellFormed h.completed
    h.marked (h.noted.update hchanged)

theorem Sound.lock (h : s.Sound n m) {i : Nat} {writer : Writer} {before : List Nat}
    (hi : s.callers i = .waiting writer before) (hfree : s.holder = none) :
    Sound { s with
      holder := some { caller := i, writer, before }
      callers := update s.callers i .inside } n m := by
  have hidle : Sound { s with callers := update s.callers i .inside } n m :=
    h.idle_step (hi ▸ nofun) (fun _ heq => nomatch hi.symm.trans heq) trivial
  have hbefore : s.CallerSound n (.waiting writer before) := hi ▸ h.caller i
  refine { hidle with free := nofun, inside := fun v hv => ?_ }
  cases hv
  exact ⟨Function.update_self .., h.free hfree, hbefore⟩

theorem Sound.elsewhere (h : s.Sound n m) {fs : Files}
    (hfs : fs.resolve s.stored.path = s.files.resolve s.stored.path) :
    Sound { s with files := fs } n m :=
  have hg : s.Grows { s with files := fs } := .same rfl rfl rfl rfl
  { h with holds := h.holds.grow hg rfl hfs }

/-! ## The call with the lock -/

/-- A step of the call with the lock that keeps it. Pool, changes and callers stay. -/
theorem Sound.holder_step {n' m' : Nat} (h : s.Sound n m) {v : Holder} (hv : s.holder = some v)
    {stage : Stage} {dirty : Bool} {files : Files} {written : Option Reading} (hn : n ≤ n') (hle : n' ≤ m')
    (hlength : m' ≤ s.past.length) (hmarked : dirty = false → Covered s.completed m')
    (hholds : Holds { s with files, written } n') (hstage : s.StageSound n' m' v.before stage) :
    Sound { s with
      stored := { s.stored with dirty }
      files
      written
      holder := some { v with stage } } n' m' where
  wellFormed := h.wellFormed
  holds := hholds
  le := hle
  le_length := hlength
  completed := h.completed
  marked := hmarked
  noted := h.noted
  caller i := (h.caller i).grow (.same rfl rfl rfl rfl) hn
  free := nofun
  inside w hw := by
    cases hw
    exact ⟨(h.inside v hv).1, hstage.grow (.same rfl rfl rfl rfl)⟩

theorem Sound.advance (h : s.Sound n m) {v : Holder} (hv : s.holder = some v) :
    ∃ n' m', (s.advance v).Sound n' m' := by
  obtain ⟨hcaller, hstage⟩ := h.inside v hv
  obtain ⟨caller, writer, before, stage⟩ := v
  have hrefl := Nat.le_refl n
  have hpresent {α : Type} (f : Pool → α) := after_part f h.le_length
  cases stage with
  | locked =>
    -- From here on the flag speaks of what is going to be read, and that is all changes so far.
    obtain ⟨rfl, hbefore⟩ := hstage
    unfold SharedPool.advance
    dsimp only
    split
    · next hspare =>
      exact ⟨m, m, h.holder_step hv hrefl hrefl h.le_length h.marked h.holds
        ⟨rfl, fun k hk => h.marked hspare.2 k (hbefore hk)⟩⟩
    · exact ⟨m, s.past.length, h.holder_step hv hrefl h.le_length (Nat.le_refl _)
        (fun _ => h.completed) h.holds fun k hk => h.completed k (hbefore hk)⟩
  | cleared =>
    exact ⟨n, m, h.holder_step hv hrefl h.le h.le_length h.marked h.holds
      ⟨hstage, hpresent _⟩⟩
  | entriesRead entries =>
    exact ⟨n, m, h.holder_step hv hrefl h.le h.le_length h.marked h.holds
      ⟨hstage.1, hstage.2, hpresent _⟩⟩
  | cohortRead entries cohort =>
    exact ⟨n, m, h.holder_step hv hrefl h.le h.le_length h.marked h.holds
      ⟨hstage.1, hstage.2.1, hstage.2.2, hpresent _⟩⟩
  | allRead r =>
    unfold SharedPool.advance
    dsimp only
    split
    -- What was read is now what the file holds.
    · next files hwrite =>
      have hfile := StoredPool.resolve_of_write hwrite
      exact ⟨m, m, h.holder_step hv h.le (Nat.le_refl m) h.le_length h.marked
        (.inl ⟨r, rfl, hfile, hstage.2⟩) ⟨rfl, hstage.1⟩⟩
    -- The file is as before; the mark may be clear although changes are missing.
    · next e files hwrite =>
      have hholds : Holds { s with files } n := h.holds.grow
        (.same rfl rfl rfl rfl) rfl (StoredPool.resolve_of_write_error hwrite)
      exact ⟨n, m, h.holder_step hv hrefl h.le h.le_length h.marked hholds trivial⟩
  | failed e =>
    -- With the mark set again nothing is promised beyond what the file has.
    exact ⟨n, n, h.holder_step hv hrefl hrefl (Nat.le_trans h.le h.le_length) nofun h.holds rfl⟩
  | finished result =>
    obtain ⟨hmn, hc⟩ : m = n ∧ s.CallerSound n (.returned writer before result) := by
      cases result with
      | error e => exact ⟨hstage, trivial⟩
      | ok _ => exact hstage
    have hchanged (number : Nat) : s.callers caller ≠ .changed number :=
      fun heq => nomatch hcaller.symm.trans heq
    let t : SharedPool := { s with
      holder := none
      callers := update s.callers caller (.returned writer before result) }
    have hg : s.Grows t := .same rfl rfl rfl rfl
    have hcallers : ∀ i, t.CallerSound n (t.callers i) :=
      CallerSound.update h.caller hg (hc.grow hg hrefl)
    have hinside : ∀ v, t.holder = some v → t.callers v.caller = .inside ∧
      t.StageSound n m v.before v.stage := fun _ hv => nomatch hv
    exact ⟨n, m, { h with
      noted := h.noted.update hchanged
      caller := hcallers
      free := fun _ => hmn
      inside := hinside }⟩

theorem Sound.step (h : s.Sound n m) (hs : Step s s') : ∃ n' m', s'.Sound n' m' := by
  cases hs with
  | change hi hq => exact ⟨n, m, h.change hi hq⟩
  | mark hi => exact ⟨n, m, h.mark hi⟩
  | call writer hi =>
    exact ⟨n, m, h.idle_step (hi ▸ nofun) (fun _ heq => nomatch hi.symm.trans heq) fun _ hk => hk⟩
  | lock hi hfree => exact ⟨n, m, h.lock hi hfree⟩
  | advance hv => exact h.advance hv
  | leave hi =>
    exact ⟨n, m, h.idle_step (hi ▸ nofun) (fun _ heq => nomatch hi.symm.trans heq) trivial⟩
  | elsewhere hfs => exact ⟨n, m, h.elsewhere hfs⟩

theorem Step.grows (hs : Step s s') : s.Grows s' := by
  cases hs with
  | change hi hq =>
    exact ⟨rfl, hq.config, List.prefix_append _ _, List.Subset.refl _⟩
  | mark hi => exact ⟨rfl, rfl, List.prefix_refl _, List.subset_cons_self _ _⟩
  | advance hv => exact s.grows_advance _
  | call | lock | leave | elsewhere => exact .same rfl rfl rfl rfl

/-! ## Whole runs -/

theorem sound_opened {path : Path} {config : PoolConfig} {p : StoredPool} {fs fs' : Files}
    (h : (StoredPool.openAt path config).run fs = (.ok p, fs')) : (opened p fs').Sound 0 0 := by
  rw [StoredPool.run_openAt] at h
  obtain ⟨hfound, rfl⟩ := Prod.mk.inj h
  obtain ⟨hformed, rfl, rfl⟩ := StoredPool.wellFormed_found hfound
  exact {
    wellFormed := hformed
    holds := .inr ⟨rfl, p, rfl, hfound⟩
    le := Nat.le_refl 0
    le_length := Nat.le_refl 0
    completed := nofun
    marked := nofun
    noted := .inl rfl
    caller := fun _ => trivial
    free := fun _ => rfl
    inside := fun v hv => nomatch hv }

theorem Steps.sound (hs : Steps s s') (h : s.Sound n m) :
    s.Grows s' ∧ ∃ n' m', s'.Sound n' m' := by
  induction hs with
  | refl => exact ⟨.same rfl rfl rfl rfl, n, m, h⟩
  | tail _ hstep ih =>
    obtain ⟨hgrows, n', m', h'⟩ := ih
    exact ⟨hgrows.trans hstep.grows, h'.step hstep⟩

/-- What holds no less than all changes is the present pool. -/
theorem Holds.opens (h : s.Holds s.past.length) (hformed : s.stored.pool.WellFormed) :
    ∃ q, StoredPool.found s.stored.path s.stored.pool.config
        (s.files.resolve s.stored.path) = .ok q ∧
      q.pool.entries = s.stored.pool.entries ∧ q.pool.cohort = s.stored.pool.cohort ∧
      q.pool.lastRotation = s.stored.pool.lastRotation := by
  cases h with
  | inl h =>
    obtain ⟨r, -, hresolve, hafter⟩ := h
    have hsnapshot : r.snapshot = .ofPool s.stored.pool := by
      rw [Reading.snapshot, hafter.entries.value_eq, hafter.cohort.value_eq,
        hafter.lastRotation.value_eq, Snapshot.ofPool]
    rw [hresolve, hsnapshot]
    exact ⟨_, StoredPool.found_ofPool hformed _ _, rfl, rfl, rfl⟩
  | inr h =>
    obtain ⟨hlength, p, hfirst, hfound⟩ := h
    have hpast : s.past = [] := List.length_eq_zero_iff.mp hlength
    rw [pools, hpast] at hfirst
    obtain hpool := Option.some.inj hfirst
    exact ⟨p, hfound, by rw [hpool], by rw [hpool], by rw [hpool]⟩

/-- What has the first `n` changes reflects each of them. -/
theorem Holds.reflects (h : s.Holds n) {numbers : List Nat} (hcovered : Covered numbers n)
    {number : Nat} (hnumber : number ∈ numbers) : s.Reflects number := by
  obtain ⟨hpos, hle⟩ := hcovered number hnumber
  cases h with
  | inl h =>
    obtain ⟨r, hr, hresolve, hafter⟩ := h
    refine ⟨r, hr, ?_, hafter.mono hle⟩
    rw [Files.contentOf, hresolve]
    rfl
  | inr h => exact absurd (h.1 ▸ hle) (Nat.not_le_of_lt hpos)

/-- When no call is under way and the mark is not set, all changes are in the file. -/
theorem Sound.holds_all (h : s.Sound n m) (hbusy : ∀ i, ¬ (s.callers i).Busy)
    (hdirty : s.stored.dirty = false) : s.Holds s.past.length := by
  have hfree : s.holder = none := by
    cases hv : s.holder with
    | none => rfl
    | some v =>
      have hinside := (h.inside v hv).1
      exact absurd (hinside ▸ trivial) (hbusy v.caller)
  obtain rfl := h.free hfree
  -- The last change is completed, as no call is left that could still set the mark.
  have hlength : s.past.length ≤ m := by
    rcases h.noted with hpast | hdone | ⟨i, hi⟩
    · rw [hpast]
      exact Nat.zero_le m
    · exact (h.marked hdirty _ hdone).2
    · exact absurd (hi ▸ trivial) (hbusy i)
  exact Nat.le_antisymm h.le_length hlength ▸ h.holds

/-- Whatever the callers do, in whatever order: when no call is under way and the mark is not set,
the file is opened as the present pool; and when a call that writes has returned without a fault,
all changes whose calls had returned before it was made are in the file. -/
theorem mark_protocol {path : Path} {config : PoolConfig} {p : StoredPool} {fs fs' : Files}
    (hopen : (StoredPool.openAt path config).run fs = (.ok p, fs'))
    (hs : Steps (opened p fs') s) :
    ((∀ i, ¬ (s.callers i).Busy) → s.stored.dirty = false →
      ∃ q, (StoredPool.openAt path config).run s.files = (.ok q, s.files) ∧
        q.pool.entries = s.stored.pool.entries ∧ q.pool.cohort = s.stored.pool.cohort ∧
        q.pool.lastRotation = s.stored.pool.lastRotation) ∧
    ∀ i writer before, s.callers i = .returned writer before (.ok ()) →
      ∀ number ∈ before, s.Reflects number := by
  obtain ⟨hgrows, n, m, h⟩ := hs.sound (sound_opened hopen)
  rw [StoredPool.run_openAt] at hopen
  obtain ⟨hfound, -⟩ := Prod.mk.inj hopen
  obtain ⟨-, hconfig, hpath⟩ := StoredPool.wellFormed_found hfound
  have hpath' : s.stored.path = path := hgrows.path.trans hpath
  have hconfig' : s.stored.pool.config = config := hgrows.config.trans hconfig
  constructor
  · intro hbusy hdirty
    obtain ⟨q, hq, hparts⟩ := (h.holds_all hbusy hdirty).opens h.wellFormed
    rw [hpath', hconfig'] at hq
    exact ⟨q, by rw [StoredPool.run_openAt, hq], hparts⟩
  · intro i writer before hi number hnumber
    have hcaller := h.caller i
    rw [hi] at hcaller
    exact h.holds.reflects hcaller hnumber

/-- An activation by one caller, and a flush by another one after it. -/
theorem mark_protocol_flush :
    let path := ["pool.json"]
    let config : PoolConfig := {}
    ∃ s, Steps (opened { path, pool := { config } } {}) s ∧
      s.callers 1 = .returned .flush [1] (.ok ()) ∧ s.Reflects 1 ∧
      ∃ q, (StoredPool.openAt path config).run s.files = (.ok q, s.files) ∧
        q.pool.entries = #[⟨"1A", .early 1 0⟩] := by
  intro path config
  let p : StoredPool := { path, pool := { config } }
  let q : StoredPool := ⟨path, { config, entries := #[⟨"1A", .early 1 0⟩] }, true⟩
  have hopen : (StoredPool.openAt path config).run {} = (.ok p, {}) := by
    rw [StoredPool.run_openAt]
    rfl
  have hpool : p.pool.activate " 1A " (.early 1 0) = .ok q.pool := by
    have hcheck : Address.check " 1A " = .ok "1A" := by decide +kernel
    exact (Pool.activate_eq_ok (p := p.pool) .nil).mpr ⟨"1A", hcheck, List.not_mem_nil, rfl⟩
  have hq : p.activate " 1A " (.early 1 0) = .ok q := by
    rw [StoredPool.activate, hpool]
    rfl
  obtain ⟨s, hs, hstored, hcallers, hfiles, hcompleted, hfree⟩ :=
    steps_change (s := opened p {}) (i := 0) rfl (.activate _ _ hq)
  obtain ⟨t, result, ht, htcallers, hrun⟩ :=
    steps_write (s := s) (i := 1) .flush (by rw [hcallers]; rfl) hfree
  have hrest : (q.flush.run {}).1 = (.ok (), { q with dirty := false }) := by
    rfl
  rw [hstored, hfiles] at hrun
  have hboth := hrest.symm.trans (congrArg (·.1) hrun)
  obtain ⟨rfl, hclean⟩ := Prod.mk.inj hboth
  have hreach : Steps (opened p {}) t := hs.trans ht
  obtain ⟨hopens, hreflects⟩ := mark_protocol hopen hreach
  have hreturned : t.callers 1 = .returned .flush [1] (.ok ()) := by
    rw [htcallers, Function.update_self, hcompleted]
    rfl
  have hbusy (i : Nat) : ¬ (t.callers i).Busy := by
    rw [htcallers, hcallers]
    by_cases hi : i = 1
    · rw [hi, Function.update_self]
      exact id
    · rw [Function.update_of_ne hi]
      exact id
  obtain ⟨q', hq', hentries, -, -⟩ := hopens hbusy (hclean ▸ rfl)
  refine ⟨t, hreach, hreturned, hreflects 1 .flush [1] hreturned 1 List.mem_cons_self, q', hq', ?_⟩
  rw [hentries, ← hclean]

end AddressExchange.SharedPool
