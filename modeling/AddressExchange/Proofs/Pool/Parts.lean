import AddressExchange.Proofs.Pool.History
import AddressExchange.Proofs.Pool.Shared

/-!
# Files written from parts that were read apart

The parts of a pool are read one after the other, and calls may change the pool in between. The file
that is written from them is opened as just these parts, unless the cohort has an entry that was
activated after the entries were read. Such a file is refused. One activation and one rotation
between the first two reads are enough for it.
-/

namespace AddressExchange

/-! ## Cohorts of a later pool -/

namespace Pool

variable {p q : Pool}

/-- The entries of a cohort that a pool does not have. -/
def late (p : Pool) (cohort : List Entry) : List Entry :=
  cohort.filter fun e => e ∉ p.entries.toList

theorem late_eq_nil {cohort : List Entry} :
    p.late cohort = [] ↔ ∀ e ∈ cohort, e ∈ p.entries.toList := by
  simp [late, List.filter_eq_nil_iff]

/-- Looking up addresses one by one stops at the first that is missed. -/
private theorem mapM_lookup {f : String → Except Failure Entry} (p : Pool) {es : List Entry}
    (hfound : ∀ e ∈ es, e ∈ p.entries.toList → f e.address = .ok e)
    (hmissed : ∀ e ∈ es, e ∉ p.entries.toList →
      f e.address = .error (.pool (.notInPool e.address))) :
    (es.map (·.address)).mapM f =
      match p.late es with
      | [] => .ok es
      | e :: _ => .error (.pool (.notInPool e.address)) := by
  induction es with
  | nil => rfl
  | cons e es ih =>
    have ih := ih (fun x hx => hfound x (List.mem_cons_of_mem e hx))
      fun x hx => hmissed x (List.mem_cons_of_mem e hx)
    rw [List.map_cons, List.mapM_cons]
    by_cases he : e ∈ p.entries.toList
    · have hlate : p.late (e :: es) = p.late es := List.filter_cons_of_neg (by simpa using he)
      rw [hfound e List.mem_cons_self he, ih, hlate]
      cases p.late es <;> rfl
    · have hlate : p.late (e :: es) = e :: p.late es := List.filter_cons_of_pos (by simpa using he)
      rw [hmissed e List.mem_cons_self he, hlate]
      rfl

/-- An earlier pool takes the cohort of a later one, unless an entry of it came in the meantime. -/
theorem WellFormed.restore_later (h : p.WellFormed) (hq : q.WellFormed)
    (hentries : p.entries.toList ⊆ q.entries.toList) (last : Option Instant) :
    p.restore (q.cohort.map (·.address)) last =
      match p.late q.cohort with
      | [] => .ok { p with cohort := q.cohort, lastRotation := last }
      | e :: _ => .error (.pool (.notInPool e.address)) := by
  -- Both pools have one entry of each address at most, so an entry is found if it is there at all.
  have hnone : ∀ e ∈ q.cohort, e ∉ p.entries.toList → p.find? e.address = none := by
    intro e he hnot
    rw [find?_eq_none, List.mem_map]
    rintro ⟨e', he', haddress⟩
    have hsame := hq.eq_of_address_eq (hentries he') (hq.mem_of_mem_cohort he) haddress
    exact hnot (hsame ▸ he')
  rw [Pool.restore, mapM_lookup p (fun e _ he => by rw [h.find?_eq_some he])
    fun e he hnot => by rw [hnone e he hnot]]
  cases p.late q.cohort with
  | nil => simp only [bind, Except.bind, Entry.sort_eq_self hq.cohort]
  | cons e es => rfl

end Pool

/-! ## Changes between two reads -/

namespace StoredPool

variable {p q : StoredPool}

/-- Any number of changes, one after another. -/
def Changes : StoredPool → StoredPool → Prop := Relation.ReflTransGen Changed

/-- What changes a pool depends on nothing else that is stored. -/
theorem Changed.of_pool (h : p.Changed q) {p' : StoredPool} (hpool : p'.pool = p.pool) :
    p'.Changed { p' with pool := q.pool, dirty := true } := by
  obtain ⟨-, ⟨text, at_, hactivate⟩ | ⟨now, hrotate⟩⟩ := h.inv
  · refine .activate text at_ ?_
    rw [StoredPool.activate, hpool, hactivate]
    rfl
  · rw [hrotate, ← hpool]
    exact .rotate now

/-- Entries are never taken away. -/
theorem Changed.entries_subset (h : p.Changed q) (hp : p.pool.WellFormed) :
    p.pool.entries.toList ⊆ q.pool.entries.toList := by
  obtain ⟨-, ⟨text, at_, hpool⟩ | ⟨now, hpool⟩⟩ := h.inv
  · obtain ⟨address, -, -, hq⟩ := (Pool.activate_eq_ok hp.ordered).mp hpool
    rw [hq]
    exact fun e he => Entry.mem_place.mpr (.inr he)
  · rw [hpool]
    exact List.Subset.refl _

theorem Changes.later (h : p.Changes q) (hp : p.pool.WellFormed) :
    q.pool.WellFormed ∧ p.pool.entries.toList ⊆ q.pool.entries.toList := by
  induction h with
  | refl => exact ⟨hp, List.Subset.refl _⟩
  | tail _ hchanged ih =>
    obtain ⟨hformed, hentries⟩ := ih
    exact ⟨hchanged.wellFormed hformed,
      List.Subset.trans hentries (hchanged.entries_subset hformed)⟩

/-! ## Opening what was written -/

/-- A file that was written is opened as the pool of its snapshot. -/
theorem run_openAt_of_write {path : Path} {s : Snapshot} {fs fs' : Files} (config : PoolConfig)
    (hs : s.version ≤ 255) (h : (write path s).run fs = (.ok (), fs')) :
    (openAt path config).run fs' = ((s.toPool config).map fun pool => { path, pool }, fs') := by
  rw [run_openAt, resolve_of_write h]
  simp only [found, Snapshot.read_write hs, bind, Except.bind]
  cases s.toPool config <;> rfl

/-- A file with the entries of a pool and the cohort of a later one is opened as these parts, or is
refused for the first of the cohort that the entries lack. -/
theorem run_openAt_parts {p₁ : StoredPool} (hp : p.pool.WellFormed) (h₁ : p.Changes p₁)
    {last : Option Instant} {fs fs' : Files}
    (hw : (write p.path (.ofParts p.pool.entries p₁.pool.cohort last)).run fs = (.ok (), fs')) :
    (openAt p.path p.pool.config).run fs' =
      (match p.pool.late p₁.pool.cohort with
      | [] => .ok {
          path := p.path
          pool := {
            config := p.pool.config
            entries := p.pool.entries
            cohort := p₁.pool.cohort
            lastRotation := last } }
      | e :: _ => .error (.pool (.notInPool e.address)), fs') := by
  obtain ⟨hformed₁, hentries⟩ := h₁.later hp
  have hversion : (1 : Nat) ≤ 255 := by decide
  have hlate : p.pool.entriesAlone.late p₁.pool.cohort = p.pool.late p₁.pool.cohort := rfl
  rw [run_openAt_of_write p.pool.config hversion hw, hp.toPool_ofParts,
    hp.entriesAlone.restore_later hformed₁ hentries, hlate]
  cases p.pool.late p₁.pool.cohort <;> rfl

/-- The entries of a pool are read, then the cohort, then the last rotation, with any changes in
between. The file that is written from them is opened as just these parts, unless the cohort has
entries that the first read missed; then the first of these is named. There are none if no rotation,
or no activation, came between the first two reads. -/
theorem open_written_parts {p p₁ : StoredPool} (hp : p.pool.Reachable) (h₁ : p.Changes p₁) :
    (p₁.pool.cohort = p.pool.cohort ∨ p₁.pool.entries = p.pool.entries →
      p.pool.late p₁.pool.cohort = []) ∧
    ∀ p₂, p₁.Changes p₂ → ∀ fs fs',
      (write p.path
        (.ofParts p.pool.entries p₁.pool.cohort p₂.pool.lastRotation)).run fs = (.ok (), fs') →
      (openAt p.path p.pool.config).run fs' =
        (match p.pool.late p₁.pool.cohort with
        | [] => .ok {
            path := p.path
            pool := {
              config := p.pool.config
              entries := p.pool.entries
              cohort := p₁.pool.cohort
              lastRotation := p₂.pool.lastRotation } }
        | e :: _ => .error (.pool (.notInPool e.address)), fs') := by
  have hformed := hp.wellFormed
  constructor
  · intro h
    rw [Pool.late_eq_nil]
    intro e he
    cases h with
    | inl hcohort => exact hformed.mem_of_mem_cohort (hcohort ▸ he)
    | inr hsame => exact hsame ▸ (h₁.later hformed).1.mem_of_mem_cohort he
  · intro p₂ _ fs fs' hw
    exact run_openAt_parts hformed h₁ hw

/-- A rotation after each of the first two reads: the cohort is that of the first rotation, and the
last rotation is the second. -/
theorem open_written_parts_rotated :
    let config : PoolConfig := { cohortSize := 1 }
    let pool : Pool := { config, entries := #[⟨"1A", .early 1 0⟩] }
    let p : StoredPool := { path := ["pool.json"], pool }
    let p₁ := p.rotate (.early 2 0)
    let p₂ := p₁.rotate (.early 3 0)
    pool.Reachable ∧ p.Changes p₁ ∧ p₁.Changes p₂ ∧
      ∃ fs, (write p.path
        (.ofParts pool.entries p₁.pool.cohort p₂.pool.lastRotation)).run {} = (.ok (), fs) ∧
      (openAt p.path config).run fs = (.ok {
        path := p.path
        pool := {
          config
          entries := #[⟨"1A", .early 1 0⟩]
          cohort := [⟨"1A", .early 1 0⟩]
          lastRotation := some (.early 3 0) } }, fs) := by
  intro config pool p p₁ p₂
  have hreachable : pool.Reachable := by
    have hactivate : ({ config } : Pool).activate "1A" (.early 1 0) = .ok pool :=
      Pool.activate_first config (by decide +kernel)
    have hactivated := (Pool.Reachable.empty config).operate (.change (.activate "1A" (.early 1 0)))
    rwa [Pool.operate, Pool.apply, hactivate] at hactivated
  have h₁ : p.Changes p₁ := .single (.rotate (.early 2 0))
  have h₂ : p₁.Changes p₂ := .single (.rotate (.early 3 0))
  have hplace : ({} : Files).resolve p.path = .ok none := by rfl
  obtain ⟨fs, hw, -⟩ := write_eq_ok
    (s := .ofParts pool.entries p₁.pool.cohort p₂.pool.lastRotation)
    hplace (Option.some_ne_none _).symm fun t ht => absurd ht List.not_mem_nil
  obtain ⟨hlate, hopen⟩ := open_written_parts hreachable h₁
  have hcohort : p₁.pool.cohort = [⟨"1A", .early 1 0⟩] := by decide +kernel
  refine ⟨hreachable, h₁, h₂, fs, hw, ?_⟩
  rw [hopen p₂ h₂ {} fs hw, hlate (.inr rfl), hcohort]
  rfl

end StoredPool

/-! ## Saving reads apart -/

namespace SharedPool

open Function (update update_self update_of_ne)

variable {s : SharedPool} {p p₁ p₂ : StoredPool} {i j : Nat}

/-- One caller makes the changes, whatever the others are doing. -/
theorem steps_changes (hi : s.callers i = .idle) (hpool : s.stored.pool = p.pool)
    (h : p.Changes p₁) :
    ∃ t, Steps s t ∧ t.stored.pool = p₁.pool ∧ t.stored.path = s.stored.path ∧
      t.callers = s.callers ∧ t.files = s.files ∧ t.holder = s.holder := by
  induction h with
  | refl => exact ⟨s, .refl, hpool, rfl, rfl, rfl, rfl⟩
  | tail _ hchanged ih =>
    obtain ⟨t, ht, htpool, hpath, hcallers, hfiles, hholder⟩ := ih
    obtain ⟨u, hu, hustored, hucallers, hufiles, -, huholder⟩ :=
      steps_change (hcallers ▸ hi) (hchanged.of_pool htpool)
    exact ⟨u, ht.trans hu, by rw [hustored], by rw [hustored]; exact hpath,
      hucallers.trans hcallers, hufiles.trans hfiles, huholder.trans hholder⟩

/-- A save may write the parts of three pools, each of them later than the one before. -/
theorem steps_save_apart (hij : i ≠ j) (hi : s.callers i = .idle) (hj : s.callers j = .idle)
    (hfree : s.holder = none) (h₁ : s.stored.Changes p₁) (h₂ : p₁.Changes p₂) {fs : Files}
    (hfs : (StoredPool.write s.stored.path (.ofParts s.stored.pool.entries p₁.pool.cohort
      p₂.pool.lastRotation)).run s.files = (.ok (), fs)) :
    ∃ t, Steps s t ∧ t.files = fs := by
  let v : Holder := { caller := j, writer := .save, before := s.completed }
  let e := s.part (·.entries)
  -- The entries are read with the lock held, which keeps nobody from changing the pool.
  let u : SharedPool := { s with
    stored := { s.stored with dirty := false }
    holder := some { v with stage := .entriesRead e }
    callers := update (update s.callers j (.waiting .save s.completed)) j .inside }
  have hu : Steps s u := by
    have h₀ : Steps s { s with
        holder := some v
        callers := update (update s.callers j (.waiting .save s.completed)) j .inside } :=
      .tail (.tail .refl (.call .save hj)) (.lock (update_self ..) hfree)
    exact (h₀.advance rfl).advance rfl
  have hui : u.callers i = .idle := by
    rw [show u.callers i = s.callers i from
      (update_of_ne hij ..).trans (update_of_ne hij ..), hi]
  obtain ⟨t₁, ht₁, hpool₁, hpath₁, hcallers₁, hfiles₁, hholder₁⟩ :=
    steps_changes (s := u) (p := s.stored) hui rfl h₁
  let c := t₁.part (·.cohort)
  let w : SharedPool := { t₁ with holder := some { v with stage := .cohortRead e c } }
  have hw : Steps s w := Steps.advance (hu.trans ht₁) hholder₁
  have hwi : w.callers i = .idle := by
    rw [show w.callers = u.callers from hcallers₁, hui]
  obtain ⟨t₂, ht₂, hpool₂, hpath₂, -, hfiles₂, hholder₂⟩ := steps_changes (s := w) hwi hpool₁ h₂
  let r : Reading := ⟨e, c, t₂.part (·.lastRotation)⟩
  have hread : Steps s { t₂ with holder := some { v with stage := .allRead r } } :=
    Steps.advance (hw.trans ht₂) hholder₂
  have hsnapshot : r.snapshot =
      .ofParts s.stored.pool.entries p₁.pool.cohort p₂.pool.lastRotation := by
    rw [← hpool₁, ← hpool₂]
    rfl
  have hwrite : (StoredPool.write t₂.stored.path r.snapshot).run t₂.files = (.ok (), fs) := by
    rw [hpath₂, hfiles₂, hsnapshot, show w.stored.path = s.stored.path from hpath₁,
      show w.files = s.files from hfiles₁]
    exact hfs
  refine ⟨_, hread.advance rfl, ?_⟩
  unfold SharedPool.advance
  dsimp only
  rw [hwrite]

/-- A caller saves, and another one activates an address and rotates between the first two reads.
The file that the save leaves is refused. -/
theorem saved_file_refused :
    let path := ["pool.json"]
    let config : PoolConfig := { cohortSize := 1 }
    ∃ s, Steps (opened { path, pool := { config } } {}) s ∧
      (StoredPool.openAt path config).run s.files =
        (.error (.pool (.notInPool "1A")), s.files) := by
  intro path config
  let p : StoredPool := { path, pool := { config } }
  let p₁ : StoredPool :=
    { p with pool := { config, entries := #[⟨"1A", .early 1 0⟩] }, dirty := true }
  let p₂ := p₁.rotate (.early 2 0)
  have hformed := Pool.wellFormed_empty config
  have hcheck : Address.check "1A" = .ok "1A" := by decide +kernel
  have hactivate : p.activate "1A" (.early 1 0) = .ok p₁ := by
    rw [StoredPool.activate, Pool.activate_first config hcheck]
    rfl
  have h : p.Changes p₂ :=
    .tail (.single (.activate "1A" (.early 1 0) hactivate)) (.rotate (.early 2 0))
  have hplace : ({} : Files).resolve path = .ok none := by rfl
  obtain ⟨fs, hw, -⟩ := StoredPool.write_eq_ok
    (s := .ofParts p.pool.entries p₂.pool.cohort p₂.pool.lastRotation)
    hplace (Option.some_ne_none _).symm fun t ht => absurd ht List.not_mem_nil
  obtain ⟨s, hs, hfiles⟩ := steps_save_apart (s := opened p {}) (i := 0) (j := 1) (by decide)
    rfl rfl rfl h .refl hw
  refine ⟨s, hs, ?_⟩
  have hlate : p.pool.late p₂.pool.cohort = [⟨"1A", .early 1 0⟩] := by decide +kernel
  have hopen := StoredPool.run_openAt_parts hformed h hw
  rw [hlate] at hopen
  rw [hfiles]
  exact hopen

end SharedPool

end AddressExchange
