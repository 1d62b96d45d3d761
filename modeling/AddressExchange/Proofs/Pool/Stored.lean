import AddressExchange.Pool.Stored
import AddressExchange.Proofs.Files
import AddressExchange.Proofs.Pool.Snapshot

/-!
# Pools and their files

What is opened depends only on what the path leads to, and a file that was saved is opened as the
pool that was saved.
-/

namespace AddressExchange

namespace Filing

theorem run_lift {α : Type} (x : Except Failure α) (fs : Files) : (liftM x : Filing α).run fs = (x, fs) := rfl

end Filing
namespace StoredPool

variable {path : Path} {config : PoolConfig} {p : StoredPool} {s : Snapshot} {fs fs' : Files}

/-! ## Opening -/

/-- The pool that is opened when a path leads to a node, to nothing, or on a way that has a fault.
-/
def found (path : Path) (config : PoolConfig) :
    Except FileFault (Option Node) → Except Failure StoredPool
  | .ok none | .error .notFound => .ok { path, pool := { config } }
  | .error e => .error (.file e)
  | .ok (some .directory) => .error (.file .isDirectory)
  | .ok (some (.file content _)) => do
    let s ← Snapshot.read content
    let pool ← s.toPool config
    .ok { path, pool }

/-- Opening changes no file. -/
theorem run_openAt (path : Path) (config : PoolConfig) (fs : Files) :
    (openAt path config).run fs = (found path config (fs.resolve path), fs) := by
  have hthere : (Disk.isThere path).filing.run fs = ((fs.isThere path).mapError .file, fs) := rfl
  have hread : (Disk.read path).filing.run fs = ((fs.contentOf path).mapError .file, fs) := rfl
  rw [openAt, run_bind, hthere, Files.isThere]
  cases hx : fs.resolve path with
  | error e => cases e <;> rfl
  | ok x =>
    cases x with
    | none => rfl
    | some node =>
      -- Something is there, so it is read, which a directory refuses.
      simp only [Except.mapError, Option.isSome_some, if_true, run_bind, hread,
        Files.contentOf, hx]
      cases node with
      | directory => rfl
      | file content ownerOnly =>
        simp only [found, bind, Except.bind, Filing.run_lift]
        cases Snapshot.read content with
        | error e => rfl
        | ok s =>
          dsimp only
          cases s.toPool config <;> rfl

/-- All that is opened is in order and has the configuration that it was opened with. -/
theorem wellFormed_found {x : Except FileFault (Option Node)} (h : found path config x = .ok p) :
    p.pool.WellFormed ∧ p.pool.config = config ∧ p.path = path := by
  unfold found at h
  split at h
  · cases h
    exact ⟨Pool.wellFormed_empty config, rfl, rfl⟩
  · cases h
    exact ⟨Pool.wellFormed_empty config, rfl, rfl⟩
  · cases h
  · cases h
  · obtain ⟨s, -, h⟩ := bind_eq_ok.mp h
    obtain ⟨pool, hpool, h⟩ := bind_eq_ok.mp h
    cases h
    obtain ⟨hformed, hconfig⟩ := Pool.wellFormed_toPool hpool
    exact ⟨hformed, hconfig, rfl⟩

/-- The file that holds the snapshot of a pool in order is opened as that pool. -/
theorem found_ofPool {pool : Pool} (h : pool.WellFormed) (path : Path) (ownerOnly : Bool) :
    found path pool.config (.ok (some (.file (Snapshot.ofPool pool).write ownerOnly))) =
      .ok { path, pool := pool.kept } := by
  have hversion : (Snapshot.ofPool pool).version ≤ 255 := by
    show 1 ≤ 255
    decide
  simp only [found, Snapshot.read_write hversion, h.toPool_ofPool, bind, Except.bind]

/-- Nor is it opened as another pool with another configuration. -/
theorem found_ofPool_config {pool : Pool} (h : pool.WellFormed) (path : Path) (config : PoolConfig)
    (ownerOnly : Bool) :
    found path config (.ok (some (.file (Snapshot.ofPool pool).write ownerOnly))) =
      .ok { path, pool := { pool.kept with config } } := by
  have hformed : ({ pool with config } : Pool).WellFormed :=
    ⟨h.ordered, h.distinct, h.checked, h.cohort, h.mem_of_mem_cohort⟩
  exact found_ofPool hformed path ownerOnly

/-! ## Writing -/

theorem run_write (path : Path) (s : Snapshot) (fs : Files) :
    (write path s).run fs =
      (((Disk.replace path s.write).run fs).1.mapError .file, ((Disk.replace path s.write).run fs).2) :=
  rfl

/-- A write that is done leaves a file with the snapshot. -/
theorem resolve_of_write (h : (write path s).run fs = (.ok (), fs')) :
    fs'.resolve path = .ok (some (.file s.write true)) := by
  rw [run_write] at h
  cases hr : (Disk.replace path s.write).run fs with
  | mk result fs'' =>
    rw [hr] at h
    cases result <;> cases h
    exact Disk.resolve_of_replace hr

/-- A write that fails leaves the file as it was. -/
theorem resolve_of_write_error {e : Failure} (h : (write path s).run fs = (.error e, fs')) :
    fs'.resolve path = fs.resolve path := by
  rw [run_write] at h
  cases hr : (Disk.replace path s.write).run fs with
  | mk result fs'' =>
    rw [hr] at h
    cases result <;> cases h
    exact Files.resolve_congr (Disk.nodes_of_change_error hr) path

/-- It fails for what is wrong with the file. -/
theorem file_of_write_error {e : Failure} (h : (write path s).run fs = (.error e, fs')) :
    ∃ fault, e = .file fault := by
  rw [run_write] at h
  cases hr : ((Disk.replace path s.write).run fs).1 with
  | ok =>
    rw [hr] at h
    cases h
  | error fault =>
    rw [hr] at h
    cases h
    exact ⟨fault, rfl⟩

/-- A disk that lets all pass lets a snapshot be written. -/
theorem write_eq_ok {x : Option Node} (h : fs.resolve path = .ok x) (hx : x ≠ some .directory)
    (hdisk : ∀ t ∈ fs.trouble, t = none) :
    ∃ fs', (write path s).run fs = (.ok (), fs') ∧ ∀ t ∈ fs'.trouble, t = none := by
  obtain ⟨fs', hreplace, hdisk'⟩ := Disk.replace_eq_ok h hx hdisk
  exact ⟨fs', by rw [run_write, hreplace]; rfl, hdisk'⟩

/-! ## Saving -/

theorem save_of_write (h : (write p.path (.ofPool p.pool)).run fs = (.ok (), fs')) :
    p.save.run fs = ((.ok (), { p with dirty := false }), fs') := by
  have hrun : (write p.path (.ofPool p.pool)).run.run fs = (.ok (), fs') := h
  rw [save, StateT.run_bind, hrun]
  rfl

theorem save_of_write_error {e : Failure}
    (h : (write p.path (.ofPool p.pool)).run fs = (.error e, fs')) :
    p.save.run fs = ((.error e, { p with dirty := true }), fs') := by
  have hrun : (write p.path (.ofPool p.pool)).run.run fs = (.error e, fs') := h
  rw [save, StateT.run_bind, hrun]
  rfl

/-- The pool stays as it is when it is saved, and when it cannot be. -/
theorem pool_save (p : StoredPool) (fs : Files) : (p.save.run fs).1.2.pool = p.pool := by
  obtain ⟨result, fs', h⟩ : ∃ result fs',
      (write p.path (.ofPool p.pool)).run fs = (result, fs') := ⟨_, _, rfl⟩
  cases result with
  | ok => rw [save_of_write h]
  | error e => rw [save_of_write_error h]

theorem pool_flush (p : StoredPool) (fs : Files) : (p.flush.run fs).1.2.pool = p.pool := by
  unfold flush
  split
  · exact p.pool_save fs
  · rfl

/-- A flush leaves the path and the pool, and the file as it was or with the pool in it. -/
theorem flush_cases (p : StoredPool) (fs : Files) :
    ∃ result p' fs', p.flush.run fs = ((result, p'), fs') ∧ p'.path = p.path ∧ p'.pool = p.pool ∧
      (fs'.resolve p.path = fs.resolve p.path ∨
        fs'.resolve p.path = .ok (some (.file (Snapshot.ofPool p.pool).write true))) := by
  unfold flush
  split
  · obtain ⟨result, fs', h⟩ : ∃ result fs',
        (write p.path (.ofPool p.pool)).run fs = (result, fs') := ⟨_, _, rfl⟩
    cases result with
    | ok => exact ⟨_, _, _, save_of_write h, rfl, rfl, .inr (resolve_of_write h)⟩
    | error e => exact ⟨_, _, _, save_of_write_error h, rfl, rfl, .inl (resolve_of_write_error h)⟩
  · exact ⟨_, _, _, rfl, rfl, rfl, .inl rfl⟩

/-- A flush of a marked pool that is done leaves a file with the pool. -/
theorem resolve_of_flush {p' : StoredPool} (hdirty : p.dirty = true)
    (h : p.flush.run fs = ((.ok (), p'), fs')) :
    fs'.resolve p.path = .ok (some (.file (Snapshot.ofPool p.pool).write true)) := by
  obtain ⟨result, fs'', hwrite⟩ : ∃ result fs'',
      (write p.path (.ofPool p.pool)).run fs = (result, fs'') := ⟨_, _, rfl⟩
  rw [flush, if_pos hdirty] at h
  cases result with
  | ok =>
    rw [save_of_write hwrite] at h
    cases h
    exact resolve_of_write hwrite
  | error e =>
    rw [save_of_write_error hwrite] at h
    cases h

/-- A pool is saved whether it is marked or not. -/
theorem save_dirty (p : StoredPool) (dirty : Bool) : { p with dirty }.save = p.save := rfl

end StoredPool

end AddressExchange
