import AddressExchange.Proofs.Host.Serving
import AddressExchange.Proofs.Pool.Parts

/-!
# Acknowledged addresses are durable

Once an administrator has been told that an address was added, the file of the pool can be opened at
any time and has it, whatever is asked afterwards and whatever the disk refuses. The invariant is that
the host's pool has the entry, and so does the pool that the file was last written from. An address
that was added but could not be written is in the first alone, and its administrator was told of
trouble.
-/

namespace AddressExchange

namespace Serving

/-- One request or one look. The file of the pool is the host's alone; all else about the files may
change at any time, and so may what the disk will refuse. -/
inductive Step (w : Serving) : Serving → Prop where
  | request (q : Asked) : Step w (w.after q)
  | look (now : Instant) : Step w (w.afterLook now)
  | elsewhere {fs : Files}
      (hfs : ∀ p, w.host.pool = .stored p → fs.resolve p.path = w.files.resolve p.path) :
      Step w { w with files := fs }

/-- Any number of steps. -/
def Steps : Serving → Serving → Prop := Relation.ReflTransGen Step

/-- Does the file at a path hold the snapshot of a pool in order with an entry? -/
def FileHas (path : Path) (e : Entry) (fs : Files) : Prop :=
  ∃ (pool : Pool) (ownerOnly : Bool), pool.WellFormed ∧ e ∈ pool.entries.toList ∧
    fs.resolve path = .ok (some (.file (Snapshot.ofPool pool).write ownerOnly))

/-- Do the host's pool and its file at a path have an entry? -/
structure Keeps (path : Path) (e : Entry) (w : Serving) : Prop where
  held : ∃ p, w.host.pool = .stored p ∧ p.path = path ∧ p.pool.WellFormed ∧
    e ∈ p.pool.entries.toList
  file : FileHas path e w.files

variable {w w' : Serving} {p q : StoredPool} {path : Path} {e : Entry}

/-- Such a file is opened as a pool with the entry, whatever the configuration. -/
theorem FileHas.openAt {fs : Files} (h : FileHas path e fs) (config : PoolConfig) :
    ∃ s, (StoredPool.openAt path config).run fs = (.ok s, fs) ∧ e ∈ s.pool.entries.toList := by
  obtain ⟨pool, ownerOnly, hformed, he, hfile⟩ := h
  refine ⟨{ path, pool := { pool.kept with config } }, ?_, he⟩
  rw [StoredPool.run_openAt, hfile, StoredPool.found_ofPool_config hformed]

/-! ## One step -/

theorem activate_stored {text : String} {at_ : Instant} {pool : HeldPool}
    (h : (HeldPool.stored p).activate text at_ = .ok pool) :
    ∃ q, pool = .stored q ∧ p.Changed q := by
  unfold HeldPool.activate at h
  cases hq : p.activate text at_ with
  | error e =>
    simp only [hq] at h
    cases h
  | ok q =>
    simp only [hq] at h
    cases h
    exact ⟨q, rfl, .activate text at_ hq⟩

theorem written_of_flush {result : Except Failure Unit} {fs : Files}
    (h : q.flush.run w.files = ((result, p), fs)) :
    w.written (.stored q) = ⟨{ w.host with pool := .stored p }, fs⟩ := by
  rw [written, Host.written]
  simp only [HeldPool.persist, StateT.run_bind, h]
  rfl

/-- A changed pool that the host has tried to write is in order, has lost nothing, and is in its file
if that is not as it was. -/
theorem written_stored (hformed : p.pool.WellFormed) (hq : p.Changed q) :
    ∃ p', (w.written (.stored q)).host.pool = .stored p' ∧ p'.path = p.path ∧
      p'.pool.WellFormed ∧ p.pool.entries.toList ⊆ p'.pool.entries.toList ∧
      ((w.written (.stored q)).files.resolve p.path = w.files.resolve p.path ∨
        (w.written (.stored q)).files.resolve p.path =
          .ok (some (.file (Snapshot.ofPool p'.pool).write true))) := by
  have hpath : q.path = p.path := by rw [hq.inv.1]
  obtain ⟨result, p', fs', hflush, hpath', hpool', hfile⟩ := q.flush_cases w.files
  rw [written_of_flush hflush, ← hpath]
  refine ⟨p', rfl, hpath', ?_, ?_, ?_⟩
  · rw [hpool']
    exact hq.wellFormed hformed
  · rw [hpool']
    exact hq.entries_subset hformed
  · rw [hpool']
    exact hfile

/-- A changed pool that could be written is in its file. -/
theorem resolve_written (hq : p.Changed q)
    (h : ((HeldPool.stored q).persist.run w.files).1.1 = .ok ()) :
    (w.written (.stored q)).files.resolve p.path =
      .ok (some (.file (Snapshot.ofPool q.pool).write true)) := by
  have hpath : q.path = p.path := by rw [hq.inv.1]
  have hdirty : q.dirty = true := by rw [hq.inv.1]
  obtain ⟨result, p', fs', hflush, -⟩ := q.flush_cases w.files
  simp only [HeldPool.persist, StateT.run_bind, hflush] at h
  obtain rfl : result = .ok () := h
  rw [written_of_flush hflush, ← hpath]
  exact StoredPool.resolve_of_flush hdirty hflush

/-- A step keeps a stored pool in order and takes no entry from it. Its file stays as it was, or has
the pool. -/
theorem Step.stored (h : Step w w') (hp : w.host.pool = .stored p) (hformed : p.pool.WellFormed) :
    ∃ p', w'.host.pool = .stored p' ∧ p'.path = p.path ∧ p'.pool.WellFormed ∧
      p.pool.entries.toList ⊆ p'.pool.entries.toList ∧
      (w'.files.resolve p.path = w.files.resolve p.path ∨
        w'.files.resolve p.path = .ok (some (.file (Snapshot.ofPool p'.pool).write true))) := by
  cases h with
  | request q =>
    rcases w.after_cases q with h | ⟨activation, at_, pool, hadds, h⟩
    · rw [h]
      exact ⟨p, hp, rfl, hformed, List.Subset.refl _, .inl rfl⟩
    · obtain ⟨p₁, rfl, hchanged⟩ := activate_stored (hp ▸ hadds.pool)
      rw [h]
      exact written_stored hformed hchanged
  | look now =>
    rcases w.afterLook_cases now with h | h
    · rw [h]
      exact ⟨p, hp, rfl, hformed, List.Subset.refl _, .inl rfl⟩
    · rw [h, hp]
      exact written_stored hformed (.rotate now)
  | elsewhere hfs => exact ⟨p, hp, rfl, hformed, List.Subset.refl _, .inl (hfs p hp)⟩

theorem Keeps.step (hk : Keeps path e w) (h : Step w w') : Keeps path e w' := by
  obtain ⟨⟨p, hp, rfl, hformed, he⟩, hfile⟩ := hk
  obtain ⟨p', hp', hpath, hformed', hentries, hfile'⟩ := h.stored hp hformed
  refine ⟨⟨p', hp', hpath, hformed', hentries he⟩, ?_⟩
  cases hfile' with
  | inl hsame =>
    obtain ⟨pool, ownerOnly, hpool, hmem, hold⟩ := hfile
    exact ⟨pool, ownerOnly, hpool, hmem, hsame.trans hold⟩
  | inr hnew => exact ⟨p'.pool, true, hformed', hentries he, hnew⟩

/-! ## Whole runs -/

theorem Keeps.steps (hk : Keeps path e w) (h : Steps w w') : Keeps path e w' := by
  induction h with
  | refl => exact hk
  | tail _ hstep ih => exact ih.step hstep

/-- Whatever happens, the host has a pool in order with its file at the same path, and no entry is
taken from it. -/
theorem Steps.kept (h : Steps w w') (hp : w.host.pool = .stored p) (hformed : p.pool.WellFormed) :
    ∃ p', w'.host.pool = .stored p' ∧ p'.path = p.path ∧ p'.pool.WellFormed ∧
      p.pool.entries.toList ⊆ p'.pool.entries.toList := by
  induction h with
  | refl => exact ⟨p, hp, rfl, hformed, List.Subset.refl _⟩
  | tail _ hstep ih =>
    obtain ⟨p₁, hp₁, hpath₁, hformed₁, hentries₁⟩ := ih
    obtain ⟨p₂, hp₂, hpath₂, hformed₂, hentries₂, -⟩ := hstep.stored hp₁ hformed₁
    exact ⟨p₂, hp₂, hpath₂.trans hpath₁, hformed₂, List.Subset.trans hentries₁ hentries₂⟩

theorem Steps.stored (h : Steps w w') (hp : w.host.pool = .stored p) (hformed : p.pool.WellFormed) :
    ∃ p', w'.host.pool = .stored p' ∧ p'.path = p.path ∧ p'.pool.WellFormed := by
  obtain ⟨p', hp', hpath, hformed', -⟩ := h.kept hp hformed
  exact ⟨p', hp', hpath, hformed'⟩

/-! ## Acknowledgements -/

/-- A success tells of an entry that the pool and its file have. -/
theorem keeps_of_acknowledged (hp : w.host.pool = .stored p) (hformed : p.pool.WellFormed) {a : Asked}
    (hmethod : a.request.method = "POST") (hpath : a.request.path = "/api/v1/pool/addresses")
    (hok : (w.answerTo a).status = .ok) :
    ∃ activation at_ pool, w.host.Adds a.around a.request activation at_ pool ∧
      w.answerTo a = a.granted
        ((w.after a).host.acknowledgement ⟨Text.trim activation.address, at_⟩) ∧
      Keeps p.path ⟨Text.trim activation.address, at_⟩ (w.after a) := by
  have hroute : Route.ofPath? a.request.path = some .addresses := Route.ofPath?_eq_some.mpr hpath
  rcases w.respond_inv a with ⟨answer, hanswer, hstatus⟩ | ⟨activation, at_, pool, hadds⟩
  · rw [answerTo, hanswer] at hok
    exact absurd hok (hstatus hroute hmethod).ne_ok
  · refine ⟨activation, at_, pool, hadds, ?_⟩
    have hrespond := respond_of_adds hadds
    rw [after_of_adds hadds]
    rw [answerTo, hrespond] at hok ⊢
    cases hpersist : (pool.persist.run w.files).1.1 with
    | error e =>
      rw [hpersist] at hok
      exact absurd hok (Host.status_refusal_ne_ok _)
    | ok =>
      refine ⟨rfl, ?_⟩
      have hactivate := HeldPool.pool_activate hadds.pool
      rw [hp] at hactivate
      obtain ⟨q, rfl, hchanged⟩ := activate_stored (hp ▸ hadds.pool)
      have hmem := Pool.mem_activate hformed.ordered hactivate
      obtain ⟨p', hp', hpath', hformed', -⟩ := written_stored (w := w) hformed hchanged
      have hpool : p'.pool = q.pool := by
        have h := w.pool_written (.stored q)
        rwa [Serving.pool, hp'] at h
      exact ⟨⟨p', hp', hpath', hformed', hpool ▸ hmem⟩, q.pool, true, hchanged.wellFormed hformed,
        hmem, resolve_written hchanged hpersist⟩

/-- A host has a pool with a file. When an activation has been answered with success, then at any
later time, whatever is asked and whatever the disk refuses, the file can be opened, and the pool in
it has the address with the instant that it was activated at. -/
theorem acknowledged_kept {w₁ : Serving} (hp : w.host.pool = .stored p) (hpool : p.pool.Reachable)
    (h₁ : Steps w w₁) {a : Asked} (hmethod : a.request.method = "POST")
    (hpath : a.request.path = "/api/v1/pool/addresses") (hok : (w₁.answerTo a).status = .ok) :
    ∃ activation at_ pool, w₁.host.Adds a.around a.request activation at_ pool ∧
      let e : Entry := ⟨Text.trim activation.address, at_⟩
      w₁.answerTo a = a.granted ((w₁.after a).host.acknowledgement e) ∧
        ∀ w₂, Steps (w₁.after a) w₂ → ∀ config, ∃ s,
          (StoredPool.openAt p.path config).run w₂.files = (.ok s, w₂.files) ∧
            e ∈ s.pool.entries.toList := by
  obtain ⟨p₁, hp₁, hpath₁, hformed₁⟩ := h₁.stored hp hpool.wellFormed
  obtain ⟨activation, at_, pool, hadds, hanswer, hkeeps⟩ :=
    keeps_of_acknowledged hp₁ hformed₁ hmethod hpath hok
  refine ⟨activation, at_, pool, hadds, hanswer, fun w₂ h₂ config => ?_⟩
  rw [← hpath₁]
  exact (hkeeps.steps h₂).file.openAt config

/-! ## A full disk -/

/-- A host whose pool is empty and has no file yet. -/
def sampleStored : Serving where
  host := {
    settings := Hosting.sampleSettings
    secretKey := (KeyPair.filled 1).secretKey
    pool := .stored { path := ["pool.json"], pool := { config := Hosting.sampleSettings.pool } } }
  files := {}

/-- An administrator adds an address. -/
def sampleAsked (now : Instant) : Asked where
  request := Hosting.sampleRequest
  around := { cipher := Hosting.sampleParties.cipher, random := [], now }

/-- The pool with the address. -/
def sampleAdded (at_ : Instant) : StoredPool where
  path := ["pool.json"]
  pool := { config := Hosting.sampleSettings.pool, entries := #[⟨"1B", at_⟩] }
  dirty := true

theorem adds_sampleAsked (now : Instant) :
    sampleStored.host.Adds (sampleAsked now).around (sampleAsked now).request ⟨"1B", none⟩ now
      (.stored (sampleAdded now)) := by
  have hactivate : sampleStored.host.pool.activate "1B" now = .ok (.stored (sampleAdded now)) := by
    have hcheck : Address.check "1B" = .ok "1B" := by decide +kernel
    have hfirst : ({ config := Hosting.sampleSettings.pool } : Pool).activate "1B" now =
        .ok (sampleAdded now).pool := Pool.activate_first _ hcheck
    simp only [sampleStored, HeldPool.activate, StoredPool.activate, hfirst]
    rfl
  exact Hosting.adds_sampleRequest
    (w := ⟨sampleStored.host, sampleStored.files, now, none⟩) rfl hactivate

theorem status_sampleAsked (now : Instant) :
    (sampleStored.answerTo (sampleAsked now)).status = .ok := by
  have hfresh : sampleStored.files.resolve ["pool.json"] = .ok none := by decide +kernel
  obtain ⟨fs, hwrite, -⟩ := StoredPool.write_eq_ok (s := .ofPool (sampleAdded now).pool) hfresh
    nofun nofun
  have hsave : (sampleAdded now).save.run sampleStored.files = _ := StoredPool.save_of_write hwrite
  have hpersist : ((HeldPool.stored (sampleAdded now)).persist.run sampleStored.files).1.1 =
      .ok () := by
    have hflush : (sampleAdded now).flush = (sampleAdded now).save := rfl
    simp only [HeldPool.persist, StateT.run_bind, hflush, hsave]
    rfl
  rw [answerTo, respond_of_adds (adds_sampleAsked now), hpersist]
  rfl

/-- After the acknowledgement the disk is full. A rotation then cannot be written. -/
theorem acknowledged_kept_on_full_disk :
    let added := sampleStored.after (sampleAsked (.early 1 0))
    let full : Serving := { added with files := { added.files with trouble := [some .noSpace] } }
    (sampleStored.answerTo (sampleAsked (.early 1 0))).status = .ok ∧
      ∃ s, (StoredPool.openAt ["pool.json"] {}).run (full.afterLook (.early 9 0)).files =
          (.ok s, (full.afterLook (.early 9 0)).files) ∧
        ⟨"1B", .early 1 0⟩ ∈ s.pool.entries.toList := by
  intro added full
  have hadded := adds_sampleAsked (.early 1 0)
  have hok := status_sampleAsked (.early 1 0)
  have hpath : (sampleAsked (.early 1 0)).request.path = "/api/v1/pool/addresses" := by
    decide +kernel
  obtain ⟨activation, at_, pool, hadds, -, hkept⟩ :=
    acknowledged_kept (w := sampleStored) rfl (.empty _) .refl rfl hpath hok
  have hnodes : full.files.nodes = added.files.nodes := rfl
  have hfull : Step added full := .elsewhere fun p _ => Files.resolve_congr hnodes p.path
  obtain ⟨s, hopen, hmem⟩ := hkept _ (.tail (.tail .refl hfull) (.look (.early 9 0))) {}
  refine ⟨hok, s, hopen, ?_⟩
  obtain rfl := Except.ok.inj (hadds.read.symm.trans hadded.read)
  obtain rfl := Except.ok.inj (hadds.instant.symm.trans hadded.instant)
  exact hmem

end Serving

end AddressExchange
