import AddressExchange.Proofs.Host.Durable

/-!
# Activations that are refused

An activation is refused because something is wrong with the request; then nothing has changed. Or it is
refused because the file of the pool cannot be written; then the address is in the pool all the same,
and the pool is marked, so that it is written later. Who asks again is told that the address is there
already.
-/

namespace AddressExchange

open Web

namespace Serving

variable {w w' : Serving} {a : Asked} {p q : StoredPool} {activation : Host.Activation}
  {at_ : Instant}

/-! ## Asking again -/

theorem Step.settings (h : Step w w') : w'.host.settings = w.host.settings := by
  cases h with
  | request q => exact settings_after w q
  | look now =>
    rcases w.afterLook_cases now with h | h <;> rw [h]
    exact settings_written _
  | elsewhere hfs => rfl

theorem Steps.settings (h : Steps w w') : w'.host.settings = w.host.settings := by
  induction h with
  | refl => rfl
  | tail _ hstep ih => exact hstep.settings.trans ih

/-- Where an address is known, who asks for it is told so, and nothing changes. -/
theorem respond_of_known {address : String} (hasks : w.host.Asks a.around a.request activation at_)
    (hcheck : Address.check activation.address = .ok address)
    (hmem : address ∈ w.pool.entries.toList.map (·.address)) :
    w.respond a = (a.granted (.refusal (.address (.known address))), w) := by
  have hpool : w.host.pool.activate activation.address at_ =
      .error (.invalidAddress (.known address)) :=
    HeldPool.activate_of_error (Pool.activate_of_mem hcheck hmem at_)
  refine respond_of_answer ?_ (hasks.answer_of_error w.files hpool)
  rintro ⟨-, hmethod⟩
  simp [hasks.method] at hmethod

/-! ## A file that cannot be written -/

/-- What an activation leaves behind whose pool cannot be written: one more entry in the pool, which is
marked, and no other file. -/
structure Unsaved (w w' : Serving) (e : Entry) (p q : StoredPool) : Prop where
  before : w.host.pool = .stored p
  after : w'.host = { w.host with pool := .stored q }
  path : q.path = p.path
  fresh : e.address ∉ p.pool.entries.toList.map (·.address)
  pool : q.pool = { p.pool with entries := (Entry.place e p.pool.entries.toList).toArray }
  dirty : q.dirty = true
  refused : ∃ fault, (StoredPool.write q.path (.ofPool q.pool)).run w.files =
    (.error (.file fault), w'.files)
  file : w'.files.resolve p.path = w.files.resolve p.path

theorem activate_memory {p : Pool} {text : String} {pool : HeldPool}
    (h : (HeldPool.memory p).activate text at_ = .ok pool) : ∃ q, pool = .memory q := by
  unfold HeldPool.activate at h
  cases hq : p.activate text at_ with
  | error e =>
    simp only [hq] at h
    cases h
  | ok q =>
    simp only [hq] at h
    cases h
    exact ⟨q, rfl⟩

/-- A request that adds an address and is refused has met a file that cannot be written. -/
theorem unsaved_of_adds {pool : HeldPool} (hformed : w.pool.WellFormed)
    (hadds : w.host.Adds a.around a.request activation at_ pool)
    (hrefused : (w.answerTo a).status ≠ .ok) :
    (w.answerTo a).status = .internalError ∧
      ∃ p q, w.Unsaved (w.after a) ⟨Text.trim activation.address, at_⟩ p q := by
  have hrespond := respond_of_adds hadds
  have hactivate := HeldPool.pool_activate hadds.pool
  rw [answerTo, hrespond] at hrefused ⊢
  rw [after, hrespond]
  cases hp : w.host.pool with
  | memory p =>
    -- Without a file nothing can be in the way.
    obtain ⟨q, rfl⟩ := activate_memory (hp ▸ hadds.pool)
    exact absurd rfl hrefused
  | stored p =>
    obtain ⟨q, rfl, hchanged⟩ := activate_stored (hp ▸ hadds.pool)
    have hpath : q.path = p.path := by rw [hchanged.inv.1]
    have hdirty : q.dirty = true := by rw [hchanged.inv.1]
    rw [Serving.pool, hp] at hformed
    rw [hp] at hactivate
    obtain ⟨address, hcheck, hfresh, hpool⟩ := (Pool.activate_eq_ok hformed.ordered).mp hactivate
    obtain ⟨rfl, -⟩ := Address.check_eq_ok.mp hcheck
    have hflush : q.flush = q.save := by rw [StoredPool.flush, if_pos hdirty]
    obtain ⟨result, fs, hwrite⟩ : ∃ result fs,
      (StoredPool.write q.path (.ofPool q.pool)).run w.files = (result, fs) := ⟨_, _, rfl⟩
    cases result with
    | ok =>
      have hpersist : ((HeldPool.stored q).persist.run w.files).1.1 = .ok () := by
        simp only [HeldPool.persist, StateT.run_bind, hflush, StoredPool.save_of_write hwrite]
        rfl
      rw [hpersist] at hrefused
      exact absurd rfl hrefused
    | error e =>
      have hsave := StoredPool.save_of_write_error hwrite
      have hpersist : ((HeldPool.stored q).persist.run w.files).1.1 = .error e := by
        simp only [HeldPool.persist, StateT.run_bind, hflush, hsave]
        rfl
      obtain ⟨fault, rfl⟩ := StoredPool.file_of_write_error hwrite
      have hwritten : w.written (.stored q) = _ := written_of_flush (hflush ▸ hsave)
      rw [hpersist, hwritten]
      exact ⟨rfl, p, { q with dirty := true }, hp, rfl, hpath, hfresh, hpool, rfl,
        ⟨fault, hwrite⟩, hpath ▸ StoredPool.resolve_of_write_error hwrite⟩

theorem Unsaved.wellFormed {e : Entry} {text : String} (h : w.Unsaved w' e p q)
    (hformed : w.pool.WellFormed) (hcheck : Address.check text = .ok e.address) :
    q.pool.WellFormed := by
  rw [Serving.pool, h.before] at hformed
  have hactivate : p.pool.activate text e.activatedAt = .ok q.pool :=
    (Pool.activate_eq_ok hformed.ordered).mpr ⟨e.address, hcheck, h.fresh, h.pool⟩
  exact hformed.activate hactivate

/-- As long as the host works, the address stays known: who sends the request again is refused for it,
and nothing changes. -/
theorem Unsaved.refused_again {e : Entry} (h : w.Unsaved w' e p q) (hformed : w.pool.WellFormed)
    (hasks : w.host.Asks a.around a.request activation at_)
    (hcheck : Address.check activation.address = .ok e.address) {later : Serving}
    (hlater : Steps w' later) {again : Asked} (hagain : again.request = a.request) :
    (later.answerTo again).status = .unprocessable ∧ later.after again = later := by
  have hstored : w'.host.pool = .stored q := by rw [h.after]
  obtain ⟨p', hp', -, -, hentries⟩ := hlater.kept hstored (h.wellFormed hformed hcheck)
  have hentry : e ∈ q.pool.entries.toList := by
    rw [h.pool]
    exact Entry.mem_place.mpr (.inl rfl)
  have hmem : e.address ∈ later.pool.entries.toList.map (·.address) := by
    rw [Serving.pool, hp']
    exact List.mem_map_of_mem (hentries hentry)
  have hsettings : later.host.settings = w.host.settings := by
    rw [hlater.settings, h.after]
  obtain ⟨at', hasks'⟩ := hasks.again hsettings again.around
  rw [← hagain] at hasks'
  have hrespond := respond_of_known hasks' hcheck hmem
  rw [answerTo, Serving.after, hrespond]
  exact ⟨rfl, rfl⟩

/-! ## A full disk -/

/-- A host whose pool is empty, and whose disk has no space for the next file. -/
def sampleFull : Serving := { sampleStored with files := { trouble := [some .noSpace] } }

theorem adds_sampleFull (now : Instant) :
    sampleFull.host.Adds (sampleAsked now).around (sampleAsked now).request ⟨"1B", none⟩ now
      (.stored (sampleAdded now)) :=
  adds_sampleAsked now

theorem status_sampleFull (now : Instant) :
    (sampleFull.answerTo (sampleAsked now)).status = .internalError := by
  have hwrite : (StoredPool.write (sampleAdded now).path (.ofPool (sampleAdded now).pool)).run
      sampleFull.files = (.error (.file .noSpace), {}) := rfl
  have hpersist : ((HeldPool.stored (sampleAdded now)).persist.run sampleFull.files).1.1 =
      .error (.file .noSpace) := by
    have hflush : (sampleAdded now).flush = (sampleAdded now).save := rfl
    simp only [HeldPool.persist, StateT.run_bind, hflush, StoredPool.save_of_write_error hwrite]
    rfl
  rw [answerTo, respond_of_adds (adds_sampleFull now), hpersist]
  rfl

theorem status_sampleFull_ne_ok (now : Instant) :
    (sampleFull.answerTo (sampleAsked now)).status ≠ .ok := by
  rw [status_sampleFull]
  decide

theorem check_sample : Address.check "1B" = .ok "1B" := by decide +kernel

/-! ## Refusals -/

/-- Whatever the state of a host, whatever pool it has and whatever the disk refuses: an activation that
is not answered with success blames the request and leaves all as it was, or tells of trouble. In that
case the request was right and the address new, but the file of the pool could not be written and
is as it was. The pool has one more entry, and is marked; its cohort and its last rotation are as
they were. As long as the host works, who sends the request again is refused for it, and nothing
changes. -/
theorem refused_unless_trouble (hpool : w.pool.Reachable) (hmethod : a.request.method = "POST")
    (hpath : a.request.path = "/api/v1/pool/addresses") (hrefused : (w.answerTo a).status ≠ .ok) :
    (w.answerTo a).status.BlamesRequest ∧ w.after a = w ∨
      (w.answerTo a).status = .internalError ∧
        ∃ activation at_ p q, w.host.Asks a.around a.request activation at_ ∧
          w.Unsaved (w.after a) ⟨Text.trim activation.address, at_⟩ p q ∧
          ∀ later, Steps (w.after a) later → ∀ again : Asked, again.request = a.request →
            (later.answerTo again).status = .unprocessable ∧ later.after again = later := by
  have hroute : Route.ofPath? a.request.path = some .addresses := Route.ofPath?_eq_some.mpr hpath
  rcases w.respond_inv a with ⟨answer, hanswer, hstatus⟩ | ⟨activation, at_, pool, hadds⟩
  · left
    rw [answerTo, after, hanswer]
    exact ⟨hstatus hroute hmethod, rfl⟩
  · right
    obtain ⟨htrouble, p, q, hunsaved⟩ := unsaved_of_adds hpool.wellFormed hadds hrefused
    have hactivate := HeldPool.pool_activate hadds.pool
    obtain ⟨address, hcheck, -⟩ := (Pool.activate_eq_ok hpool.wellFormed.ordered).mp hactivate
    obtain ⟨rfl, -⟩ := Address.check_eq_ok.mp hcheck
    exact ⟨htrouble, activation, at_, p, q, hadds.toAsks, hunsaved, fun later hlater again hagain =>
      hunsaved.refused_again hpool.wellFormed hadds.toAsks hcheck hlater hagain⟩

/-- The address is added for which there is no space in the file. When there is, it is refused. -/
theorem refused_unless_trouble_full :
    let a := sampleAsked (.early 1 0)
    (sampleFull.answerTo a).status = .internalError ∧ ∃ p q,
      sampleFull.Unsaved (sampleFull.after a) ⟨"1B", .early 1 0⟩ p q ∧
        ((sampleFull.after a).answerTo (sampleAsked (.early 2 0))).status = .unprocessable := by
  intro a
  have hpath : a.request.path = "/api/v1/pool/addresses" := by decide +kernel
  have hadded := adds_sampleFull (.early 1 0)
  have htrim : Text.trim "1B" = "1B" := (Address.check_eq_ok.mp check_sample).1.symm
  rcases refused_unless_trouble (w := sampleFull) (.empty _) rfl hpath
    (status_sampleFull_ne_ok (.early 1 0)) with
    ⟨hblames, -⟩ | ⟨htrouble, activation, at_, p, q, hasks, hunsaved, hagain⟩
  · exact absurd (status_sampleFull (.early 1 0)) hblames.ne_internalError
  · obtain rfl := Except.ok.inj (hasks.read.symm.trans hadded.read)
    obtain rfl := Except.ok.inj (hasks.instant.symm.trans hadded.instant)
    rw [htrim] at hunsaved
    exact ⟨htrouble, p, q, hunsaved, (hagain _ .refl (sampleAsked (.early 2 0)) rfl).1⟩

/-- So the pool of a host is not always as it was when an activation is refused, and the same request is
not taken later. -/
theorem refused_yet_added :
    let a := sampleAsked (.early 1 0)
    (sampleFull.answerTo a).status ≠ .ok ∧ sampleFull.pool.entries.toList = [] ∧
      (sampleFull.after a).pool.entries.toList = [⟨"1B", .early 1 0⟩] ∧
      ((sampleFull.after a).answerTo a).status = .unprocessable := by
  intro a
  have hadds := adds_sampleFull (.early 1 0)
  have hformed : sampleFull.pool.WellFormed := Pool.wellFormed_empty _
  have hafter : (sampleFull.after a).pool = (sampleAdded (.early 1 0)).pool := by
    rw [after_of_adds hadds, pool_written]
    rfl
  obtain ⟨-, p, q, hunsaved⟩ := unsaved_of_adds hformed hadds (status_sampleFull_ne_ok (.early 1 0))
  have hcheck : Address.check "1B" = .ok (Text.trim "1B") := by
    rw [check_sample, ← (Address.check_eq_ok.mp check_sample).1]
  refine ⟨status_sampleFull_ne_ok _, rfl, by rw [hafter]; rfl, ?_⟩
  exact (hunsaved.refused_again hformed hadds.toAsks hcheck .refl rfl).1

end Serving

end AddressExchange
