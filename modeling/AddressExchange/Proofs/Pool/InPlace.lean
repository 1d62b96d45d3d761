import AddressExchange.Proofs.Pool.History

/-!
# Work on a pool in place

A pool may be changed where it is, step by step: an address is put among the known ones before it gets
its place, and a cohort is looked up before it is put back. What such work has changed stays changed when
it fails. It does what the operations of a pool do, and what it does before it can fail leaves no
trace.
-/

namespace AddressExchange

/-- A pool with the addresses that it knows, and with the mark that it has if it is kept in a file. -/
structure MarkedPool where
  recorded : RecordedPool
  /-- Is there a change that the file does not have? -/
  dirty : Bool := false

/-- Work on a pool in place. -/
abbrev InPlace := ExceptT Failure (StateM MarkedPool)

variable {α β : Type}

namespace InPlace

/-- Does the work. What was changed before a failure stays. -/
def perform (x : InPlace α) (m : MarkedPool) : Except Failure α × MarkedPool := StateT.run x.run m

def change (f : RecordedPool → RecordedPool) : InPlace Unit :=
  modify fun m => { m with recorded := f m.recorded }

/-- Puts an address among the known ones, and says whether it was new there. -/
def learn (address : String) : InPlace Bool := do
  let known := (← get).recorded.known
  change fun r => { r with known := insert address r.known }
  pure (decide (address ∉ known))

/-- Puts an entry behind all that are active at its instant. -/
def place (e : Entry) : InPlace Unit :=
  change fun r => { r with
    pool := { r.pool with
      entries := r.pool.entries.insertIdxIfInBounds (r.pool.activeCount e.activatedAt) e }
    accepted := r.accepted ++ [e] }

/-- Adds an address. -/
def activate (text : String) (at_ : Instant) : InPlace Unit :=
  match Address.check text with
  | .error e => throw (.invalidAddress e)
  | .ok address => do
    if ← learn address then place ⟨address, at_⟩
    else throw (.invalidAddress (.known address))

/-- Adds an address to a pool with a file. -/
def activateStored (text : String) (at_ : Instant) : InPlace Unit := do
  activate text at_
  modify fun m => { m with dirty := true }

/-- Activates entries in their order, `done` others having been activated. -/
def importAll (done : Nat) : List Entry → InPlace Nat
  | [] => pure done
  | e :: es => do
    activate e.address e.activatedAt
    importAll (done + 1) es

def lookUp (address : String) : InPlace Entry := do
  match (← get).recorded.pool.find? address with
  | some e => pure e
  | none => throw (.pool (.notInPool address))

/-- Puts a cohort back. -/
def restore (addresses : List String) (lastRotation : Option Instant) : InPlace Unit := do
  let cohort ← addresses.mapM lookUp
  change fun r => { r with pool := { r.pool with cohort := Entry.sort cohort } }
  change fun r => { r with pool := { r.pool with lastRotation } }

variable {m m' : MarkedPool} {e : Failure}

/-! ## What is done -/

theorem perform_bind_of_ok {x : InPlace α} {f : α → InPlace β} {a : α}
    (h : x.perform m = (.ok a, m')) : (x >>= f).perform m = (f a).perform m' := by
  have hrun : StateT.run (ExceptT.run x) m = (.ok a, m') := h
  rw [perform, ExceptT.run_bind, StateT.run_bind, hrun]
  rfl

theorem perform_bind_of_error {x : InPlace α} (h : x.perform m = (.error e, m'))
    (f : α → InPlace β) : (x >>= f).perform m = (.error e, m') := by
  have hrun : StateT.run (ExceptT.run x) m = (.error e, m') := h
  rw [perform, ExceptT.run_bind, StateT.run_bind, hrun]
  rfl

/-- What work in place comes to that does what a function gives, and nothing where it gives none. -/
def settle (m : MarkedPool) (y : Except Failure β) (f : β → MarkedPool) :
    Except Failure Unit × MarkedPool :=
  match y with
  | .ok b => (.ok (), f b)
  | .error e => (.error e, m)

theorem settle_eq_error {y : Except Failure β} {f : β → MarkedPool} :
    settle m y f = (.error e, m') ↔ y = .error e ∧ m' = m := by
  cases y with
  | ok b => simp [settle]
  | error e' => simp [settle, eq_comm]

theorem perform_learn (address : String) (m : MarkedPool) :
    (learn address).perform m = (.ok (decide (address ∉ m.recorded.known)), { m with
      recorded := { m.recorded with known := insert address m.recorded.known } }) := rfl

/-- An activation in place leads to the recorded pool that an activation gives, and to the old one if it
is refused: an address that is refused when it was put among the known ones was there before. -/
theorem perform_activate (text : String) (at_ : Instant) (m : MarkedPool) :
    (activate text at_).perform m =
      settle m (m.recorded.activate text at_) fun r => { m with recorded := r } := by
  rw [activate, RecordedPool.activate]
  cases Address.check text with
  | error e => rfl
  | ok address =>
    dsimp only
    rw [perform_bind_of_ok (perform_learn address m)]
    by_cases hknown : address ∈ m.recorded.known
    · rw [if_pos hknown, Finset.insert_eq_of_mem hknown, if_neg (by simpa using hknown)]
      rfl
    · rw [if_neg hknown, if_pos (by simpa using hknown)]
      rfl

theorem perform_activateStored (text : String) (at_ : Instant) (m : MarkedPool) :
    (activateStored text at_).perform m =
      settle m (m.recorded.activate text at_) fun r => ⟨r, true⟩ := by
  have hactivate := perform_activate text at_ m
  rw [activateStored]
  cases hr : m.recorded.activate text at_ with
  | ok r =>
    rw [hr] at hactivate
    exact perform_bind_of_ok hactivate
  | error e =>
    rw [hr] at hactivate
    exact perform_bind_of_error hactivate _

/-- The entry of an address, which must be there. -/
def found (p : Pool) (address : String) : Except Failure Entry :=
  match p.find? address with
  | some e => .ok e
  | none => .error (.pool (.notInPool address))

theorem perform_lookUp (address : String) (m : MarkedPool) :
    (lookUp address).perform m = (found m.recorded.pool address, m) := by
  have hget : InPlace.perform get m = (.ok m, m) := rfl
  rw [lookUp, perform_bind_of_ok hget, found]
  cases m.recorded.pool.find? address <;> rfl

/-- To look addresses up changes nothing. -/
theorem perform_mapM_lookUp (addresses : List String) (m : MarkedPool) :
    InPlace.perform (addresses.mapM lookUp) m = (addresses.mapM (found m.recorded.pool), m) := by
  induction addresses with
  | nil => rfl
  | cons address addresses ih =>
    have hfirst := perform_lookUp address m
    rw [List.mapM_cons, List.mapM_cons]
    cases hfound : found m.recorded.pool address with
    | error e =>
      rw [hfound] at hfirst
      exact perform_bind_of_error hfirst _
    | ok entry =>
      rw [hfound] at hfirst
      rw [perform_bind_of_ok hfirst]
      cases hothers : addresses.mapM (found m.recorded.pool) with
      | error e =>
        rw [hothers] at ih
        exact perform_bind_of_error ih _
      | ok entries =>
        rw [hothers] at ih
        exact perform_bind_of_ok ih

/-- A cohort in place is put back as it is put back in a pool, and not in part. -/
theorem perform_restore (addresses : List String) (last : Option Instant) (m : MarkedPool) :
    (restore addresses last).perform m = settle m (m.recorded.pool.restore addresses last) fun pool =>
      { m with recorded := { m.recorded with pool } } := by
  have hlooked := perform_mapM_lookUp addresses m
  have hrestore : m.recorded.pool.restore addresses last =
      addresses.mapM (found m.recorded.pool) >>= fun cohort => .ok { m.recorded.pool with
        cohort := Entry.sort cohort
        lastRotation := last } := rfl
  rw [hrestore, restore]
  cases hcohort : addresses.mapM (found m.recorded.pool) with
  | error e =>
    rw [hcohort] at hlooked
    exact perform_bind_of_error hlooked _
  | ok cohort =>
    rw [hcohort] at hlooked
    exact perform_bind_of_ok hlooked

/-- An import that fails has activated all entries before one, and that one is refused. -/
theorem importAll_eq_error {es : List Entry} {done : Nat}
    (h : (importAll done es).perform m = (.error e, m')) :
    ∃ before bad behind, es = before ++ bad :: behind ∧
      InPlace.perform (forM before fun e => activate e.address e.activatedAt) m = (.ok (), m') ∧
      (activate bad.address bad.activatedAt).perform m' = (.error e, m') := by
  induction es generalizing m done with
  | nil => cases h
  | cons entry es ih =>
    rw [importAll] at h
    rcases hentry : (activate entry.address entry.activatedAt).perform m with ⟨e' | _, m₁⟩
    · rw [perform_bind_of_error hentry] at h
      cases h
      rw [perform_activate] at hentry
      obtain ⟨hrefused, rfl⟩ := settle_eq_error.mp hentry
      exact ⟨[], entry, es, rfl, rfl, (perform_activate ..).trans (settle_eq_error.mpr ⟨hrefused, rfl⟩)⟩
    · rw [perform_bind_of_ok hentry] at h
      obtain ⟨before, bad, behind, hes, hbefore, hbad⟩ := ih h
      refine ⟨entry :: before, bad, behind, congrArg (entry :: ·) hes, ?_, hbad⟩
      rw [List.forM_cons, perform_bind_of_ok hentry]
      exact hbefore

/-- What comes of work in place. -/
def outcome (x : InPlace Unit) (m : MarkedPool) (f : MarkedPool → β) : Except Failure β :=
  (x.perform m).1.map fun () => f (x.perform m).2

theorem outcome_of_settle {γ : Type} {x : InPlace Unit} {y : Except Failure β} {f : β → MarkedPool}
    (h : x.perform m = settle m y f) (g : MarkedPool → γ) :
    x.outcome m g = y.map fun b => g (f b) := by
  rw [outcome, h]
  cases y <;> rfl

theorem importAll_go (h : m.recorded.Consistent) (es : List Entry) (done : Nat) :
    Pool.importAll.go m.recorded.pool done es =
      (((importAll done es).perform m).2.recorded.pool, ((importAll done es).perform m).1) := by
  induction es generalizing m done with
  | nil => rfl
  | cons entry es ih =>
    have hpool := h.activate_pool entry.address entry.activatedAt
    have hplaced := perform_activate entry.address entry.activatedAt m
    rw [Pool.importAll.go, ← hpool, importAll]
    cases hr : m.recorded.activate entry.address entry.activatedAt with
    | error e =>
      rw [hr] at hplaced
      rw [perform_bind_of_error hplaced]
      rfl
    | ok r =>
      rw [hr] at hplaced
      rw [perform_bind_of_ok hplaced]
      have hr' : ({ m with recorded := r } : MarkedPool).recorded.Consistent := h.activate hr
      exact ih hr' (done + 1)

end InPlace

/-! ## What is refused -/

theorem Address.exists_check_eq_error {s : String} :
    (∃ e, check s = .error e) ↔ Text.trim s = "" ∨ addressSizeLimit < (Text.trim s).utf8ByteSize ∨
      ∃ c ∈ (Text.trim s).toList, Text.isBlank c = true ∨ Text.isControl c = true := by
  have hok : (∃ e, check s = .error e) ↔ ¬ check s = .ok (Text.trim s) := by
    cases hcheck : check s with
    | error e => simp
    | ok address => simp [(check_eq_ok.mp hcheck).1]
  rw [hok, check_eq_ok]
  simp only [true_and, ne_eq, not_and_or, not_not, Nat.not_le, not_forall, Bool.not_eq_false,
    exists_prop]

namespace RecordedPool

variable {r : RecordedPool} {text : String} {at_ : Instant}

theorem Consistent.invalidAddress_of_activate (h : r.Consistent) {e : Failure}
    (hr : r.activate text at_ = .error e) : ∃ reason, e = .invalidAddress reason := by
  have hpool : r.pool.activate text at_ = .error e := by
    rw [← h.activate_pool, hr]
    rfl
  exact Pool.invalidAddress_of_activate hpool

theorem Consistent.exists_activate_eq_error (h : r.Consistent) :
    (∃ e, r.activate text at_ = .error e) ↔
      Text.trim text = "" ∨ addressSizeLimit < (Text.trim text).utf8ByteSize ∨
        (∃ c ∈ (Text.trim text).toList, Text.isBlank c = true ∨ Text.isControl c = true) ∨
        Text.trim text ∈ r.pool.entries.toList.map (·.address) := by
  rw [← h.known, ← or_assoc, ← or_assoc, or_assoc (a := Text.trim text = ""),
    ← Address.exists_check_eq_error, RecordedPool.activate]
  cases hcheck : Address.check text with
  | error e => simp
  | ok address =>
    obtain ⟨rfl, -⟩ := Address.check_eq_ok.mp hcheck
    dsimp only
    split
    · next hknown => simp [hknown]
    · next hknown => simp [hknown]

end RecordedPool

theorem Pool.exists_restore_eq_error {p : Pool} {addresses : List String} {last : Option Instant} :
    (∃ e, p.restore addresses last = .error e) ↔
      ∃ a ∈ addresses, a ∉ p.entries.toList.map (·.address) := by
  have hfound (a : String) :
      (∃ e, InPlace.found p a = .error e) ↔ a ∉ p.entries.toList.map (·.address) := by
    rw [← Pool.find?_eq_none, InPlace.found]
    cases p.find? a <;> simp
  have hrestore : (∃ e, p.restore addresses last = .error e) ↔
      ∃ e, addresses.mapM (InPlace.found p) = .error e := by
    change (∃ e, addresses.mapM (InPlace.found p) >>= _ = .error e) ↔ _
    cases addresses.mapM (InPlace.found p) with
    | error e => exact iff_of_true ⟨e, rfl⟩ ⟨e, rfl⟩
    | ok cohort => exact iff_of_false (fun ⟨_, h⟩ => nomatch h) fun ⟨_, h⟩ => nomatch h
  rw [hrestore, exists_mapM_eq_error]
  simp only [hfound]

/-! ## Failures -/

/-- Does work in place fail? -/
def InPlace.Fails (x : InPlace α) (m : MarkedPool) : Prop := ∃ e m', x.perform m = (.error e, m')

theorem InPlace.fails_of_settle {m : MarkedPool} {x : InPlace Unit} {y : Except Failure β}
    {f : β → MarkedPool} (h : x.perform m = settle m y f) : x.Fails m ↔ ∃ e, y = .error e := by
  simp only [Fails, h, settle_eq_error, exists_and_left, exists_eq, and_true]

namespace MarkedPool

open InPlace (Fails perform_activate perform_activateStored perform_restore settle_eq_error
  fails_of_settle outcome_of_settle)

/-- What the operations of a pool give is what comes of the work in place. -/
structure WorkedInPlace (m : MarkedPool) : Prop where
  activate (text : String) (at_ : Instant) : m.recorded.pool.activate text at_ =
    (InPlace.activate text at_).outcome m (·.recorded.pool)
  activateStored (path : Path) (text : String) (at_ : Instant) :
    (⟨path, m.recorded.pool, m.dirty⟩ : StoredPool).activate text at_ =
      (InPlace.activateStored text at_).outcome m fun m' => ⟨path, m'.recorded.pool, m'.dirty⟩
  restore (addresses : List String) (last : Option Instant) :
    m.recorded.pool.restore addresses last =
      (InPlace.restore addresses last).outcome m (·.recorded.pool)
  importAll (es : List Entry) : m.recorded.pool.importAll es =
    (((InPlace.importAll 0 es).perform m).2.recorded.pool, ((InPlace.importAll 0 es).perform m).1)

/-- What work in place leaves behind when it fails, and when that is. -/
structure FailsCleanly (m : MarkedPool) : Prop where
  activate (text : String) (at_ : Instant) (e : Failure) (m' : MarkedPool) :
    (InPlace.activate text at_).perform m = (.error e, m') →
      m' = m ∧ ∃ reason, e = .invalidAddress reason
  activateStored (text : String) (at_ : Instant) (e : Failure) (m' : MarkedPool) :
    (InPlace.activateStored text at_).perform m = (.error e, m') →
      m' = m ∧ ∃ reason, e = .invalidAddress reason
  refused (text : String) (at_ : Instant) : Fails (InPlace.activate text at_) m ↔
    Text.trim text = "" ∨ 128 < (Text.trim text).utf8ByteSize ∨
      (∃ c ∈ (Text.trim text).toList, Text.isBlank c = true ∨ Text.isControl c = true) ∨
      Text.trim text ∈ m.recorded.pool.entries.toList.map (·.address)
  refusedStored (text : String) (at_ : Instant) :
    Fails (InPlace.activateStored text at_) m ↔ Fails (InPlace.activate text at_) m
  restore (addresses : List String) (last : Option Instant) (e : Failure) (m' : MarkedPool) :
    (InPlace.restore addresses last).perform m = (.error e, m') → m' = m
  unknown (addresses : List String) (last : Option Instant) :
    Fails (InPlace.restore addresses last) m ↔
      ∃ a ∈ addresses, a ∉ m.recorded.pool.entries.toList.map (·.address)
  importAll (es : List Entry) (e : Failure) (m' : MarkedPool) :
    (InPlace.importAll 0 es).perform m = (.error e, m') →
      ∃ before bad behind, es = before ++ bad :: behind ∧
        InPlace.perform (forM before fun e => InPlace.activate e.address e.activatedAt) m =
          (.ok (), m') ∧
        (InPlace.activate bad.address bad.activatedAt).perform m' = (.error e, m')

variable {m : MarkedPool} (h : m.recorded.Consistent)

include h

theorem workedInPlace : m.WorkedInPlace where
  activate text at_ := by
    rw [outcome_of_settle (perform_activate text at_ m), ← h.activate_pool]
  activateStored path text at_ := by
    rw [outcome_of_settle (perform_activateStored text at_ m), StoredPool.activate, ← h.activate_pool]
    cases m.recorded.activate text at_ <;> rfl
  restore addresses last := by
    rw [outcome_of_settle (perform_restore addresses last m)]
    cases m.recorded.pool.restore addresses last <;> rfl
  importAll es := InPlace.importAll_go h es 0

theorem failsCleanly : m.FailsCleanly where
  activate text at_ e m' hx := by
    rw [perform_activate] at hx
    obtain ⟨hr, hm⟩ := settle_eq_error.mp hx
    exact ⟨hm, h.invalidAddress_of_activate hr⟩
  activateStored text at_ e m' hx := by
    rw [perform_activateStored] at hx
    obtain ⟨hr, hm⟩ := settle_eq_error.mp hx
    exact ⟨hm, h.invalidAddress_of_activate hr⟩
  refused text at_ := (fails_of_settle (perform_activate text at_ m)).trans h.exists_activate_eq_error
  refusedStored text at_ := (fails_of_settle (perform_activateStored text at_ m)).trans
    (fails_of_settle (perform_activate text at_ m)).symm
  restore addresses last e m' hx := by
    rw [perform_restore] at hx
    exact (settle_eq_error.mp hx).2
  unknown addresses last :=
    (fails_of_settle (perform_restore addresses last m)).trans Pool.exists_restore_eq_error
  importAll es e m' hx := InPlace.importAll_eq_error hx

omit h

/-- Whatever was done to an empty pool, and so whatever was done to one that was opened from a file: what
the operations of the pool give is what comes of the work in place, and such work leaves no trace when it
fails. An activation fails exactly if the text holds no address or one that is there already, a
cohort is put back unless one of its addresses is not there, and an import that fails leaves what the
entries before the one that is refused lead to. -/
theorem failures_traceless (config : PoolConfig) :
    (∀ ops dirty, let m : MarkedPool := ⟨({ pool := { config } } : RecordedPool).run ops, dirty⟩
      m.WorkedInPlace ∧ m.FailsCleanly) ∧
    ∀ path fs fs' p, (StoredPool.openAt path config).run fs = (.ok p, fs') →
      ∃ opening, ∀ ops, (({ pool := { config } } : RecordedPool).run (opening ++ ops)).pool =
        p.pool.operateAll ops := by
  have hempty := RecordedPool.consistent_empty config
  refine ⟨fun ops dirty => ?_, fun path fs fs' p hopen => ?_⟩
  · have h : (({ pool := { config } } : RecordedPool).run ops).Consistent := (hempty.run ops).1
    exact ⟨workedInPlace h, failsCleanly h⟩
  · rw [StoredPool.run_openAt] at hopen
    obtain ⟨hpool, -⟩ := RecordedPool.run_opening (Prod.mk.inj hopen).1
    refine ⟨RecordedPool.loading (RecordedPool.fileSnapshot (fs.resolve path)), fun ops => ?_⟩
    rw [RecordedPool.run, List.foldl_append]
    exact ((hempty.run _).1.run ops).2.trans (congrArg (Pool.operateAll · ops) hpool)

/-- An address that is there already is refused, alone and within an import, and so is a cohort with one
that is not. -/
theorem failures_traceless_known :
    let ops : List Pool.Operation :=
      [.change (.activate "1A" (.early 5 0)), .change (.rotate (.early 6 0))]
    let m : MarkedPool := ⟨({ pool := { config := {} } } : RecordedPool).run ops, false⟩
    let es : List Entry := [⟨"1B", .early 7 0⟩, ⟨"1A ", .early 8 0⟩, ⟨"1C", .early 9 0⟩]
    (∃ e, (InPlace.activateStored " 1A" (.early 7 0)).perform m = (.error e, m)) ∧
      (∃ e, (InPlace.restore ["1A", "1B"] none).perform m = (.error e, m)) ∧
      ∃ e m' before bad behind, (InPlace.importAll 0 es).perform m = (.error e, m') ∧
        es = before ++ bad :: behind ∧
        (InPlace.activate bad.address bad.activatedAt).perform m' = (.error e, m') := by
  intro ops m es
  have hm : m.FailsCleanly := ((failures_traceless {}).1 ops false).2
  have hentries : m.recorded.pool.entries.toList.map (·.address) = ["1A"] := by decide +kernel
  have hknown : Fails (InPlace.activateStored " 1A" (.early 7 0)) m := by
    rw [hm.refusedStored, hm.refused, hentries]
    exact .inr (.inr (.inr (by decide +kernel)))
  have hunknown : Fails (InPlace.restore ["1A", "1B"] none) m := by
    rw [hm.unknown, hentries]
    exact ⟨"1B", by decide, by decide⟩
  have himport : ((InPlace.importAll 0 es).perform m).1.isOk = false := by decide +kernel
  obtain ⟨e₁, m₁, h₁⟩ := hknown
  obtain ⟨e₂, m₂, h₂⟩ := hunknown
  obtain ⟨rfl, -⟩ := hm.activateStored _ _ _ _ h₁
  obtain rfl := hm.restore _ _ _ _ h₂
  refine ⟨⟨e₁, h₁⟩, ⟨e₂, h₂⟩, ?_⟩
  rcases h₃ : (InPlace.importAll 0 es).perform m with ⟨e₃ | count, m₃⟩
  · obtain ⟨before, bad, behind, hes, -, hbad⟩ := hm.importAll es e₃ m₃ h₃
    exact ⟨e₃, m₃, before, bad, behind, rfl, hes, hbad⟩
  · rw [h₃] at himport
    cases himport

end MarkedPool

end AddressExchange
