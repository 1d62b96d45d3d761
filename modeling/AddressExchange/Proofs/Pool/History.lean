import AddressExchange.Proofs.Pool.Change
import AddressExchange.Proofs.Pool.Sorting
import AddressExchange.Proofs.Pool.Stored
import Mathlib.Data.Finset.Insert

/-!
# Pools and their history

A pool is made of the activations that it has accepted since it was last cleared: its entries are
these, sorted by their instants. A recorded pool keeps them in the order in which they were accepted,
and the addresses that it knows in a set of their own, which alone decides whether an address is new.
The set and the entries never part, so a recorded pool does what a pool does that looks through its
entries.
-/

namespace AddressExchange

/-! ## Operations -/

namespace Pool

/-- What may be done to a pool, also when it is loaded. -/
inductive Operation where
  | change (c : Change)
  | restore (addresses : List String) (lastRotation : Option Instant)

/-- The pool after an operation. One that is refused leaves it as it was, but for what an import did
before. -/
def operate (p : Pool) : Operation → Pool
  | .change c => p.apply c
  | .restore addresses lastRotation =>
    match p.restore addresses lastRotation with
    | .ok q => q
    | .error _ => p

/-- The pool after operations in their order. -/
def operateAll (p : Pool) (ops : List Operation) : Pool := ops.foldl operate p

theorem WellFormed.operate {p : Pool} (h : p.WellFormed) (op : Operation) :
    (p.operate op).WellFormed := by
  cases op with
  | change c => exact h.apply c
  | restore addresses last =>
    unfold Pool.operate
    dsimp only
    split
    · next hq => exact (h.restore hq).1
    · exact h

theorem entries_restore {p q : Pool} {addresses : List String} {last : Option Instant}
    (h : p.restore addresses last = .ok q) : q.entries = p.entries := by
  obtain ⟨cohort, -, h⟩ := bind_eq_ok.mp h
  cases h
  rfl

/-- Pools that operations lead to, from an empty pool or from one that was opened. -/
inductive Reachable : Pool → Prop where
  | empty (config : PoolConfig) : Reachable { config }
  | opened {path : Path} {config : PoolConfig} {fs fs' : Files} {p : StoredPool}
      (h : (StoredPool.openAt path config).run fs = (.ok p, fs')) : Reachable p.pool
  | operate {p : Pool} (h : Reachable p) (op : Operation) : Reachable (p.operate op)

theorem Reachable.wellFormed {p : Pool} (h : p.Reachable) : p.WellFormed := by
  induction h with
  | empty config => exact wellFormed_empty config
  | opened h =>
    rw [StoredPool.run_openAt] at h
    exact (StoredPool.wellFormed_found (Prod.mk.inj h).1).1
  | operate _ op ih => exact ih.operate op

theorem Reachable.operateAll {p : Pool} (h : p.Reachable) (ops : List Operation) :
    (p.operateAll ops).Reachable := by
  induction ops generalizing p with
  | nil => exact h
  | cons op ops ih => exact ih (h.operate op)

end Pool

/-- A pool with the addresses that it knows, and the activations that it has accepted since it was
last cleared, the first one first. -/
structure RecordedPool where
  pool : Pool
  known : Finset String := ∅
  accepted : List Entry := []

namespace RecordedPool

open Pool (Operation)

/-- Adds an address that is not known. -/
def activate (r : RecordedPool) (text : String) (at_ : Instant) : Except Failure RecordedPool :=
  match Address.check text with
  | .error e => .error (.invalidAddress e)
  | .ok address =>
    if address ∈ r.known then .error (.invalidAddress (.known address))
    else
      let entry : Entry := ⟨address, at_⟩
      let place := r.pool.activeCount at_
      .ok {
        pool := { r.pool with entries := r.pool.entries.insertIdxIfInBounds place entry }
        known := insert address r.known
        accepted := r.accepted ++ [entry] }

/-- Activates entries in their order up to the first that is refused. -/
def importAll (r : RecordedPool) : List Entry → RecordedPool
  | [] => r
  | e :: es =>
    match r.activate e.address e.activatedAt with
    | .ok r => r.importAll es
    | .error _ => r

/-- The recorded pool after an operation. -/
def operate (r : RecordedPool) : Operation → RecordedPool
  | .change (.activate text at_) =>
    match r.activate text at_ with
    | .ok r => r
    | .error _ => r
  | .change (.importAll es) => r.importAll es
  | .change .clear => { pool := r.pool.clear }
  | op => { r with pool := r.pool.operate op }

/-- The recorded pool after operations in their order. -/
def run (r : RecordedPool) (ops : List Operation) : RecordedPool := ops.foldl operate r

/-- The pool is in order, has the accepted activations as its entries, and knows their addresses. -/
structure Consistent (r : RecordedPool) : Prop where
  pool : r.pool.WellFormed
  entries : r.pool.entries.toList = Entry.sort r.accepted
  known : ∀ a, a ∈ r.known ↔ a ∈ r.pool.entries.toList.map (·.address)

variable {r r' : RecordedPool}

theorem consistent_empty (config : PoolConfig) : Consistent { pool := { config } } where
  pool := Pool.wellFormed_empty config
  entries := (Entry.sort_eq_self .nil).symm
  known a := by simp

/-! ## One operation -/

/-- The set of known addresses gives the same answers as the entries. -/
theorem Consistent.activate_pool (h : r.Consistent) (text : String) (at_ : Instant) :
    (r.activate text at_).map (·.pool) = r.pool.activate text at_ := by
  unfold RecordedPool.activate Pool.activate
  cases Address.check text with
  | error e => rfl
  | ok address =>
    have hfind : (r.pool.find? address).isSome ↔ address ∈ r.known := by
      rw [h.known, ← Option.isNone_eq_false_iff, Bool.eq_false_iff, ne_eq, Option.isNone_iff_eq_none,
        Pool.find?_eq_none, not_not]
    dsimp only
    by_cases hknown : address ∈ r.known
    · rw [if_pos hknown, if_pos (hfind.mpr hknown)]
      rfl
    · rw [if_neg hknown, if_neg (mt hfind.mp hknown)]
      rfl

theorem accepted_activate {text : String} {at_ : Instant} (h : r.activate text at_ = .ok r') :
    r'.accepted = r.accepted ++ [⟨Text.trim text, at_⟩] ∧
      r'.known = insert (Text.trim text) r.known := by
  unfold RecordedPool.activate at h
  cases hcheck : Address.check text with
  | error e =>
    rw [hcheck] at h
    cases h
  | ok address =>
    obtain ⟨rfl, -⟩ := Address.check_eq_ok.mp hcheck
    rw [hcheck] at h
    dsimp only at h
    split at h
    · cases h
    · cases h
      exact ⟨rfl, rfl⟩

theorem Consistent.activate (h : r.Consistent) {text : String} {at_ : Instant}
    (hr : r.activate text at_ = .ok r') : r'.Consistent := by
  have hpool : r.pool.activate text at_ = .ok r'.pool := by
    rw [← h.activate_pool, hr]
    rfl
  obtain ⟨haccepted, hknown⟩ := accepted_activate hr
  obtain ⟨address, hcheck, -, hplace⟩ := (Pool.activate_eq_ok h.pool.ordered).mp hpool
  obtain ⟨rfl, -⟩ := Address.check_eq_ok.mp hcheck
  have hentries : r'.pool.entries.toList =
      Entry.place ⟨Text.trim text, at_⟩ r.pool.entries.toList := by
    rw [hplace]
  refine ⟨h.pool.activate hpool, ?_, fun a => ?_⟩
  · rw [hentries, haccepted, Entry.sort_concat, h.entries]
  · have hperm := (Entry.place_perm ⟨Text.trim text, at_⟩ r.pool.entries.toList).map (·.address)
    rw [hentries, hknown, hperm.mem_iff, List.map_cons, List.mem_cons, Finset.mem_insert, h.known]

/-- A recorded pool imports as the pool in it does. -/
theorem Consistent.importAll_pool (h : r.Consistent) (es : List Entry) (done : Nat) :
    (Pool.importAll.go r.pool done es).1 = (r.importAll es).pool := by
  induction es generalizing r done with
  | nil => rfl
  | cons e es ih =>
    have hpool := h.activate_pool e.address e.activatedAt
    rw [RecordedPool.importAll, Pool.importAll.go, ← hpool]
    cases hr : r.activate e.address e.activatedAt with
    | error f => rfl
    | ok r' => exact ih (h.activate hr) (done + 1)

theorem Consistent.importAll (h : r.Consistent) (es : List Entry) : (r.importAll es).Consistent := by
  induction es generalizing r with
  | nil => exact h
  | cons e es ih =>
    rw [RecordedPool.importAll]
    split
    · next hr => exact ih (h.activate hr)
    · exact h

/-- An entry with the blanks around its address taken away. -/
def trimmed (e : Entry) : Entry := ⟨Text.trim e.address, e.activatedAt⟩

/-- An import that goes through has accepted all entries. -/
theorem Consistent.accepted_importAll (h : r.Consistent) {es : List Entry} {done count : Nat}
    {q : Pool} (hall : Pool.importAll.go r.pool done es = (q, .ok count)) :
    (r.importAll es).accepted = r.accepted ++ es.map trimmed := by
  induction es generalizing r done with
  | nil => simp [RecordedPool.importAll]
  | cons e es ih =>
    have hpool := h.activate_pool e.address e.activatedAt
    rw [Pool.importAll.go, ← hpool] at hall
    rw [RecordedPool.importAll]
    cases hr : r.activate e.address e.activatedAt with
    | error f =>
      rw [hr] at hall
      cases hall
    | ok r' =>
      rw [hr] at hall
      dsimp only
      rw [ih (h.activate hr) hall, (accepted_activate hr).1]
      simp [trimmed]

/-- An operation that leaves the entries alone leaves their history alone. -/
theorem Consistent.keep (h : r.Consistent) {q : Pool} (hq : q.WellFormed)
    (hentries : q.entries = r.pool.entries) : Consistent { r with pool := q } where
  pool := hq
  entries := by rw [hentries, h.entries]
  known := by
    rw [hentries]
    exact h.known

/-- A recorded pool stays consistent, and the pool in it does what it does alone. -/
theorem Consistent.operate (h : r.Consistent) (op : Operation) :
    (r.operate op).Consistent ∧ (r.operate op).pool = r.pool.operate op := by
  have hformed := h.pool.operate op
  cases op with
  | restore addresses last =>
    refine ⟨h.keep hformed ?_, rfl⟩
    unfold Pool.operate
    dsimp only
    split
    · next hq => exact Pool.entries_restore hq
    · rfl
  | change c =>
    cases c with
    | activate text at_ =>
      unfold RecordedPool.operate Pool.operate Pool.apply
      dsimp only
      rw [← h.activate_pool]
      cases hr : r.activate text at_ with
      | error e => exact ⟨h, rfl⟩
      | ok r' => exact ⟨h.activate hr, rfl⟩
    | importAll es => exact ⟨h.importAll es, (h.importAll_pool es 0).symm⟩
    | rotate now => exact ⟨h.keep hformed rfl, rfl⟩
    | rotateIfDue now =>
      refine ⟨h.keep hformed ?_, rfl⟩
      unfold Pool.operate Pool.apply
      dsimp only
      rw [Pool.rotateIfDue_fst]
      split <;> rfl
    | clear => exact ⟨consistent_empty r.pool.config, rfl⟩

/-! ## Whole runs -/

theorem Consistent.run (h : r.Consistent) (ops : List Operation) :
    (r.run ops).Consistent ∧ (r.run ops).pool = r.pool.operateAll ops := by
  induction ops generalizing r with
  | nil => exact ⟨h, rfl⟩
  | cons op ops ih =>
    obtain ⟨hop, hpool⟩ := h.operate op
    obtain ⟨hrun, hall⟩ := ih hop
    exact ⟨hrun, hall.trans (congrArg (Pool.operateAll · ops) hpool)⟩

/-! ## Opening a file -/

/-- The snapshot in the file that a path leads to. -/
def fileSnapshot : Except FileFault (Option Node) → Option Snapshot
  | .ok (some (.file content _)) => (Snapshot.read content).toOption
  | _ => none

/-- What an empty pool goes through when it is loaded. -/
def loading : Option Snapshot → List Operation
  | some s => [.change (.importAll s.entries), .restore s.cohort s.lastRotation]
  | none => []

/-- The entries that a snapshot lists. -/
def listed : Option Snapshot → List Entry
  | some s => s.entries
  | none => []

/-- The pool of a snapshot is what loading makes of an empty one, which accepts all that is listed. -/
theorem run_loading {s : Snapshot} {config : PoolConfig} {q : Pool}
    (h : s.toPool config = .ok q) :
    let r := ({ pool := { config } } : RecordedPool).run (loading (some s))
    r.pool = q ∧ r.accepted = s.entries.map trimmed := by
  intro r
  have hempty := consistent_empty config
  unfold Snapshot.toPool at h
  split at h
  · cases h
  · split at h
    · cases h
    · next p count hall =>
      have hpool := (hempty.run (loading (some s))).2
      have haccepted := hempty.accepted_importAll hall
      refine ⟨hpool.trans ?_, ?_⟩
      · simp only [loading, Pool.operateAll, List.foldl_cons, List.foldl_nil, Pool.operate, Pool.apply,
          hall, h]
      · exact haccepted.trans (List.nil_append _)

theorem run_opening {path : Path} {config : PoolConfig} {x : Except FileFault (Option Node)}
    {p : StoredPool} (h : StoredPool.found path config x = .ok p) :
    let r := ({ pool := { config } } : RecordedPool).run (loading (fileSnapshot x))
    r.pool = p.pool ∧ r.accepted = (listed (fileSnapshot x)).map trimmed := by
  unfold StoredPool.found at h
  split at h
  · cases h
    exact ⟨rfl, rfl⟩
  · cases h
    exact ⟨rfl, rfl⟩
  · cases h
  · cases h
  · next content _ =>
    obtain ⟨s, hread, h⟩ := bind_eq_ok.mp h
    obtain ⟨q, hq, h⟩ := bind_eq_ok.mp h
    cases h
    have hfile : fileSnapshot (.ok (some (.file content ‹_›))) = some s := by
      simp only [fileSnapshot, hread]
      rfl
    rw [hfile]
    exact run_loading hq

/-! ## What a pool holds -/

/-- What holds of the entries, the known addresses and the cohort at all times. -/
structure Represents (r : RecordedPool) : Prop where
  /-- The entries are the accepted activations, sorted by their instants. -/
  entries : r.pool.entries.toList = Entry.sort r.accepted
  ordered : Entry.Ordered r.pool.entries.toList
  /-- Those of one instant stand in the order in which they were accepted. -/
  stable : ∀ t, Entry.ofInstant t r.pool.entries.toList = Entry.ofInstant t r.accepted
  distinct : (r.pool.entries.toList.map (·.address)).Nodup
  known : ∀ a, a ∈ r.known ↔ a ∈ r.pool.entries.toList.map (·.address)
  addresses : ∀ e ∈ r.pool.entries.toList, e.address ≠ "" ∧ e.address.utf8ByteSize ≤ 128 ∧
    ∀ c ∈ e.address.toList, Text.isBlank c = false ∧ Text.isControl c = false
  cohort : ∀ e ∈ r.pool.cohort, e ∈ r.pool.entries.toList
  cohortOrdered : Entry.Ordered r.pool.cohort

theorem Consistent.represents (h : r.Consistent) : r.Represents where
  entries := h.entries
  ordered := h.pool.ordered
  stable t := by rw [h.entries, Entry.ofInstant_sort]
  distinct := h.pool.distinct
  known := h.known
  addresses e he := (Address.check_eq_ok.mp (h.pool.checked e he)).2
  cohort _ he := h.pool.mem_of_mem_cohort he
  cohortOrdered := h.pool.cohort

/-- Whatever is done to an empty pool, and whatever is done to a pool that was opened from a file,
its entries are the activations that were accepted since it was last cleared, sorted by their
instants, and its known addresses are theirs. When a pool has been opened, these are the entries that
its file lists. -/
theorem represents_always (config : PoolConfig) :
    (∀ ops, let r := ({ pool := { config } } : RecordedPool).run ops
      r.Represents ∧ r.pool = ({ config } : Pool).operateAll ops) ∧
    ∀ path fs fs' p, (StoredPool.openAt path config).run fs = (.ok p, fs') →
      let file := fileSnapshot (fs.resolve path)
      let opened := ({ pool := { config } } : RecordedPool).run (loading file)
      opened.pool = p.pool ∧ opened.accepted = (listed file).map trimmed ∧
        ∀ ops, (opened.run ops).Represents ∧ (opened.run ops).pool = p.pool.operateAll ops := by
  have hempty := consistent_empty config
  refine ⟨fun ops => ?_, fun path fs fs' p hopen => ?_⟩
  · obtain ⟨h, hpool⟩ := hempty.run ops
    exact ⟨h.represents, hpool⟩
  · rw [StoredPool.run_openAt] at hopen
    obtain ⟨hpool, haccepted⟩ := run_opening (Prod.mk.inj hopen).1
    refine ⟨hpool, haccepted, fun ops => ?_⟩
    obtain ⟨h, hrun⟩ := (hempty.run _).1.run ops
    exact ⟨h.represents, hrun.trans (congrArg (Pool.operateAll · ops) hpool)⟩

/-- A file with entries out of order and a blank in front of an address. Two activations follow; the
address of the first is known. -/
theorem represents_always_after_opening :
    let path := ["pool.json"]
    let config : PoolConfig := { cohortSize := 1 }
    let s : Snapshot := ⟨1, [⟨" 1B", .early 5 0⟩, ⟨"1A", .early 3 0⟩, ⟨"1C", .early 5 0⟩],
      ["1C", "1A", "1C"], some (.early 6 0)⟩
    let fs : Files := { nodes := [(path, .file s.write false)] }
    let ops : List Operation :=
      [.change (.activate "1A" (.early 9 0)), .change (.activate "1D" (.early 4 0))]
    ∃ p, (StoredPool.openAt path config).run fs = (.ok p, fs) ∧
      (∀ e ∈ p.pool.cohort, e ∈ p.pool.entries.toList) ∧
      (p.pool.operateAll ops).entries.toList =
        [⟨"1A", .early 3 0⟩, ⟨"1D", .early 4 0⟩, ⟨"1B", .early 5 0⟩, ⟨"1C", .early 5 0⟩] := by
  intro path config s fs ops
  have hfile : fs.resolve path = .ok (some (.file s.write false)) := rfl
  have hread : Snapshot.read s.write = .ok s := Snapshot.read_write (by decide)
  obtain ⟨q, hq⟩ : ∃ q, s.toPool config = .ok q := by
    have hok : (s.toPool config).isOk = true := by decide +kernel
    cases hq : s.toPool config with
    | ok q => exact ⟨q, rfl⟩
    | error e =>
      rw [hq] at hok
      cases hok
  have hopen : (StoredPool.openAt path config).run fs = (.ok ⟨path, q, false⟩, fs) := by
    rw [StoredPool.run_openAt, hfile]
    simp only [StoredPool.found, hread, hq, bind, Except.bind]
  obtain ⟨-, -, h⟩ := (represents_always config).2 path fs fs _ hopen
  refine ⟨_, hopen, ?_, ?_⟩
  · obtain ⟨hrepresents, hpool⟩ := h []
    rw [show q = _ from hpool.symm]
    exact hrepresents.cohort
  · obtain ⟨hrepresents, hpool⟩ := h ops
    have hsnapshot : fileSnapshot (fs.resolve path) = some s := by
      rw [hfile, fileSnapshot, hread]
      rfl
    have haccepted : ((({ pool := { config } } : RecordedPool).run (loading (some s))).run
        ops).accepted =
          [⟨"1B", .early 5 0⟩, ⟨"1A", .early 3 0⟩, ⟨"1C", .early 5 0⟩, ⟨"1D", .early 4 0⟩] := by
      decide +kernel
    rw [← hpool, hrepresents.entries, hsnapshot, haccepted, Entry.sort_eq_foldl]
    decide +kernel

end RecordedPool

end AddressExchange
