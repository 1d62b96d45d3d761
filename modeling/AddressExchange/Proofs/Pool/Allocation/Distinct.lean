import AddressExchange.Proofs.Pool.Allocation.Merged
import AddressExchange.Proofs.Pool.History

/-!
# When a response repeats an address

A payer that names a known date is brought a merge, in which no address is repeated. All others are
brought the cohort as it is. A rotation takes each address once, but a cohort that is put back, by a
restore or when a file is opened, repeats what the list of its names repeats. The list that was put
back last, if no rotation came after it, therefore decides about all these responses.
-/

namespace AddressExchange

namespace Pool

open RecordedPool (fileSnapshot)

variable {p q : Pool} {names : List String}

/-! ## The names of a cohort that was put back -/

/-- The names by which the cohort was put back, when there is one operation more; none if the cohort
was rotated or taken away after that. -/
def namesAfter (p : Pool) (names : List String) : Operation → List String
  | .change (.rotate _) | .change .clear => []
  | .change (.rotateIfDue now) => if p.isDue now then [] else names
  | .change (.activate _ _) | .change (.importAll _) => names
  | .restore addresses last =>
    match p.restore addresses last with
    | .ok _ => addresses
    | .error _ => names

/-- The names by which the cohort was put back, after operations in their order. -/
def namesAfterAll (p : Pool) (names : List String) : List Operation → List String
  | [] => names
  | op :: ops => (p.operate op).namesAfterAll (p.namesAfter names op) ops

/-- The names of the cohort in the snapshot of a file, if there is one. -/
def listedCohort : Option Snapshot → List String
  | some s => s.cohort
  | none => []

/-! ## Cohorts that repeat an address -/

/-- The addresses of the cohort, in its order. -/
def cohortAddresses (p : Pool) : List String := p.cohort.map (·.address)

/-- A rotation takes each address once. -/
theorem WellFormed.nodup_rotate (h : p.WellFormed) (now : Instant) :
    (p.rotate now).cohortAddresses.Nodup :=
  h.distinct.sublist ((sublist_cohort_rotate h.ordered now).map _)

theorem address_of_find? {address : String} {e : Entry} (h : p.find? address = some e) :
    e.address = address := by
  simpa using Array.find?_some h

/-- A cohort that was put back has the addresses that were named, as often as they were. -/
theorem cohortAddresses_restore {last : Option Instant} (h : p.restore names last = .ok q) :
    q.cohortAddresses.Perm names := by
  obtain ⟨cohort, hfound, rfl⟩ := restore_eq_ok.mp h
  have hnamed : List.Forall₂ (fun name e => name = e.address) names cohort :=
    hfound.imp fun name e hfind => (address_of_find? hfind).symm
  have hnames : names = cohort.map (·.address) := by
    rwa [← List.forall₂_map_right_iff, List.forall₂_eq_eq_eq] at hnamed
  rw [hnames]
  exact (Entry.sort_perm cohort).map (·.address)

/-- Does the cohort repeat an address just if the names do by which it was put back? -/
def RepeatsAs (p : Pool) (names : List String) : Prop := p.cohortAddresses.Nodup ↔ names.Nodup

theorem RepeatsAs.of_cohort (h : p.RepeatsAs names) (hq : q.cohort = p.cohort) :
    q.RepeatsAs names := by
  rw [RepeatsAs, cohortAddresses, hq]
  exact h

theorem repeatsAs_nil (h : p.cohortAddresses.Nodup) : p.RepeatsAs [] := iff_of_true h .nil

theorem repeatsAs_restore {last : Option Instant} (h : p.restore names last = .ok q) :
    q.RepeatsAs names := (cohortAddresses_restore h).nodup_iff

/-- One case for each operation: it leaves the cohort as it is, takes each address once, or puts a
list of names in its place. -/
theorem RepeatsAs.operate (hn : p.RepeatsAs names) (h : p.WellFormed) (op : Operation) :
    (p.operate op).RepeatsAs (p.namesAfter names op) := by
  unfold Pool.operate namesAfter
  cases op with
  | restore addresses last =>
    dsimp only
    cases hq : p.restore addresses last with
    | ok q => exact repeatsAs_restore hq
    | error e => exact hn
  | change c =>
    cases c with
    | activate text at_ =>
      refine hn.of_cohort ?_
      dsimp only [apply]
      split
      · next hq => exact (cohort_activate hq).1
      · rfl
    | importAll es => exact hn.of_cohort (cohort_importAll p es).1
    | rotate now => exact repeatsAs_nil (h.nodup_rotate now)
    | rotateIfDue now =>
      dsimp only [apply]
      rw [rotateIfDue_fst]
      split
      · exact repeatsAs_nil (h.nodup_rotate now)
      · exact hn
    | clear => exact repeatsAs_nil .nil

theorem RepeatsAs.operateAll (hn : p.RepeatsAs names) (h : p.WellFormed) (ops : List Operation) :
    (p.operateAll ops).RepeatsAs (p.namesAfterAll names ops) := by
  induction ops generalizing p names with
  | nil => exact hn
  | cons op ops ih => exact ih (hn.operate h op) (h.operate op)

/-- A pool that was opened has the cohort that its file names. -/
theorem repeatsAs_found {path : Path} {config : PoolConfig} {x : Except FileFault (Option Node)}
    {p : StoredPool} (h : StoredPool.found path config x = .ok p) :
    p.pool.RepeatsAs (listedCohort (fileSnapshot x)) := by
  unfold StoredPool.found at h
  split at h
  · cases h
    exact repeatsAs_nil .nil
  · cases h
    exact repeatsAs_nil .nil
  · cases h
  · cases h
  · next content ownerOnly =>
    obtain ⟨s, hread, h⟩ := bind_eq_ok.mp h
    obtain ⟨q, hq, h⟩ := bind_eq_ok.mp h
    cases h
    have hfile : fileSnapshot (.ok (some (.file content ownerOnly))) = some s := by
      simp only [fileSnapshot, hread]
      rfl
    rw [hfile]
    unfold Snapshot.toPool at hq
    split at hq
    · cases hq
    · split at hq
      · cases hq
      · exact repeatsAs_restore hq

end Pool

/-! ## Responses -/

namespace Allocation

open Pool (namesAfterAll listedCohort)
open RecordedPool (fileSnapshot)

variable {p : Pool} {names : List String}

theorem addresses_allocate (source : AddressSource) (prior : Option Instant) (now : Instant) :
    (allocate source prior now).addresses = (considered source prior now).map (·.address) :=
  congrArg Response.addresses (allocate_eq_make source prior now)

/-- A payer with a known date is brought each address once, any other one what the cohort has. -/
theorem nodup_addresses_allocate (hn : p.RepeatsAs names) (prior : Option Instant) (now : Instant) :
    (allocate p.source prior now).addresses.Nodup ↔
      (∃ date, prior = some date ∧ date ≤ now) ∨ names.Nodup := by
  rw [addresses_allocate]
  cases hknown : knownDate prior now with
  | some date =>
    rw [considered_of_known p.source hknown]
    exact iff_of_true (nodup_merge _ _) (.inl ⟨date, knownDate_eq_some.mp hknown⟩)
  | none =>
    rw [considered_of_unknown p.source hknown]
    have hnodate : ¬ ∃ date, prior = some date ∧ date ≤ now := by
      rintro ⟨date, hprior, hle⟩
      rw [knownDate_eq_some.mpr ⟨hprior, hle⟩] at hknown
      cases hknown
    rw [or_iff_right hnodate]
    exact hn

/-- Whatever was done to an empty pool, and whatever was done to a pool that was opened from a file:
the response to a known date repeats no address. Any other response repeats an address just if the
cohort was put back, by its file or by a restore that went through, by a list that names an address
twice, and was neither rotated nor taken away since. -/
theorem nodup_unless_put_back (config : PoolConfig) (prior : Option Instant) (now : Instant) :
    (∀ ops, let empty : Pool := { config }
      (allocate (empty.operateAll ops).source prior now).addresses.Nodup ↔
        (∃ date, prior = some date ∧ date ≤ now) ∨ (empty.namesAfterAll [] ops).Nodup) ∧
    ∀ path fs fs' p, (StoredPool.openAt path config).run fs = (.ok p, fs') →
      let listed := listedCohort (fileSnapshot (fs.resolve path))
      ∀ ops, (allocate (p.pool.operateAll ops).source prior now).addresses.Nodup ↔
        (∃ date, prior = some date ∧ date ≤ now) ∨ (p.pool.namesAfterAll listed ops).Nodup := by
  refine ⟨fun ops => ?_, fun path fs fs' p hopen => ?_⟩
  · have hempty : ({ config } : Pool).RepeatsAs [] := Pool.repeatsAs_nil .nil
    exact nodup_addresses_allocate (hempty.operateAll (Pool.wellFormed_empty config) ops) prior now
  · rw [StoredPool.run_openAt] at hopen
    have hfound := (Prod.mk.inj hopen).1
    have hformed := (StoredPool.wellFormed_found hfound).1
    intro listed ops
    have hopened : p.pool.RepeatsAs listed := Pool.repeatsAs_found hfound
    exact nodup_addresses_allocate (hopened.operateAll hformed ops) prior now

/-- A file names an address twice. What is opened repeats it on first contact, not for a known date,
and no more once a rotation was done. -/
theorem nodup_unless_put_back_opened :
    let path := ["pool.json"]
    let config : PoolConfig := { cohortSize := 1 }
    let s : Snapshot := ⟨1, [⟨"1A", .early 3 0⟩], ["1A", "1A"], some (.early 6 0)⟩
    let fs : Files := { nodes := [(path, .file s.write false)] }
    let now := Instant.early 9 0
    ∃ p, (StoredPool.openAt path config).run fs = (.ok p, fs) ∧
      ¬ (allocate p.pool.source none now).addresses.Nodup ∧
      (allocate p.pool.source (some (.early 1 0)) now).addresses.Nodup ∧
      (allocate (p.pool.rotate now).source none now).addresses.Nodup := by
  intro path config s fs now
  have hfile : fs.resolve path = .ok (some (.file s.write false)) := rfl
  have hread : Snapshot.read s.write = .ok s := Snapshot.read_write (by decide)
  obtain ⟨q, hq⟩ : ∃ q, s.toPool config = .ok q := by
    have hok : (s.toPool config).isOk = true := by decide +kernel
    cases hq : s.toPool config with
    | ok q => exact ⟨q, rfl⟩
    | error e =>
      rw [hq] at hok
      cases hok
  have hopen : (StoredPool.openAt path config).run fs = (.ok ⟨path, q, false⟩, fs) := by
    rw [StoredPool.run_openAt, hfile]
    simp only [StoredPool.found, hread, hq, bind, Except.bind]
  have hsnapshot : fileSnapshot (fs.resolve path) = some s := by
    rw [hfile, fileSnapshot, hread]
    rfl
  have hprior (prior : Option Instant) :=
    (nodup_unless_put_back config prior now).2 path fs fs _ hopen
  rw [hsnapshot] at hprior
  refine ⟨_, hopen, fun hnodup => ?_, ?_, ?_⟩
  · rcases (hprior none []).mp hnodup with ⟨date, hdate, -⟩ | hnames
    · cases hdate
    · have hnodup : ["1A", "1A"].Nodup := hnames
      exact absurd hnodup (by decide)
  · exact (hprior (some (.early 1 0)) []).mpr (.inl ⟨_, rfl, by decide⟩)
  · exact (hprior none [.change (.rotate now)]).mpr (.inr .nil)

/-- An address by which a cohort is put back twice is given twice on first contact. -/
theorem address_given_twice :
    let p := ({ config := { cohortSize := 1 } } : Pool).operateAll [
      .change (.activate "1A" (.early 1 0)), .restore ["1A", "1A"] (some (.early 2 0))]
    p.Reachable ∧ (allocate p.source none (.early 3 0)).addresses = ["1A", "1A"] := by
  intro p
  let q := ({ config := { cohortSize := 1 } } : Pool).operate (.change (.activate "1A" (.early 1 0)))
  have hq : q.Reachable := (Pool.Reachable.empty _).operate _
  let e : Entry := ⟨"1A", .early 1 0⟩
  have he : ∀ x ∈ [e, e], x ∈ q.entries.toList := by decide +kernel
  have hrestore : q.restore ["1A", "1A"] (some (.early 2 0)) =
      .ok { q with cohort := [e, e], lastRotation := some (.early 2 0) } :=
    hq.wellFormed.restore_cohort (.cons (by decide) (List.pairwise_singleton ..)) he _
  have hp : p = { q with cohort := [e, e], lastRotation := some (.early 2 0) } := by
    change q.operate (.restore ["1A", "1A"] (some (.early 2 0))) = _
    rw [Pool.operate, hrestore]
  refine ⟨hq.operate (.restore _ _), ?_⟩
  rw [addresses_allocate, hp]
  rfl

end Allocation

end AddressExchange
