import AddressExchange.Pool.Snapshot
import AddressExchange.Proofs.Except
import AddressExchange.Proofs.Json.Record
import AddressExchange.Proofs.Pool

/-!
# Snapshots are read back

The content of a pool file is read back as the snapshot that was written, and the snapshot of a pool
in order is turned into that pool again: entries of one instant come back in the order that they
had, and the cohort is found by its addresses.
-/

namespace AddressExchange

/-! ## The content of the file -/

theorem Instant.reads_toJson (t : Instant) : Json.Reads Json.instant t.toJson t :=
  Json.reads_instant t

theorem Entry.reads_toJson (e : Entry) : Json.Reads Entry.reader e.toJson e := by
  have hrecord : Json.Reads (Json.Members.reader "PoolAddress"
      (.more (.required "address" Json.string) <|
        .more (.required "activated_at" Json.instant) .none))
      e.toJson (e.address, e.activatedAt, ()) :=
    Json.Members.reads_record
      (.more (Json.reads_text e.address _) <| .more e.activatedAt.reads_toJson .none) (by decide) _
  intro style blanks rest hb hr
  simp only [Entry.reader, hrecord style blanks rest hb hr, bind, Except.bind]

namespace Snapshot

/-- Versions are numbers of eight bits. -/
theorem reads_toJson {s : Snapshot} (h : s.version ≤ 255) :
    Json.Reads Snapshot.reader s.toJson s := by
  have hversion : Json.Reads Json.nat8 (.number s.version) s.version :=
    Json.reads_natural h (Nat.lt_of_le_of_lt h (by decide)) _
  have hentries : Json.Reads (Json.list Entry.reader) (.list (s.entries.map Entry.toJson)) s.entries :=
    Json.reads_list fun e _ => e.reads_toJson
  have hcohort : Json.Reads (Json.list Json.string) (.texts s.cohort) s.cohort :=
    Json.reads_list fun a _ => Json.reads_text a _
  -- A date is written with a quote in front, so it is not taken for `null`.
  have hlast : Json.Reads (Json.nullable Json.instant) (.ofOption Instant.toJson s.lastRotation)
      s.lastRotation := by
    refine Json.reads_nullable Instant.reads_toJson (fun style t bs heq => ?_) _
    rw [Instant.toJson, Json.Value.write, Json.quote] at heq
    exact absurd (List.cons.inj heq).1 (by decide)
  have hrecord : Json.Reads (Json.Members.reader "PoolSnapshot"
      (.more (.required "version" Json.nat8) <|
        .more (.required "addresses" (Json.list Entry.reader)) <|
        .more (.required "cohort" (Json.list Json.string)) <|
        .more (.optional "last_rotation" Json.instant) .none))
      s.toJson (s.version, s.entries, s.cohort, s.lastRotation, ()) :=
    Json.Members.reads_record
      (.more hversion <| .more hentries <| .more hcohort <| .more hlast .none) (by decide) _
  intro style blanks rest hb hr
  simp only [Snapshot.reader, hrecord style blanks rest hb hr, bind, Except.bind]

/-- The content of a pool file is read back. -/
theorem read_write {s : Snapshot} (h : s.version ≤ 255) : read s.write = .ok s := by
  rw [read, write, Json.Value.pretty, (reads_toJson h).parse]
  rfl

end Snapshot

/-! ## The pool of a snapshot -/

namespace Pool

variable {p q : Pool}

/-- Entries that are imported in their order are put one behind the other. -/
theorem importAll_go_append {front back : List Entry} (hp : p.entries = front.toArray)
    (hordered : Entry.Ordered (front ++ back))
    (hdistinct : ((front ++ back).map (·.address)).Nodup)
    (hchecked : ∀ e ∈ back, Address.check e.address = .ok e.address) (done : Nat) :
    importAll.go p done back =
      ({ p with entries := (front ++ back).toArray }, .ok (done + back.length)) := by
  induction back generalizing p front done with
  | nil =>
    rw [importAll.go, List.append_nil, ← hp]
    rfl
  | cons e back ih =>
    rw [List.append_cons] at hordered hdistinct ⊢
    -- The next entry comes no sooner than all in front, and none of these has its address.
    have hfront := (List.pairwise_append.mp (List.pairwise_append.mp hordered).1)
    have hplace : Entry.place e front = front ++ [e] :=
      Entry.place_eq_append fun x hx => hfront.2.2 x hx e List.mem_cons_self
    have hfresh : e.address ∉ front.map (·.address) := by
      rw [List.map_append, List.map_append] at hdistinct
      have hnodup := (List.nodup_append.mp hdistinct).1
      intro hm
      exact (List.nodup_append.mp hnodup).2.2 _ hm _ List.mem_cons_self rfl
    have hactivate : p.activate e.address e.activatedAt =
        .ok { p with entries := (front ++ [e]).toArray } := by
      refine (activate_eq_ok (hp ▸ hfront.1)).mpr ⟨e.address, hchecked e List.mem_cons_self, ?_, ?_⟩
      · rw [hp]
        exact hfresh
      · rw [hp, ← hplace]
    rw [importAll.go, hactivate]
    dsimp only
    rw [ih rfl hordered hdistinct fun x hx => hchecked x (List.mem_cons_of_mem e hx),
      List.length_cons, Nat.add_right_comm, Nat.add_assoc]

/-- A cohort is put back just if there is an entry for each of its addresses. -/
theorem restore_eq_ok {names : List String} {last : Option Instant} :
    p.restore names last = .ok q ↔
      ∃ cohort, List.Forall₂ (fun name e => p.find? name = some e) names cohort ∧
        q = { p with cohort := Entry.sort cohort, lastRotation := last } := by
  rw [restore, bind_eq_ok]
  refine exists_congr fun cohort => and_congr ?_ ?_
  · rw [mapM_eq_ok]
    constructor
    · refine fun h => h.imp fun name e he => ?_
      split at he
      · next hfind =>
        cases he
        exact hfind
      · cases he
    · refine fun h => h.imp fun name e hfind => ?_
      rw [hfind]
  · rw [Except.ok.injEq, eq_comm]

/-- A cohort in order is found by its addresses. -/
theorem WellFormed.restore_cohort (h : p.WellFormed) {cohort : List Entry}
    (hordered : Entry.Ordered cohort) (hmem : ∀ e ∈ cohort, e ∈ p.entries.toList)
    (last : Option Instant) :
    p.restore (cohort.map (·.address)) last = .ok { p with cohort, lastRotation := last } := by
  have hfound : List.Forall₂ (fun name e => p.find? name = some e)
      (cohort.map (·.address)) cohort := by
    rw [List.forall₂_map_left_iff, List.forall₂_same]
    exact fun e he => h.find?_eq_some (hmem e he)
  refine restore_eq_ok.mpr ⟨cohort, hfound, ?_⟩
  rw [Entry.sort_eq_self hordered]

/-- What snapshots keep of a pool: all but the count of rotations. -/
def kept (p : Pool) : Pool := { p with rotations := 0 }

/-- The entries of a pool in order, and nothing else of it. -/
def entriesAlone (p : Pool) : Pool := { config := p.config, entries := p.entries }

theorem WellFormed.entriesAlone (h : p.WellFormed) : p.entriesAlone.WellFormed :=
  ⟨h.ordered, h.distinct, h.checked, .nil, fun he => absurd he List.not_mem_nil⟩

/-- A snapshot with the entries of a pool in order is turned into a pool that has them, if its cohort
can be put back there. -/
theorem WellFormed.toPool_ofParts (h : p.WellFormed) (cohort : List Entry) (last : Option Instant) :
    (Snapshot.ofParts p.entries cohort last).toPool p.config =
      p.entriesAlone.restore (cohort.map (·.address)) last := by
  have himport : ({ config := p.config } : Pool).importAll p.entries.toList =
      (p.entriesAlone, .ok p.entries.toList.length) := by
    have hnone : ({ config := p.config } : Pool).entries = ([] : List Entry).toArray := rfl
    have hgo := importAll_go_append hnone h.ordered h.distinct h.checked 0
    rw [Pool.importAll, hgo]
    simp [Pool.entriesAlone]
  have hversion : (Snapshot.ofParts p.entries cohort last).version = Snapshot.currentVersion := rfl
  rw [Snapshot.toPool, if_neg (not_not_intro hversion)]
  simp only [Snapshot.ofParts, himport]

/-- A snapshot of a pool in order is turned into what it keeps of the pool. -/
theorem WellFormed.toPool_ofPool (h : p.WellFormed) :
    (Snapshot.ofPool p).toPool p.config = .ok p.kept := by
  rw [Snapshot.ofPool, h.toPool_ofParts]
  exact h.entriesAlone.restore_cohort h.cohort (fun _ he => h.mem_of_mem_cohort he) p.lastRotation

/-- A pool in order is so with any cohort that is put back. -/
theorem WellFormed.restore (h : p.WellFormed) {addresses : List String} {last : Option Instant}
    (hq : p.restore addresses last = .ok q) : q.WellFormed ∧ q.config = p.config := by
  obtain ⟨cohort, hfound, rfl⟩ := restore_eq_ok.mp hq
  have hmem : ∀ e ∈ cohort, e ∈ p.entries.toList := by
    have hentry : List.Forall₂ (fun e _ => e ∈ p.entries.toList ∧ True) cohort addresses :=
      hfound.flip.imp fun e name hfind => ⟨by simpa using Array.mem_of_find?_eq_some hfind, trivial⟩
    exact ((List.forall₂_and_left cohort addresses).mp hentry).1
  exact ⟨⟨h.ordered, h.distinct, h.checked, Entry.ordered_sort cohort,
    fun he => hmem _ (Entry.mem_sort.mp he)⟩, rfl⟩

/-- The pool of a snapshot is in order, wherever the snapshot is from. -/
theorem wellFormed_toPool {s : Snapshot} {config : PoolConfig} (h : s.toPool config = .ok p) :
    p.WellFormed ∧ p.config = config := by
  have himport : (({ config } : Pool).importAll s.entries).1.WellFormed ∧
      (({ config } : Pool).importAll s.entries).1.config = config :=
    importAll_induction (P := fun q => q.WellFormed ∧ q.config = config)
      (fun _ _ _ _ hq hq' =>
        ⟨hq.1.activate hq', (config_activate hq').trans hq.2⟩)
      ⟨wellFormed_empty config, rfl⟩
  rw [Snapshot.toPool] at h
  split at h
  · cases h
  · split at h
    · cases h
    · next hall =>
      rw [hall] at himport
      obtain ⟨hq, hconfig⟩ := himport.1.restore h
      exact ⟨hq, hconfig.trans himport.2⟩

end Pool

end AddressExchange
