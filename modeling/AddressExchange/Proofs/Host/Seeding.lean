import AddressExchange.Proofs.Host.Durable
import AddressExchange.Proofs.Pool.AddressList
import AddressExchange.Proofs.Pool.Merging
import AddressExchange.Proofs.Pool.Restart

/-!
# Adding a list of addresses twice

A host that starts with a list adds the first occurrences of the addresses that its pool does not have
yet. Whatever in the list is no address is passed over, and so is what is there already; nothing else
can be in the way. All that was in the pool stays. Once its addresses are there, the list adds nothing
more, at whatever time and however often the host is started with it.
-/

namespace AddressExchange

open Allocation (IsFirst firstPlace distinct mem_distinct exists_isFirst pairwise_distinct)

/-! ## What a list adds -/

/-- The entry that a pool would hold for an entry, if it has an address. -/
def Entry.checked? (e : Entry) : Option Entry :=
  match Address.check e.address with
  | .ok address => some ⟨address, e.activatedAt⟩
  | .error _ => none

/-- The entries of a list that have an address, as a pool would hold them. -/
def Entry.checked (es : List Entry) : List Entry := es.filterMap checked?

/-- Which addresses there are does not depend on the instants. -/
theorem Entry.map_address_checked (es : List Entry) :
    (checked es).map (·.address) =
      (es.map (·.address)).filterMap fun text => (Address.check text).toOption := by
  rw [checked, List.map_filterMap, List.filterMap_map]
  refine congrArg (List.filterMap · es) (funext fun e => ?_)
  rw [Function.comp_apply, checked?]
  cases Address.check e.address <;> rfl

namespace Pool

/-- The entries that a list adds to a pool: the first ones of addresses that the pool does not have. -/
def newcomers (p : Pool) (es : List Entry) : List Entry :=
  distinct (p.entries.toList.map (·.address)) (Entry.checked es)

/-- The pool with more entries, put in order. -/
def enroll (p : Pool) (added : List Entry) : Pool :=
  { p with entries := (Entry.sort (p.entries.toList ++ added)).toArray }

variable {p q : Pool} {es es' added : List Entry} {e : Entry}

theorem mem_newcomers :
    e ∈ p.newcomers es ↔
      e.address ∉ p.entries.toList.map (·.address) ∧ IsFirst (Entry.checked es) e := mem_distinct

@[simp] theorem newcomers_nil : p.newcomers [] = [] := rfl

theorem mem_addresses_enroll {address : String} :
    address ∈ (p.enroll added).entries.toList.map (·.address) ↔
      address ∈ p.entries.toList.map (·.address) ∨ address ∈ added.map (·.address) := by
  simp only [enroll, List.mem_map, Entry.mem_sort, List.mem_append, or_and_right, exists_or]

theorem enroll_nil (h : p.WellFormed) : p.enroll [] = p := by
  rw [enroll, List.append_nil, Entry.sort_eq_self h.ordered, Array.toArray_toList]

theorem enroll_enroll (p : Pool) (added more : List Entry) :
    (p.enroll added).enroll more = p.enroll (added ++ more) := by
  simp only [enroll, ← List.append_assoc, Entry.sort_sort_append]

/-- An activation adds one entry. -/
theorem activate_eq_enroll (h : p.WellFormed) {text : String} {at_ : Instant} {address : String}
    (hcheck : Address.check text = .ok address)
    (hfresh : address ∉ p.entries.toList.map (·.address)) :
    p.activate text at_ = .ok (p.enroll [⟨address, at_⟩]) := by
  refine (activate_eq_ok h.ordered).mpr ⟨address, hcheck, hfresh, ?_⟩
  rw [enroll, Entry.sort_concat, Entry.sort_eq_self h.ordered]

/-- An entry adds nothing if it has no address or one that is there, and is refused for it. -/
theorem newcomers_cons (h : p.WellFormed) (e : Entry) (es : List Entry) :
    ((∃ reason, p.activate e.address e.activatedAt = .error (.invalidAddress reason)) ∧
        p.newcomers (e :: es) = p.newcomers es) ∨
      ∃ x, p.activate e.address e.activatedAt = .ok (p.enroll [x]) ∧
        p.newcomers (e :: es) = x :: (p.enroll [x]).newcomers es := by
  cases hcheck : Address.check e.address with
  | error reason =>
    have hnone : e.checked? = none := by rw [Entry.checked?, hcheck]
    refine .inl ⟨⟨reason, by rw [activate, hcheck]⟩, ?_⟩
    rw [newcomers, newcomers, Entry.checked, List.filterMap_cons, hnone]
    rfl
  | ok address =>
    have hsome : e.checked? = some ⟨address, e.activatedAt⟩ := by rw [Entry.checked?, hcheck]
    have hcons : Entry.checked (e :: es) = ⟨address, e.activatedAt⟩ :: Entry.checked es := by
      rw [Entry.checked, List.filterMap_cons, hsome]
      rfl
    rw [newcomers, hcons, distinct]
    dsimp only
    by_cases hmem : address ∈ p.entries.toList.map (·.address)
    · rw [if_pos hmem]
      exact .inl ⟨⟨_, activate_of_mem hcheck hmem _⟩, rfl⟩
    · rw [if_neg hmem]
      refine .inr ⟨_, activate_eq_enroll h hcheck hmem, congrArg _ ?_⟩
      refine Allocation.distinct_congr (fun a => ?_) _
      rw [mem_addresses_enroll, List.map_singleton, List.mem_singleton, List.mem_cons, or_comm]

/-- A list with the same addresses adds nothing more, whatever its instants are. -/
theorem newcomers_enroll (haddresses : es'.map (·.address) = es.map (·.address)) :
    (p.enroll (p.newcomers es)).newcomers es' = [] := by
  rw [List.eq_nil_iff_forall_not_mem]
  intro e he
  obtain ⟨hfresh, hfirst⟩ := mem_newcomers.mp he
  have hchecked : e.address ∈ (Entry.checked es).map (·.address) := by
    rw [Entry.map_address_checked, ← haddresses, ← Entry.map_address_checked]
    exact List.mem_map_of_mem hfirst.mem
  obtain ⟨x, hx, haddress⟩ := exists_isFirst hchecked
  rw [mem_addresses_enroll, not_or, ← haddress] at hfresh
  exact hfresh.2 (List.mem_map_of_mem (mem_newcomers.mpr ⟨hfresh.1, hx⟩))

end Pool

/-! ## Files that are opened again -/

namespace StoredPool

variable {p q : StoredPool} {fs fs' : Files}

/-- The pool with more entries; it is marked if there are any. -/
def enroll (p : StoredPool) (added : List Entry) : StoredPool :=
  { p with pool := p.pool.enroll added, dirty := p.dirty || !added.isEmpty }

/-- Is the file opened as the pool, unless the pool is marked? -/
def Mirrored (p : StoredPool) (fs : Files) : Prop :=
  p.dirty = false → ∃ n, found p.path p.pool.config (fs.resolve p.path) =
    .ok { path := p.path, pool := { p.pool with rotations := n } }

theorem mirrored_of_openAt {path : Path} {config : PoolConfig}
    (h : (openAt path config).run fs = (.ok p, fs')) : p.Mirrored fs' := by
  intro hclean
  rw [run_openAt] at h
  obtain ⟨hfound, rfl⟩ := Prod.mk.inj h
  obtain ⟨-, hconfig, hpath⟩ := wellFormed_found hfound
  obtain ⟨path', pool, dirty⟩ := p
  obtain rfl : dirty = false := hclean
  subst hconfig hpath
  exact ⟨pool.rotations, hfound⟩

theorem Mirrored.enroll (h : p.Mirrored fs) (hp : p.pool.WellFormed) (added : List Entry) :
    (p.enroll added).Mirrored fs := by
  intro hclean
  obtain ⟨hdirty, hnone⟩ := Bool.or_eq_false_iff.mp hclean
  have hadded : added = [] := by simpa using hnone
  have hpool : (p.enroll added).pool = p.pool := by rw [hadded, StoredPool.enroll, Pool.enroll_nil hp]
  rw [hpool]
  exact h hdirty

/-- Was the pool written? Either it was saved, or flushed where its file is opened as the pool. -/
def Written (p : StoredPool) (fs fs' : Files) : Prop :=
  ∃ q, p.save.run fs = ((.ok (), q), fs') ∨
    p.Mirrored fs ∧ p.flush.run fs = ((.ok (), q), fs')

/-- A pool that was written is opened again as it was, but for the count of rotations. -/
theorem Written.openAt (h : p.Written fs fs') (hp : p.pool.WellFormed) :
    ∃ n, (StoredPool.openAt p.path p.pool.config).run fs' =
      (.ok { path := p.path, pool := { p.pool with rotations := n } }, fs') := by
  rw [run_openAt]
  suffices hfound : ∃ n, found p.path p.pool.config (fs'.resolve p.path) =
      .ok { path := p.path, pool := { p.pool with rotations := n } } by
    obtain ⟨n, hn⟩ := hfound
    exact ⟨n, by rw [hn]⟩
  have hsaved {q : StoredPool} (hsave : p.save.run fs = ((.ok (), q), fs')) :
      found p.path p.pool.config (fs'.resolve p.path) = .ok { path := p.path, pool := p.pool.kept } := by
    have hflush : ({ p with dirty := true } : StoredPool).flush.run fs = ((.ok (), q), fs') := hsave
    rw [resolve_of_flush rfl hflush]
    exact found_ofPool hp p.path true
  obtain ⟨q, hsave | ⟨hmirrored, hflush⟩⟩ := h
  · exact ⟨0, hsaved hsave⟩
  · cases hdirty : p.dirty with
    | true =>
      rw [flush, if_pos hdirty] at hflush
      exact ⟨0, hsaved hflush⟩
    | false =>
      -- Nothing was to be written, and nothing was.
      rw [flush, hdirty, if_neg Bool.false_ne_true] at hflush
      cases hflush
      exact hmirrored hdirty

end StoredPool

/-! ## Seeding -/

namespace HeldPool

variable {h : HeldPool}

/-- The held pool with more entries. -/
def enroll (h : HeldPool) (added : List Entry) : HeldPool :=
  match h with
  | memory p => memory (p.enroll added)
  | stored p => stored (p.enroll added)

@[simp] theorem pool_enroll (h : HeldPool) (added : List Entry) :
    (h.enroll added).pool = h.pool.enroll added := by
  cases h <;> rfl

theorem enroll_nil (hp : h.pool.WellFormed) : h.enroll [] = h := by
  cases h with
  | memory p => exact congrArg memory (Pool.enroll_nil hp)
  | stored p =>
    have hpool : p.pool.enroll [] = p.pool := Pool.enroll_nil hp
    rw [enroll, StoredPool.enroll, hpool, List.isEmpty_nil, Bool.not_true, Bool.or_false]

theorem enroll_cons (h : HeldPool) (x : Entry) (more : List Entry) :
    (h.enroll [x]).enroll more = h.enroll (x :: more) := by
  cases h with
  | memory p => exact congrArg memory (p.enroll_enroll [x] more)
  | stored p =>
    simp only [enroll, StoredPool.enroll, Pool.enroll_enroll, List.singleton_append, List.isEmpty_cons,
      Bool.not_false, Bool.or_true, Bool.true_or]

theorem activate_of_ok {text : String} {at_ : Instant} {x : Entry}
    (hx : h.pool.activate text at_ = .ok (h.pool.enroll [x])) :
    h.activate text at_ = .ok (h.enroll [x]) := by
  cases h with
  | memory p =>
    have hp : p.activate text at_ = .ok (p.enroll [x]) := hx
    rw [activate, hp]
    rfl
  | stored p =>
    have hp : p.pool.activate text at_ = .ok (p.pool.enroll [x]) := hx
    simp only [activate, StoredPool.activate, hp, bind, Except.bind, Except.map, enroll,
      StoredPool.enroll, List.isEmpty_cons, Bool.not_false, Bool.or_true]

end HeldPool

namespace Host

variable {h : Host}

/-- The host with more entries in its pool. -/
def enroll (h : Host) (added : List Entry) : Host := { h with pool := h.pool.enroll added }

/-- What seeding does with one entry. -/
def seedStep (state : Host × Nat) (e : Entry) : Except Failure (Host × Nat) :=
  match state.1.pool.activate e.address e.activatedAt with
  | .ok pool => .ok ({ state.1 with pool }, state.2 + 1)
  | .error (.invalidAddress _) => .ok state
  | .error e => .error e

theorem seed_eq_foldlM (h : Host) (es : List Entry) : h.seed es = es.foldlM seedStep (h, 0) := rfl

/-- Each entry is added or passed over, so seeding gets to the end of the list. -/
theorem foldlM_seedStep (hp : h.pool.pool.WellFormed) (es : List Entry) (n : Nat) :
    es.foldlM seedStep (h, n) =
        .ok (h.enroll (h.pool.pool.newcomers es), n + (h.pool.pool.newcomers es).length) ∧
      (h.pool.pool.enroll (h.pool.pool.newcomers es)).WellFormed := by
  induction es generalizing h n with
  | nil =>
    rw [Pool.newcomers_nil, enroll, HeldPool.enroll_nil hp, Pool.enroll_nil hp]
    exact ⟨rfl, hp⟩
  | cons e es ih =>
    rw [List.foldlM_cons]
    rcases Pool.newcomers_cons hp e es with ⟨⟨reason, herror⟩, hsame⟩ | ⟨x, hok, hmore⟩
    · have hstep : seedStep (h, n) e = .ok (h, n) := by
        rw [seedStep, HeldPool.activate_of_error herror]
      rw [hstep, hsame]
      exact ih hp n
    · have hstep : seedStep (h, n) e = .ok (h.enroll [x], n + 1) := by
        rw [seedStep, HeldPool.activate_of_ok hok]
        rfl
      have hpool : (h.enroll [x]).pool.pool = h.pool.pool.enroll [x] := h.pool.pool_enroll [x]
      obtain ⟨hrest, hformed⟩ := ih (hpool ▸ hp.activate hok) (n + 1)
      rw [hpool] at hrest hformed
      rw [Pool.enroll_enroll] at hformed
      have henroll : (h.enroll [x]).enroll ((h.pool.pool.enroll [x]).newcomers es) =
          h.enroll (x :: (h.pool.pool.enroll [x]).newcomers es) :=
        congrArg (fun pool => { h with pool }) (h.pool.enroll_cons x _)
      rw [henroll, Nat.add_assoc, Nat.add_comm 1] at hrest
      rw [hstep, hmore, List.length_cons]
      exact ⟨hrest, hformed⟩

theorem seed_eq (hp : h.pool.pool.WellFormed) (es : List Entry) :
    h.seed es = .ok (h.enroll (h.pool.pool.newcomers es), (h.pool.pool.newcomers es).length) := by
  rw [seed_eq_foldlM, (foldlM_seedStep hp es 0).1, Nat.zero_add]

/-- Seeding a host that lacks nothing of a list leaves it as it is. -/
theorem seed_of_no_newcomers {es : List Entry} (hp : h.pool.pool.WellFormed)
    (hnone : h.pool.pool.newcomers es = []) : h.seed es = .ok (h, 0) := by
  rw [seed_eq hp, hnone, enroll, HeldPool.enroll_nil hp]
  rfl

/-- Whatever was done to its pool, a host can be seeded with any list that is accepted. It then has the
first entries of the addresses that the list names and its pool did not have; their number is told, and
they come in as they stand in the list. (The number has no bound here. It is only told, and one of 32 bits
is the same for fewer than 2^31 addresses.) All that was in the pool stays, and so do its cohort and its
last rotation. With the same list, whatever its default is, the host adds nothing more and stays as it
is, also with the pool that is opened again after its pool was written. -/
theorem seeded_once (hpool : h.pool.pool.Reachable) {text : String} {default : Instant}
    {es : List Entry} (hparse : AddressList.parse text default = .ok es) :
    let p := h.pool.pool
    ∃ (added : List Entry) (seeded : Host), h.seed es = .ok (seeded, added.length) ∧
      (∀ e, e ∈ added ↔
        e.address ∉ p.entries.toList.map (·.address) ∧ IsFirst (Entry.checked es) e) ∧
      (added.Pairwise fun a b =>
        firstPlace (Entry.checked es) a.address < firstPlace (Entry.checked es) b.address) ∧
      seeded.settings = h.settings ∧ seeded.secretKey = h.secretKey ∧
      seeded.pool.pool = { p with entries := (Entry.sort (p.entries.toList ++ added)).toArray } ∧
      ∀ later, ∃ again, AddressList.parse text later = .ok again ∧
        seeded.seed again = .ok (seeded, 0) ∧
        ∀ s fs fs', seeded.pool = .stored s → s.Written fs fs' → ∃ n,
          let reopened : StoredPool := { path := s.path, pool := { s.pool with rotations := n } }
          let restarted : Host := { seeded with pool := .stored reopened }
          (StoredPool.openAt s.path s.pool.config).run fs' = (.ok reopened, fs') ∧
            restarted.seed again = .ok (restarted, 0) := by
  intro p
  have hp : p.WellFormed := hpool.wellFormed
  let added := p.newcomers es
  have hformed : (p.enroll added).WellFormed := (foldlM_seedStep hp es 0).2
  have henroll : (h.enroll added).pool.pool = p.enroll added := h.pool.pool_enroll added
  refine ⟨added, h.enroll added, seed_eq hp es, fun e => Pool.mem_newcomers, pairwise_distinct _ _, rfl,
    rfl, henroll, fun later => ?_⟩
  obtain ⟨again, hagain, haddresses⟩ := AddressList.parse_with_default hparse later
  have hnone : (p.enroll added).newcomers again = [] := Pool.newcomers_enroll haddresses
  refine ⟨again, hagain, seed_of_no_newcomers (henroll ▸ hformed) (henroll ▸ hnone), ?_⟩
  intro s fs fs' hs hwritten
  have hstored : s.pool = p.enroll added := by
    rw [← henroll, hs]
    rfl
  obtain ⟨n, hopen⟩ := hwritten.openAt (hstored ▸ hformed)
  refine ⟨n, hopen, seed_of_no_newcomers ?_ ?_⟩
  · exact Pool.Alike.wellFormed ⟨n, rfl⟩ (hstored ▸ hformed)
  · have hsame : ({ s.pool with rotations := n } : Pool).newcomers again = s.pool.newcomers again := rfl
    exact hsame.trans (hstored ▸ hnone)

/-- A list repeats an address with another instant, and names one that is a control character. Two
addresses are added. The host is started again later, after its pool was flushed, and adds none. -/
theorem seeded_once_flushed :
    let h := Serving.sampleStored.host
    let text := "1A\n\x01\n1A 5\n1B 7"
    ∃ es again s fs n, AddressList.parse text (.early 9 0) = .ok es ∧
      h.seed es = .ok ({ h with pool := .stored s }, 2) ∧ s.Written Serving.sampleStored.files fs ∧
      AddressList.parse text (.early 10 0) = .ok again ∧
      let reopened : StoredPool := { path := s.path, pool := { s.pool with rotations := n } }
      (StoredPool.openAt s.path s.pool.config).run fs = (.ok reopened, fs) ∧
        seed { h with pool := .stored reopened } again =
          .ok ({ h with pool := .stored reopened }, 0) := by
  intro h text
  let es : List Entry :=
    [⟨"1A", .early 9 0⟩, ⟨"\x01", .early 9 0⟩, ⟨"1A", .early 0 5000000⟩, ⟨"1B", .early 0 7000000⟩]
  have hparse : AddressList.parse text (.early 9 0) = .ok es := by
    have hsome : (AddressList.parse text (.early 9 0)).toOption = some es := by decide +kernel
    cases hp : AddressList.parse text (.early 9 0) with
    | ok x =>
      rw [hp] at hsome
      exact congrArg _ (Option.some.inj hsome)
    | error e =>
      rw [hp] at hsome
      cases hsome
  have hpool : h.pool.pool.Reachable := .empty _
  obtain ⟨added, seeded, hseed, -, -, -, -, -, hagain⟩ := seeded_once hpool hparse
  -- Seeding has only one result, and this one can be computed.
  let opened : StoredPool :=
    { path := ["pool.json"], pool := { config := Hosting.sampleSettings.pool } }
  let s : StoredPool := opened.enroll [⟨"1A", .early 9 0⟩, ⟨"1B", .early 0 7000000⟩]
  have hnew : h.pool.pool.newcomers es = [⟨"1A", .early 9 0⟩, ⟨"1B", .early 0 7000000⟩] := by
    decide +kernel
  have hresult : h.seed es = .ok ({ h with pool := .stored s }, 2) := by
    rw [seed_eq hpool.wellFormed, hnew]
    rfl
  obtain ⟨rfl, -⟩ := Prod.mk.inj (Except.ok.inj (hseed.symm.trans hresult))
  have hfresh : Serving.sampleStored.files.resolve s.path = .ok none := by decide +kernel
  have hmirrored : s.Mirrored Serving.sampleStored.files := by
    have hopen : (StoredPool.openAt s.path opened.pool.config).run Serving.sampleStored.files =
        (.ok opened, Serving.sampleStored.files) := by
      rw [StoredPool.run_openAt, hfresh]
      rfl
    exact (StoredPool.mirrored_of_openAt hopen).enroll (Pool.wellFormed_empty _) _
  obtain ⟨fs, hwrite, -⟩ := StoredPool.write_eq_ok (s := .ofPool s.pool) hfresh nofun nofun
  have hflush : s.flush.run Serving.sampleStored.files = ((.ok (), { s with dirty := false }), fs) :=
    StoredPool.save_of_write hwrite
  have hwritten : s.Written Serving.sampleStored.files fs := ⟨_, .inr ⟨hmirrored, hflush⟩⟩
  obtain ⟨again, hparsed, -, hreopened⟩ := hagain (.early 10 0)
  obtain ⟨n, hopen, hnothing⟩ := hreopened s _ fs rfl hwritten
  exact ⟨es, again, s, fs, n, hparse, hresult, hwritten, hparsed, hopen, hnothing⟩

end Host

end AddressExchange
