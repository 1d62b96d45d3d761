import AddressExchange.Proofs.Except
import AddressExchange.Proofs.Files
import AddressExchange.Proofs.Text.Literal
import Mathlib.Data.List.Induction

/-!
# What operations do to a tree

In a tree every node but the topmost ones is in a directory, so what a path leads to is the node that
is there. Each operation keeps that, and those on one file leave all other nodes as they were, whether
they are done or refused. To move a file changes what is at its two paths, and to make directories makes
those that were missing on the way; all else stays.
-/

namespace AddressExchange

namespace Files

variable {fs fs' fs'' : Files} {p q : Path} {n : Node} {step : String}

/-- Is every node in a directory? -/
def Rooted (fs : Files) : Prop :=
  ∀ p step n, fs.node? (p ++ [step]) = some n → fs.node? p = some .directory

/-- Is there a file where a directory is needed? -/
def Obstructed (fs : Files) (p : Path) : Prop :=
  ∃ q, q <+: p ∧ ∃ content ownerOnly, fs.node? q = some (.file content ownerOnly)

theorem node?_congr (h : fs'.nodes = fs.nodes) (q : Path) : fs'.node? q = fs.node? q := by
  rw [node?, node?, h]

theorem Rooted.congr (h : fs.Rooted) (hnodes : fs'.nodes = fs.nodes) : fs'.Rooted := by
  intro p step n hn
  rw [node?_congr hnodes] at hn ⊢
  exact h p step n hn

/-- It is enough that the nodes are, one by one. -/
theorem rooted_of_nodes (h : ∀ x ∈ fs.nodes, fs.node? x.1.dropLast = some .directory) :
    fs.Rooted := by
  intro p step n hn
  rw [node?] at hn
  split at hn
  · next htop =>
    rcases htop with htop | htop
    · simp at htop
    · obtain ⟨rfl, -⟩ := List.append_eq_singleton_iff.mp htop |>.resolve_right (by simp)
      exact if_pos (.inl rfl)
  · obtain ⟨x, hx, -⟩ := Option.map_eq_some_iff.mp hn
    have hpath : x.1 = p ++ [step] := by simpa using List.find?_some hx
    have hparent := h x (List.mem_of_find?_eq_some hx)
    rwa [hpath, List.dropLast_concat] at hparent

theorem node?_erase_self (hp : p ≠ [] ∧ p ≠ [Path.root]) : (fs.erase p).node? p = none := by
  rw [node?, if_neg (by simp [hp]), erase]
  simp

theorem node?_erase_ne (h : q ≠ p) : (fs.erase p).node? q = fs.node? q := by
  -- What is put at a path has no part in what is elsewhere, and to erase is to put nothing.
  have hput : (fs.put p .directory).node? q = (fs.erase p).node? q := by
    rw [node?, node?, put, erase, List.find?_cons_of_neg (by simpa using Ne.symm h)]
  rw [← hput, node?_put_ne h]

/-! ## Paths and nodes -/

/-- Who has come to the end of a way has passed directories alone. -/
theorem walk_eq_ok {done steps : Path} {x : Option Node} (h : fs.walk done steps = .ok x) :
    fs.node? (done ++ steps) = x ∧
      ∀ front last, steps = front ++ [last] → fs.node? (done ++ front) = some .directory := by
  induction steps generalizing done with
  | nil =>
    rw [walk] at h
    rw [List.append_nil]
    exact ⟨Except.ok.inj h, fun front last heq => by simp at heq⟩
  | cons step steps ih =>
    rw [walk] at h
    split at h
    · cases h
    · cases h
    · next hdone =>
      obtain ⟨hend, hfront⟩ := ih h
      rw [← List.append_cons] at hend
      refine ⟨hend, fun front last heq => ?_⟩
      cases front with
      | nil => rwa [List.append_nil]
      | cons s front =>
        obtain ⟨rfl, hsteps⟩ := List.cons.inj heq
        have := hfront front last hsteps
        rwa [← List.append_cons] at this

theorem node?_of_resolve {x : Option Node} (h : fs.resolve p = .ok x) : fs.node? p = x :=
  (walk_eq_ok h).1

theorem directory_of_resolve {x : Option Node} (h : fs.resolve (p ++ [step]) = .ok x) :
    fs.node? p = some .directory :=
  (walk_eq_ok h).2 p step rfl

theorem Rooted.directory (h : fs.Rooted) {below : Path} (hbelow : below ≠ [])
    (hn : fs.node? (p ++ below) = some n) : fs.node? p = some .directory := by
  induction below using List.reverseRecOn generalizing n with
  | nil => exact absurd rfl hbelow
  | append_singleton below step ih =>
    rw [← List.append_assoc] at hn
    have hparent := h _ _ _ hn
    cases below with
    | nil => rwa [List.append_nil] at hparent
    | cons s below => exact ih (List.cons_ne_nil s below) hparent

/-- A directory that is there has no file in its way. -/
theorem Rooted.free (h : fs.Rooted) (hp : fs.node? p = some .directory) : ¬ fs.Obstructed p := by
  rintro ⟨q, ⟨below, rfl⟩, content, ownerOnly, hfile⟩
  by_cases hbelow : below = []
  · rw [hbelow, List.append_nil] at hp
    cases hp.symm.trans hfile
  · cases (h.directory hbelow hp).symm.trans hfile

/-- In a tree a path leads to the node that is there. -/
theorem Rooted.resolve_eq (h : fs.Rooted) (hn : fs.node? p = some n) :
    fs.resolve p = .ok (some n) := by
  have hwalk (done steps : Path) (hend : fs.node? (done ++ steps) = some n) :
      fs.walk done steps = .ok (some n) := by
    induction steps generalizing done with
    | nil =>
      rw [List.append_nil] at hend
      rw [walk, hend]
    | cons step steps ih =>
      rw [walk, h.directory (List.cons_ne_nil step steps) hend]
      rw [List.append_cons] at hend
      exact ih _ hend
  exact hwalk [] p hn

/-- In a directory there is a node of a name or none. -/
theorem Rooted.resolve_child (h : fs.Rooted) (hp : fs.node? p = some .directory) (step : String) :
    fs.resolve (p ++ [step]) = .ok (fs.node? (p ++ [step])) := by
  have hwalk (done steps : Path) (hend : fs.node? (done ++ steps) = some .directory) :
      fs.walk done (steps ++ [step]) = .ok (fs.node? (done ++ steps ++ [step])) := by
    induction steps generalizing done with
    | nil =>
      rw [List.append_nil] at hend
      rw [List.nil_append, walk, hend, List.append_nil]
      rfl
    | cons s steps ih =>
      rw [List.cons_append, walk, h.directory (List.cons_ne_nil s steps) hend]
      rw [List.append_cons done s steps] at hend ⊢
      exact ih _ hend
  exact hwalk [] p hp

/-- Where no file is in the way, a path leads to the node that is there, or on a way that ends too
soon. -/
theorem resolve_of_free (hfree : ¬ fs.Obstructed p) (step : String) :
    fs.resolve (p ++ [step]) = .ok (fs.node? (p ++ [step])) ∨
      fs.resolve (p ++ [step]) = .error .notFound := by
  have hwalk (done steps : Path) (hfree : ¬ fs.Obstructed (done ++ steps)) :
      fs.walk done (steps ++ [step]) = .ok (fs.node? (done ++ steps ++ [step])) ∨
        fs.walk done (steps ++ [step]) = .error .notFound := by
    induction steps generalizing done with
    | nil =>
      rw [List.append_nil] at hfree ⊢
      rw [List.nil_append, walk]
      split
      · exact .inr rfl
      · next hfile => exact absurd ⟨done, List.prefix_rfl, _, _, hfile⟩ hfree
      · exact .inl rfl
    | cons s steps ih =>
      rw [List.cons_append, walk]
      split
      · exact .inr rfl
      · next hfile => exact absurd ⟨done, List.prefix_append _ _, _, _, hfile⟩ hfree
      · rw [List.append_cons done s steps] at hfree ⊢
        exact ih _ hfree
  exact hwalk [] p hfree

/-! ## One node -/

/-- Is a tree what another one is but for the node at one path? -/
structure Touches (fs : Files) (p : Path) (fs' : Files) : Prop where
  rooted : fs'.Rooted
  elsewhere : ∀ q, q ≠ p → fs'.node? q = fs.node? q

theorem Rooted.touches_of_nodes (h : fs.Rooted) (hnodes : fs'.nodes = fs.nodes) (p : Path) :
    fs.Touches p fs' :=
  ⟨h.congr hnodes, fun q _ => node?_congr hnodes q⟩

theorem Touches.trans (h : fs.Touches p fs') (h' : fs'.Touches p fs'') : fs.Touches p fs'' :=
  ⟨h'.rooted, fun q hq => (h'.elsewhere q hq).trans (h.elsewhere q hq)⟩

theorem Touches.congr (h : fs.Touches p fs') (hnodes : fs''.nodes = fs'.nodes) :
    fs.Touches p fs'' :=
  h.trans (h.rooted.touches_of_nodes hnodes p)

/-- A node that is no directory has nothing below it, so another one may stand there as well. -/
theorem Rooted.touches_put (h : fs.Rooted) (hnode : fs.node? p ≠ some .directory)
    (hparent : ∀ front last, p = front ++ [last] → fs.node? front = some .directory) (n : Node) :
    fs.Touches p (fs.put p n) := by
  refine ⟨fun q step m hm => ?_, fun q hq => node?_put_ne hq⟩
  by_cases hstep : q ++ [step] = p
  · have hq : q ≠ p := by
      rintro rfl
      simp at hstep
    rw [node?_put_ne hq]
    exact hparent q step hstep.symm
  · rw [node?_put_ne hstep] at hm
    have hdirectory := h q step m hm
    have hq : q ≠ p := fun heq => hnode (heq ▸ hdirectory)
    rwa [node?_put_ne hq]

theorem Rooted.touches_erase (h : fs.Rooted) (hnode : fs.node? p ≠ some .directory) :
    fs.Touches p (fs.erase p) := by
  have hp : p ≠ [] ∧ p ≠ [Path.root] := by
    constructor <;> rintro rfl <;> exact hnode (by simp [node?])
  refine ⟨fun q step m hm => ?_, fun q hq => node?_erase_ne hq⟩
  have hstep : q ++ [step] ≠ p := by
    intro heq
    rw [heq, node?_erase_self hp] at hm
    cases hm
  rw [node?_erase_ne hstep] at hm
  have hdirectory := h q step m hm
  have hq : q ≠ p := fun heq => hnode (heq ▸ hdirectory)
  rwa [node?_erase_ne hq]

/-- What is in a directory is not on the way to it. -/
theorem not_prefix_concat (p : Path) (step : String) : ¬ p ++ [step] <+: p := by
  intro h
  have hlength := h.length_le
  rw [List.length_append, List.length_singleton] at hlength
  exact Nat.not_succ_le_self _ hlength

/-- Is what is at `q` as it was, or a directory that was missing on the way to `p`? -/
def KeepsAt (fs : Files) (p : Path) (fs' : Files) (q : Path) : Prop :=
  fs'.node? q = fs.node? q ∨ fs.node? q = none ∧ fs'.node? q = some .directory ∧ q <+: p

theorem KeepsAt.trans (h : fs.KeepsAt p fs' q) (h' : fs'.KeepsAt p fs'' q) : fs.KeepsAt p fs'' q := by
  rcases h with hsame | ⟨hnone, hmade, hway⟩
  · rcases h' with hsame' | ⟨hnone', hmade'⟩
    · exact .inl (hsame'.trans hsame)
    · exact .inr ⟨hsame.symm.trans hnone', hmade'⟩
  · rcases h' with hsame' | ⟨hnone', -⟩
    · exact .inr ⟨hnone, hsame'.trans hmade, hway⟩
    · cases hmade.symm.trans hnone'

theorem KeepsAt.node?_eq (h : fs.KeepsAt p fs' q) (hway : ¬ q <+: p) : fs'.node? q = fs.node? q :=
  h.resolve_right fun hmade => hway hmade.2.2

/-- A file stays. -/
theorem KeepsAt.file (h : fs.KeepsAt p fs' q) {content : Bytes} {ownerOnly : Bool} :
    fs'.node? q = some (.file content ownerOnly) ↔ fs.node? q = some (.file content ownerOnly) := by
  rcases h with hsame | ⟨hnone, hmade, -⟩
  · rw [hsame]
  · simp [hnone, hmade]

end Files

/-! ## Operations -/

namespace Disk

open Files (Rooted Touches node?_of_resolve directory_of_resolve node?_congr node?_put_self
  node?_erase_self ne_root_of_resolve)

variable {fs fs' : Files} {p : Path} {e : FileFault} {content held : Bytes} {ownerOnly : Bool}

/-- Does the disk let all operations pass? -/
def Calm (fs : Files) : Prop := ∀ t ∈ fs.trouble, t = none

/-- Does the disk itself refuse one of the coming operations that write? They count from 0. -/
def Refuses (fs : Files) (turn : Nat) : Prop := ∃ e, fs.trouble[turn]? = some (some e)

theorem Calm.not_refuses (h : Calm fs) (turn : Nat) : ¬ Refuses fs turn := by
  rintro ⟨e, he⟩
  cases h _ (List.mem_of_getElem? he)

/-- What was the turn of an operation comes sooner when others have had theirs. -/
theorem refuses_of_drop {done turn : Nat} (h : fs'.trouble = fs.trouble.drop done) :
    Refuses fs' turn ↔ Refuses fs (done + turn) := by
  rw [Refuses, Refuses, h, List.getElem?_drop]

theorem trouble_change {f : Files → Except FileFault Files} {result : Except FileFault Unit}
    (hrun : (change f).run fs = (result, fs')) : fs'.trouble = fs.trouble.drop 1 := by
  unfold change at hrun
  simp only [ExceptT.run] at hrun
  split at hrun
  · next htrouble =>
    cases hrun
    rw [htrouble]
    rfl
  · split at hrun <;> cases hrun <;> rfl

/-- A calm disk refuses what the operation itself refuses, and stays calm. -/
theorem change_eq_error {f : Files → Except FileFault Files} (h : f fs = .error e) (hcalm : Calm fs) :
    ∃ fs', (change f).run fs = (.error e, fs') ∧ Calm fs' := by
  refine ⟨{ fs with trouble := fs.trouble.drop 1 }, ?_, fun t ht => hcalm t (List.mem_of_mem_drop ht)⟩
  unfold change
  simp only [ExceptT.run]
  split
  · next e' coming htrouble =>
    have hnone : some e' = none := hcalm _ (htrouble ▸ List.mem_cons_self)
    cases hnone
  · rw [h]

/-- Where a path leads to what is no directory, a node may be put. -/
theorem touches_put_of_resolve (h : fs.Rooted) {x : Option Node} (hx : fs.resolve p = .ok x)
    (hdirectory : x ≠ some .directory) (n : Node) :
    fs.Touches p (fs.put p n) ∧ (fs.put p n).node? p = some n := by
  refine ⟨h.touches_put (node?_of_resolve hx ▸ hdirectory) (fun front last heq => ?_) n,
    node?_put_self (ne_root_of_resolve hx hdirectory)⟩
  subst heq
  exact directory_of_resolve hx

theorem touches_extend (h : fs.Rooted) (hp : fs.node? p = some (.file held ownerOnly))
    (content : Bytes) :
    fs.Touches p (fs.extend p content) ∧
      (fs.extend p content).node? p = some (.file (held ++ content) ownerOnly) := by
  rw [Files.extend, hp]
  exact touches_put_of_resolve h (h.resolve_eq hp) nofun _

/-! ### Files -/

/-- A file that is opened to be written anew is there, and empty. -/
theorem openEmpty_ok (h : fs.Rooted) (hrun : (openEmpty p).run fs = (.ok (), fs')) :
    fs.Touches p fs' ∧ ∃ ownerOnly, fs'.node? p = some (.file [] ownerOnly) := by
  obtain ⟨done, hdone, hnodes⟩ := nodes_of_change_ok hrun
  obtain ⟨x, hx, hdone⟩ := bind_eq_ok.mp hdone
  rw [node?_congr hnodes]
  split at hdone
  · cases hdone
  · next ownerOnly =>
    cases hdone
    obtain ⟨htouches, hnode⟩ := touches_put_of_resolve h hx nofun (.file [] ownerOnly)
    exact ⟨htouches.congr hnodes, ownerOnly, hnode⟩
  · cases hdone
    obtain ⟨htouches, hnode⟩ := touches_put_of_resolve h hx nofun (.file [] false)
    exact ⟨htouches.congr hnodes, false, hnode⟩

theorem openNewPrivate_ok (h : fs.Rooted) (hrun : (openNewPrivate p).run fs = (.ok (), fs')) :
    fs.Touches p fs' ∧ fs'.node? p = some (.file [] true) := by
  obtain ⟨done, hdone, hnodes⟩ := nodes_of_change_ok hrun
  obtain ⟨x, hx, hdone⟩ := bind_eq_ok.mp hdone
  rw [node?_congr hnodes]
  split at hdone
  · cases hdone
  · cases hdone
    obtain ⟨htouches, hnode⟩ := touches_put_of_resolve h hx nofun (.file [] true)
    exact ⟨htouches.congr hnodes, hnode⟩

theorem remove_ok (h : fs.Rooted) (hrun : (remove p).run fs = (.ok (), fs')) :
    fs.Touches p fs' ∧ fs'.node? p = none := by
  obtain ⟨done, hdone, hnodes⟩ := nodes_of_change_ok hrun
  obtain ⟨x, hx, hdone⟩ := bind_eq_ok.mp hdone
  rw [node?_congr hnodes]
  split at hdone
  · cases hdone
  · cases hdone
  · cases hdone
    have hnode : fs.node? p ≠ some .directory := by
      rw [node?_of_resolve hx]
      exact nofun
    exact ⟨(h.touches_erase hnode).congr hnodes, node?_erase_self (ne_root_of_resolve hx nofun)⟩

/-- What is written behind the content of a file is there. -/
theorem append_ok (h : fs.Rooted) (hp : fs.node? p = some (.file held ownerOnly))
    (hrun : (append p content).run fs = (.ok (), fs')) :
    fs.Touches p fs' ∧ fs'.node? p = some (.file (held ++ content) ownerOnly) := by
  have hnodes : fs'.nodes = (fs.extend p content).nodes := by
    unfold append at hrun
    simp only [ExceptT.run] at hrun
    split at hrun <;> cases hrun
    rfl
  rw [node?_congr hnodes]
  obtain ⟨htouches, hnode⟩ := touches_extend h hp content
  exact ⟨htouches.congr hnodes, hnode⟩

/-- If the disk refuses what is written, a beginning of it is there. -/
theorem append_error (h : fs.Rooted) (hp : fs.node? p = some (.file held ownerOnly))
    (hrun : (append p content).run fs = (.error e, fs')) :
    fs.Touches p fs' ∧ ∃ n, fs'.node? p = some (.file (held ++ content.take n) ownerOnly) := by
  obtain ⟨n, hnodes⟩ : ∃ n, fs'.nodes = (fs.extend p (content.take n)).nodes := by
    unfold append at hrun
    simp only [ExceptT.run] at hrun
    split at hrun <;> cases hrun
    exact ⟨_, rfl⟩
  rw [node?_congr hnodes]
  obtain ⟨htouches, hnode⟩ := touches_extend h hp (content.take n)
  exact ⟨htouches.congr hnodes, n, hnode⟩

theorem trouble_append {result : Except FileFault Unit}
    (hrun : (append p content).run fs = (result, fs')) : fs'.trouble = fs.trouble.drop 1 := by
  unfold append at hrun
  simp only [ExceptT.run] at hrun
  split at hrun
  · next htrouble =>
    cases hrun
    rw [htrouble]
    rfl
  · cases hrun
    rfl

theorem refuses_of_append_error (hrun : (append p content).run fs = (.error e, fs')) :
    Refuses fs 0 := by
  unfold append at hrun
  simp only [ExceptT.run] at hrun
  split at hrun
  · next e' coming htrouble => exact ⟨e', by rw [htrouble]; rfl⟩
  · cases hrun

/-- What is handed over is there, or a beginning of it if the disk refuses it. -/
theorem handOver_ok (h : fs.Rooted) (hp : fs.node? p = some (.file held ownerOnly))
    (hrun : (handOver p content).run fs = (.ok (), fs')) :
    fs.Touches p fs' ∧ ∃ n, fs'.node? p = some (.file (held ++ content.take n) ownerOnly) ∧
      (¬ Refuses fs 0 → content.take n = content) := by
  have hfs : ((append p content).run fs).2 = fs' := congrArg Prod.snd hrun
  cases happend : (append p content).run fs with
  | mk result done =>
    obtain rfl : done = fs' := by rw [← hfs, happend]
    cases result with
    | ok _ =>
      obtain ⟨htouches, hnode⟩ := append_ok h hp happend
      exact ⟨htouches, content.length, by rw [List.take_length, hnode], fun _ => List.take_length⟩
    | error e =>
      obtain ⟨htouches, n, hnode⟩ := append_error h hp happend
      exact ⟨htouches, n, hnode, fun hnot => absurd (refuses_of_append_error happend) hnot⟩

theorem append_of_calm (h : Calm fs) (p : Path) (content : Bytes) :
    ∃ fs', (append p content).run fs = (.ok (), fs') ∧ Calm fs' := by
  refine ⟨{ fs.extend p content with trouble := fs.trouble.drop 1 }, ?_,
    fun t ht => h t (List.mem_of_mem_drop ht)⟩
  unfold append
  simp only [ExceptT.run]
  split
  · next e coming htrouble =>
    have hnone : some e = none := h _ (htrouble ▸ List.mem_cons_self)
    cases hnone
  · rfl

theorem handOver_of_calm (h : Calm fs) (p : Path) (content : Bytes) :
    ∃ fs', (handOver p content).run fs = (.ok (), fs') ∧ Calm fs' := by
  obtain ⟨fs', happend, hcalm⟩ := append_of_calm h p content
  have hrun : (handOver p content).run fs = (.ok (), ((append p content).run fs).2) := rfl
  exact ⟨fs', by rw [hrun, happend], hcalm⟩

theorem nodes_of_sync_ok (hrun : sync.run fs = (.ok (), fs')) : fs'.nodes = fs.nodes := by
  obtain ⟨done, hdone, hnodes⟩ := nodes_of_change_ok hrun
  cases hdone
  exact hnodes

theorem write_ok (h : fs.Rooted) (hrun : (write p content).run fs = (.ok (), fs')) :
    fs.Touches p fs' ∧ ∃ ownerOnly, fs'.node? p = some (.file content ownerOnly) := by
  rw [write, run_bind] at hrun
  split at hrun
  · next hopen =>
    obtain ⟨hopened, ownerOnly, hnode⟩ := openEmpty_ok h hopen
    obtain ⟨htouches, hnode⟩ := append_ok hopened.rooted hnode hrun
    exact ⟨hopened.trans htouches, ownerOnly, hnode⟩
  · cases hrun

theorem trouble_write (hrun : (write p content).run fs = (.ok (), fs')) :
    fs'.trouble = fs.trouble.drop 2 := by
  rw [write, run_bind] at hrun
  split at hrun
  · next hopen => rw [trouble_append hrun, trouble_change hopen, List.drop_drop]
  · cases hrun

/-- A file that cannot be opened is as it was; one that cannot be written has a beginning of what it
should have. -/
theorem write_error (h : fs.Rooted) (hrun : (write p content).run fs = (.error e, fs')) :
    fs.Touches p fs' ∧ (fs'.node? p = fs.node? p ∨
      ∃ n ownerOnly, fs'.node? p = some (.file (content.take n) ownerOnly)) := by
  rw [write, run_bind] at hrun
  split at hrun
  · next hopen =>
    obtain ⟨hopened, ownerOnly, hnode⟩ := openEmpty_ok h hopen
    obtain ⟨htouches, n, hnode⟩ := append_error hopened.rooted hnode hrun
    exact ⟨hopened.trans htouches, .inr ⟨n, ownerOnly, hnode⟩⟩
  · next hopen =>
    cases hrun
    have hnodes := nodes_of_change_error hopen
    exact ⟨h.touches_of_nodes hnodes p, .inl (node?_congr hnodes p)⟩

/-- A file that is moved is at its new path, in place of the one that was there, and at no other. -/
theorem rename_ok {source target : Path} (h : fs.Rooted)
    (hsource : fs.node? source = some (.file content ownerOnly))
    (hrun : (rename source target).run fs = (.ok (), fs')) :
    fs'.Rooted ∧ fs'.node? target = some (.file content ownerOnly) ∧
      (source ≠ target → fs'.node? source = none) ∧
      ∀ q, q ≠ source → q ≠ target → fs'.node? q = fs.node? q := by
  obtain ⟨done, hdone, hnodes⟩ := nodes_of_change_ok hrun
  obtain ⟨node, hnode, hdone⟩ := bind_eq_ok.mp hdone
  obtain ⟨x, hx, hdone⟩ := bind_eq_ok.mp hdone
  obtain rfl := (node?_of_resolve hnode).symm.trans hsource
  have hdirectory : x ≠ some .directory := by
    rintro rfl
    cases hdone
  obtain rfl : (fs.erase source).put target (.file content ownerOnly) = done := by
    match x with
    | none | some (.file _ _) => exact Except.ok.inj hdone
    | some .directory => exact absurd rfl hdirectory
  have herased : fs.Touches source (fs.erase source) := h.touches_erase (by simp [hsource])
  have hput : (fs.erase source).Touches target
      ((fs.erase source).put target (.file content ownerOnly)) := by
    refine herased.rooted.touches_put ?_ (fun front last heq => ?_) _
    · by_cases hsame : target = source
      · rw [hsame, node?_erase_self (ne_root_of_resolve hnode nofun)]
        exact nofun
      · rw [herased.elsewhere target hsame, node?_of_resolve hx]
        exact hdirectory
    · -- The file that is taken away is not on the way to the new path.
      subst heq
      have hfront := directory_of_resolve hx
      have hne : front ≠ source := by
        rintro rfl
        cases hfront.symm.trans hsource
      rw [herased.elsewhere front hne, hfront]
  refine ⟨hput.rooted.congr hnodes, ?_, fun hne => ?_, fun q hqsource hqtarget => ?_⟩
  · rw [node?_congr hnodes, node?_put_self (ne_root_of_resolve hx hdirectory)]
  · rw [node?_congr hnodes, hput.elsewhere source hne,
      node?_erase_self (ne_root_of_resolve hnode nofun)]
  · rw [node?_congr hnodes, hput.elsewhere q hqtarget, herased.elsewhere q hqsource]

theorem run_readText {s : String} (h : fs.resolve p = .ok (some (.file (Text.utf8 s) ownerOnly))) :
    (readText p).run fs = (.ok s, fs) := by
  have hread : (read p).run fs = (fs.contentOf p, fs) := rfl
  have hcontent : fs.contentOf p = .ok (Text.utf8 s) := by
    rw [Files.contentOf, h]
    rfl
  rw [readText, run_bind, hread, hcontent]
  simp only [Text.decode?_utf8]
  rfl

/-! ### Directories -/

/-- The directories along a path are made one in the other; all else stays. -/
theorem makeDirectories_go {done steps : Path} (h : fs.Rooted)
    (hdone : fs.node? done = some .directory) (hgo : makeDirectories.go fs done steps = .ok fs') :
    fs'.Rooted ∧ fs'.node? (done ++ steps) = some .directory ∧
      ∀ q, ¬ q <+: done ++ steps → fs'.node? q = fs.node? q := by
  induction steps generalizing fs done with
  | nil =>
    cases hgo
    rw [List.append_nil]
    exact ⟨h, hdone, fun q _ => rfl⟩
  | cons step steps ih =>
    rw [makeDirectories.go] at hgo
    rw [List.append_cons]
    split at hgo
    · next hhere => exact ih h hhere hgo
    · cases hgo
    · next hhere =>
      have hroot : done ++ [step] ≠ [] ∧ done ++ [step] ≠ [Path.root] := by
        constructor <;> intro heq <;> rw [heq] at hhere <;> simp [Files.node?] at hhere
      have hnone : fs.node? (done ++ [step]) ≠ some .directory := by simp [hhere]
      have htouches : fs.Touches (done ++ [step]) (fs.put (done ++ [step]) .directory) := by
        refine h.touches_put hnone (fun front last heq => ?_) _
        obtain ⟨rfl, -⟩ := List.append_inj' heq rfl
        exact hdone
      obtain ⟨hrooted, hend, helse⟩ := ih htouches.rooted (node?_put_self hroot) hgo
      refine ⟨hrooted, hend, fun q hq => (helse q hq).trans (htouches.elsewhere q ?_)⟩
      rintro rfl
      exact hq (List.prefix_append _ _)

theorem makeDirectories_ok (h : fs.Rooted) (hrun : (makeDirectories p).run fs = (.ok (), fs')) :
    fs'.Rooted ∧ fs'.node? p = some .directory ∧
      ∀ q, ¬ q <+: p → fs'.node? q = fs.node? q := by
  obtain ⟨done, hdone, hnodes⟩ := nodes_of_change_ok hrun
  have htop : fs.node? [] = some .directory := if_pos (.inl rfl)
  obtain ⟨hrooted, hend, helse⟩ := makeDirectories_go h htop hdone
  refine ⟨hrooted.congr hnodes, (node?_congr hnodes p).trans hend, fun q hq => ?_⟩
  exact (node?_congr hnodes q).trans (helse q hq)

theorem makeDirectories_go_keeps {done steps q : Path} {n : Node}
    (hgo : makeDirectories.go fs done steps = .ok fs') (hq : fs.node? q = some n) :
    fs'.node? q = some n := by
  induction steps generalizing fs done with
  | nil =>
    cases hgo
    exact hq
  | cons step steps ih =>
    rw [makeDirectories.go] at hgo
    split at hgo
    · exact ih hgo hq
    · cases hgo
    · next hhere =>
      have hne : q ≠ done ++ [step] := by
        rintro rfl
        cases hhere.symm.trans hq
      exact ih hgo ((Files.node?_put_ne hne).trans hq)

/-- Whatever is there stays as it is when directories are made. -/
theorem makeDirectories_keepsAt (h : fs.Rooted) (hrun : (makeDirectories p).run fs = (.ok (), fs'))
    (q : Path) : fs.KeepsAt p fs' q := by
  obtain ⟨hrooted, hend, helse⟩ := makeDirectories_ok h hrun
  cases hq : fs.node? q with
  | some n =>
    obtain ⟨done, hdone, hnodes⟩ := nodes_of_change_ok hrun
    rw [Files.KeepsAt, hq, node?_congr hnodes]
    exact .inl (makeDirectories_go_keeps hdone hq)
  | none =>
    by_cases hway : q <+: p
    · obtain ⟨below, rfl⟩ := hway
      have hmade : fs'.node? q = some .directory := by
        by_cases hbelow : below = []
        · rwa [hbelow, List.append_nil] at hend
        · exact hrooted.directory hbelow hend
      exact .inr ⟨hq, hmade, List.prefix_append q below⟩
    · exact .inl (helse q hway)

/-! ### Calm disks -/

theorem openEmpty_of_calm {x : Option Node} (hx : fs.resolve p = .ok x)
    (hdirectory : x ≠ some .directory) (hcalm : Calm fs) :
    ∃ fs', (openEmpty p).run fs = (.ok (), fs') ∧ Calm fs' := by
  match x with
  | none =>
    refine change_eq_ok (fs.put p (.file [] false)) ?_ hcalm
    rw [hx]
    rfl
  | some (.file _ ownerOnly) =>
    refine change_eq_ok (fs.put p (.file [] ownerOnly)) ?_ hcalm
    rw [hx]
    rfl
  | some .directory => exact absurd rfl hdirectory

/-- A calm disk writes a file, but not over a directory. -/
theorem write_of_calm {x : Option Node} (hx : fs.resolve p = .ok x) (hcalm : Calm fs)
    (content : Bytes) :
    (∃ fs', (write p content).run fs = (.ok (), fs') ∧ Calm fs') ∨
      x = some .directory ∧
        ∃ e fs', (write p content).run fs = (.error e, fs') ∧ fs'.nodes = fs.nodes := by
  by_cases hdirectory : x = some .directory
  · obtain ⟨fs', hopen, -⟩ : ∃ fs', (openEmpty p).run fs = (.error .isDirectory, fs') ∧ Calm fs' := by
      refine change_eq_error ?_ hcalm
      rw [hx, hdirectory]
      rfl
    refine .inr ⟨hdirectory, .isDirectory, fs', ?_, nodes_of_change_error hopen⟩
    rw [write, run_bind, hopen]
  · obtain ⟨fs₁, hopen, hcalm₁⟩ := openEmpty_of_calm hx hdirectory hcalm
    obtain ⟨fs₂, happend, hcalm₂⟩ := append_of_calm hcalm₁ p content
    refine .inl ⟨fs₂, ?_, hcalm₂⟩
    rw [write, run_bind, hopen]
    exact happend

theorem openNewPrivate_of_calm (hx : fs.resolve p = .ok none) (hcalm : Calm fs) :
    ∃ fs', (openNewPrivate p).run fs = (.ok (), fs') ∧ Calm fs' := by
  refine change_eq_ok (fs.put p (.file [] true)) ?_ hcalm
  rw [hx]
  rfl

theorem sync_of_calm (hcalm : Calm fs) : ∃ fs', sync.run fs = (.ok (), fs') ∧ Calm fs' :=
  change_eq_ok fs rfl hcalm

/-- A calm disk removes a file, or finds that there is none. -/
theorem remove_of_calm {x : Option Node} (hx : fs.resolve p = .ok x)
    (hdirectory : x ≠ some .directory) (hcalm : Calm fs) :
    (∃ fs', (remove p).run fs = (.ok (), fs') ∧ Calm fs') ∨
      x = none ∧ ∃ fs', (remove p).run fs = (.error .notFound, fs') ∧ Calm fs' := by
  match x with
  | none =>
    refine .inr ⟨rfl, change_eq_error ?_ hcalm⟩
    rw [hx]
    rfl
  | some (.file _ _) =>
    refine .inl (change_eq_ok (fs.erase p) ?_ hcalm)
    rw [hx]
    rfl
  | some .directory => exact absurd rfl hdirectory

/-- A calm disk moves a file, but not over a directory. -/
theorem rename_of_calm {source target : Path} {x : Option Node}
    (hsource : fs.resolve source = .ok (some (.file content ownerOnly)))
    (htarget : fs.resolve target = .ok x) (hdirectory : x ≠ some .directory) (hcalm : Calm fs) :
    ∃ fs', (rename source target).run fs = (.ok (), fs') ∧ Calm fs' := by
  refine change_eq_ok ((fs.erase source).put target (.file content ownerOnly)) ?_ hcalm
  rw [hsource, htarget]
  match x with
  | none | some (.file _ _) => rfl
  | some .directory => exact absurd rfl hdirectory

theorem makeDirectories_go_eq_ok {done steps : Path} (hfree : ¬ fs.Obstructed (done ++ steps)) :
    ∃ fs', makeDirectories.go fs done steps = .ok fs' := by
  induction steps generalizing fs done with
  | nil => exact ⟨fs, rfl⟩
  | cons step steps ih =>
    rw [List.append_cons] at hfree
    rw [makeDirectories.go]
    split
    · exact ih hfree
    · next hhere => exact absurd ⟨_, List.prefix_append _ _, _, _, hhere⟩ hfree
    · next hhere =>
      have hroot : done ++ [step] ≠ [] ∧ done ++ [step] ≠ [Path.root] := by
        constructor <;> intro heq <;> rw [heq] at hhere <;> simp [Files.node?] at hhere
      refine ih ?_
      rintro ⟨q, hq, content, ownerOnly, hfile⟩
      have hsame : q ≠ done ++ [step] := by
        rintro rfl
        rw [node?_put_self hroot] at hfile
        cases hfile
      rw [Files.node?_put_ne hsame] at hfile
      exact hfree ⟨q, hq, content, ownerOnly, hfile⟩

/-- A calm disk makes directories, unless there is a file in the way. -/
theorem makeDirectories_of_calm (hcalm : Calm fs) (p : Path) :
    (∃ fs', (makeDirectories p).run fs = (.ok (), fs') ∧ Calm fs') ∨
      fs.Obstructed p ∧
        ∃ e fs', (makeDirectories p).run fs = (.error e, fs') ∧ fs'.nodes = fs.nodes := by
  cases hgo : makeDirectories.go fs [] p with
  | ok done => exact .inl (change_eq_ok done hgo hcalm)
  | error e =>
    obtain ⟨fs', hrun, -⟩ : ∃ fs', (makeDirectories p).run fs = (.error e, fs') ∧ Calm fs' :=
      change_eq_error hgo hcalm
    refine .inr ⟨?_, e, fs', hrun, nodes_of_change_error hrun⟩
    by_contra hfree
    have hok : ∃ done, makeDirectories.go fs [] p = .ok done := makeDirectories_go_eq_ok hfree
    obtain ⟨done, hdone⟩ := hok
    cases hgo.symm.trans hdone

end Disk

end AddressExchange
