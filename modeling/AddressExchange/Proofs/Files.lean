import AddressExchange.Files

/-!
# Replacing files

A file that is replaced holds the new content, and a replacement that is refused leaves all files as
they were.
-/

namespace AddressExchange

namespace Files

variable {fs fs' : Files} {p : Path} {n : Node}

theorem node?_put_self (hp : p ≠ [] ∧ p ≠ [Path.root]) : (fs.put p n).node? p = some n := by
  rw [node?, if_neg (by simp [hp]), put, List.find?_cons_of_pos (by simp)]
  rfl

theorem node?_put_ne {q : Path} (h : q ≠ p) : (fs.put p n).node? q = fs.node? q := by
  have hfind : (fs.nodes.filter (·.1 ≠ p)).find? (·.1 = q) = fs.nodes.find? (·.1 = q) := by
    induction fs.nodes with
    | nil => rfl
    | cons node nodes ih =>
      by_cases hq : node.1 = q
      · simp [hq, h]
      · by_cases hn : node.1 = p
        · simpa [hn, hq, Ne.symm h] using ih
        · simpa [hn, hq] using ih
  rw [node?, node?, put, List.find?_cons_of_neg (by simpa using Ne.symm h), hfind]

theorem walk_congr (h : fs.nodes = fs'.nodes) (done steps : Path) :
    fs.walk done steps = fs'.walk done steps := by
  have hnode (q : Path) : fs.node? q = fs'.node? q := by rw [node?, node?, h]
  induction steps generalizing done with
  | nil => rw [walk, walk, hnode]
  | cons step steps ih => rw [walk, walk, hnode, ih]

/-- What a path leads to is a matter of the nodes alone. -/
theorem resolve_congr (h : fs.nodes = fs'.nodes) (q : Path) : fs.resolve q = fs'.resolve q :=
  walk_congr h [] q

/-- Nothing on the way to a path changes when a node is put there. -/
theorem walk_put {done steps : Path} {x : Option Node} (hp : p ≠ [] ∧ p ≠ [Path.root])
    (hpath : done ++ steps = p) (h : fs.walk done steps = .ok x) :
    (fs.put p n).walk done steps = .ok (some n) := by
  induction steps generalizing done with
  | nil =>
    obtain rfl : done = p := by simpa using hpath
    rw [walk, node?_put_self hp]
  | cons step steps ih =>
    -- What is on the way is shorter than the path, so it was not put.
    have hdone : done ≠ p := by
      rintro rfl
      simp at hpath
    rw [walk, node?_put_ne hdone]
    rw [walk] at h
    split at h
    · cases h
    · cases h
    · next hdirectory =>
      exact ih (by simpa using hpath) h

theorem ne_root_of_resolve {x : Option Node} (h : fs.resolve p = .ok x)
    (hx : x ≠ some .directory) : p ≠ [] ∧ p ≠ [Path.root] := by
  constructor <;> rintro rfl
  · rw [resolve, walk, node?, if_pos (.inl rfl)] at h
    exact hx (Except.ok.inj h).symm
  · rw [resolve, walk, node?, if_pos (.inl rfl)] at h
    dsimp only at h
    rw [walk, List.nil_append, node?, if_pos (.inr rfl)] at h
    exact hx (Except.ok.inj h).symm

/-- A node that is put at a path which can have one is found there. -/
theorem resolve_put {x : Option Node} (h : fs.resolve p = .ok x) (hx : x ≠ some .directory) :
    (fs.put p n).resolve p = .ok (some n) :=
  walk_put (ne_root_of_resolve h hx) (List.nil_append p) h

end Files

namespace Disk

variable {fs fs' : Files} {p : Path} {content : Bytes}

theorem nodes_of_change_ok {f : Files → Except FileFault Files}
    (h : (change f).run fs = (.ok (), fs')) : ∃ done, f fs = .ok done ∧ fs'.nodes = done.nodes := by
  unfold change at h
  simp only [ExceptT.run] at h
  split at h
  · cases h
  · split at h
    · next done hdone =>
      cases h
      exact ⟨done, hdone, rfl⟩
    · cases h

/-- A change that is refused leaves all nodes as they were. -/
theorem nodes_of_change_error {f : Files → Except FileFault Files} {e : FileFault}
    (h : (change f).run fs = (.error e, fs')) : fs'.nodes = fs.nodes := by
  unfold change at h
  simp only [ExceptT.run] at h
  split at h
  · cases h
    rfl
  · split at h <;> cases h
    rfl

/-- A disk that lets all pass does what can be done, and goes on to let all pass. -/
theorem change_eq_ok {f : Files → Except FileFault Files} (done : Files) (h : f fs = .ok done)
    (hdisk : ∀ t ∈ fs.trouble, t = none) :
    ∃ fs', (change f).run fs = (.ok (), fs') ∧ ∀ t ∈ fs'.trouble, t = none := by
  refine ⟨{ done with trouble := fs.trouble.drop 1 }, ?_,
    fun t ht => hdisk t (List.mem_of_mem_drop ht)⟩
  unfold change
  simp only [ExceptT.run]
  split
  · next e coming htrouble =>
    have hnone : some e = none := hdisk _ (htrouble ▸ List.mem_cons_self)
    cases hnone
  · rw [h]

/-- A replacement that is done leaves a file with the content. -/
theorem resolve_of_replace (h : (replace p content).run fs = (.ok (), fs')) :
    fs'.resolve p = .ok (some (.file content true)) := by
  obtain ⟨done, hdone, hnodes⟩ := nodes_of_change_ok h
  rw [Files.resolve_congr hnodes]
  cases hx : fs.resolve p with
  | error e =>
    rw [hx] at hdone
    cases hdone
  | ok x =>
    simp only [hx, bind, Except.bind] at hdone
    split at hdone
    · cases hdone
    · next hdirectory =>
      cases hdone
      exact Files.resolve_put hx hdirectory

/-- What is no directory is replaced by a disk that lets all pass. -/
theorem replace_eq_ok {x : Option Node} (h : fs.resolve p = .ok x) (hx : x ≠ some .directory)
    (hdisk : ∀ t ∈ fs.trouble, t = none) :
    ∃ fs', (replace p content).run fs = (.ok (), fs') ∧ ∀ t ∈ fs'.trouble, t = none := by
  refine change_eq_ok (fs.put p (.file content true)) ?_ hdisk
  simp only [h, bind, Except.bind]

end Disk

end AddressExchange
