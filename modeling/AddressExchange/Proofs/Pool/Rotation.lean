import AddressExchange.Proofs.Pool.History

/-!
# Rotations and the cohort

A rotation parts the active entries in two: the newest ones, as many as the cohort may have, and those
that were active before. Nothing but a rotation, a cohort that is put back, and taking all away gives a
pool another cohort.
-/

namespace AddressExchange.Pool

variable {p : Pool}

/-! ## One rotation -/

/-- The active entries are those that are left out, and behind them the cohort. -/
theorem active_eq_append_cohort (h : Entry.Ordered p.entries.toList) (now : Instant) :
    p.active now = (p.active now).rdrop p.config.cohortSize ++ (p.rotate now).cohort := by
  rw [rotate_cohort h, List.rdrop, List.rtake, List.take_append_drop]

/-- A rotation takes as many entries as it may, or all if there are fewer. -/
theorem length_cohort_rotate (h : Entry.Ordered p.entries.toList) (now : Instant) :
    (p.rotate now).cohort.length = min p.config.cohortSize (p.active now).length := by
  rw [rotate_cohort h, List.rtake, List.length_drop]
  omega

/-- Those that are left out are not newer than those that are taken. -/
theorem le_of_left_out (h : Entry.Ordered p.entries.toList) {now : Instant} {e c : Entry}
    (he : e ∈ p.active now) (hout : e ∉ (p.rotate now).cohort) (hc : c ∈ (p.rotate now).cohort) :
    e.activatedAt ≤ c.activatedAt := by
  have hordered : Entry.Ordered (p.active now) := h.sublist List.filter_sublist
  rw [active_eq_append_cohort h now] at he hordered
  have hleft := (List.mem_append.mp he).resolve_right hout
  exact (List.pairwise_append.mp hordered).2.2 e hleft c hc

/-! ## Operations that give another cohort -/

/-- The operations that may give a pool another cohort. -/
inductive Recasts (p : Pool) : Operation → Prop
  | rotate (now : Instant) : Recasts p (.change (.rotate now))
  | rotateIfDue {now : Instant} (h : (p.rotateIfDue now).2 = true) :
      Recasts p (.change (.rotateIfDue now))
  | restore {addresses : List String} {last : Option Instant} {q : Pool}
      (h : p.restore addresses last = .ok q) : Recasts p (.restore addresses last)
  | clear : Recasts p (.change .clear)

/-- All others leave the cohort as it is. -/
theorem cohort_operate {op : Operation} (hop : ¬ p.Recasts op) :
    (p.operate op).cohort = p.cohort := by
  unfold Pool.operate
  cases op with
  | restore addresses last =>
    dsimp only
    split
    · next hq => exact absurd (.restore hq) hop
    · rfl
  | change c =>
    cases c with
    | activate text at_ =>
      dsimp only [apply]
      split
      · next hq => exact (cohort_activate hq).1
      · rfl
    | importAll es => exact (cohort_importAll p es).1
    | rotate now => exact absurd (.rotate now) hop
    | rotateIfDue now =>
      have hdue : ¬ p.isDue now := fun hdue =>
        hop (.rotateIfDue ((rotateIfDue_snd p now).trans hdue))
      dsimp only [apply]
      rw [rotateIfDue_fst, if_neg hdue]
    | clear => exact absurd .clear hop

/-- Is there no such operation among those that a pool goes through? -/
def Steady (p : Pool) : List Operation → Prop
  | [] => True
  | op :: ops => ¬ p.Recasts op ∧ (p.operate op).Steady ops

theorem cohort_operateAll {ops : List Operation} (hops : p.Steady ops) :
    (p.operateAll ops).cohort = p.cohort := by
  induction ops generalizing p with
  | nil => rfl
  | cons op ops ih => exact (ih hops.2).trans (cohort_operate hops.1)

/-- Whatever was done to a pool: a rotation makes the newest active entries the cohort, in the order of
the pool, as many as the cohort may have or all if there are fewer, and none that is left out is newer
than one that is taken; it records its instant, is counted, and leaves the entries alone. At each step of
what is done to the pool after that, and so in a whole run of steps, the cohort changes only by a
rotation, by one that was due, by a cohort that is put back, or when all is taken away. -/
theorem rotation_takes_newest (hp : p.Reachable) :
    (∀ now, let active := p.active now
      let q := p.rotate now
      q.cohort = active.rtake (min p.config.cohortSize active.length) ∧
      q.cohort.length = min p.config.cohortSize active.length ∧
      (∀ e ∈ active, e ∉ q.cohort → ∀ c ∈ q.cohort, e.activatedAt ≤ c.activatedAt) ∧
      q.lastRotation = some now ∧ q.rotations = p.rotations + 1 ∧ q.entries = p.entries) ∧
    (∀ ops op, let q := p.operateAll ops
      (q.operate op).cohort ≠ q.cohort → q.Recasts op) ∧
    ∀ ops, p.Steady ops → (p.operateAll ops).cohort = p.cohort := by
  have h := hp.wellFormed
  refine ⟨fun now => ?_, fun ops op hne => ?_, fun ops hops => cohort_operateAll hops⟩
  · intro active q
    have hlength : q.cohort.length = min p.config.cohortSize active.length :=
      length_cohort_rotate h.ordered now
    refine ⟨?_, hlength, fun e he hout c hc => le_of_left_out h.ordered he hout hc, rfl, rfl, rfl⟩
    -- To ask for more than there are is to ask for all.
    have hmin : active.length - min p.config.cohortSize active.length =
        active.length - p.config.cohortSize := by omega
    rw [List.rtake, hmin]
    exact rotate_cohort h.ordered now
  · by_contra hop
    exact hne (cohort_operate hop)

/-- Three entries of one instant stand where the cohort begins, and one entry waits. The cohort is the
last two of the three, also after a step that recasts nothing. -/
theorem rotation_takes_newest_ties :
    let p := ({ config := { cohortSize := 2 } } : Pool).operateAll [
      .change (.importAll [⟨"1A", .early 1 0⟩, ⟨"1B", .early 2 0⟩, ⟨"1C", .early 2 0⟩]),
      .change (.activate "1E" (.early 9 0)), .change (.activate "1D" (.early 2 0))]
    let q := p.rotate (.early 5 0)
    q.cohort = [⟨"1C", .early 2 0⟩, ⟨"1D", .early 2 0⟩] ∧ q.rotations = 1 ∧
      (q.operateAll [.change (.rotateIfDue (.early 4 0))]).cohort = q.cohort := by
  intro p q
  have hp : p.Reachable := (Reachable.empty _).operateAll _
  have hq : q.Reachable := hp.operate (.change (.rotate _))
  obtain ⟨hcohort, -, -, -, hrotations, -⟩ := (rotation_takes_newest hp).1 (.early 5 0)
  refine ⟨?_, ?_, (rotation_takes_newest hq).2.2 _ ⟨fun hop => ?_, trivial⟩⟩
  · rw [hcohort]
    decide +kernel
  · rw [hrotations]
    decide +kernel
  · -- The step comes at an instant before the rotation.
    cases hop with
    | rotateIfDue h => exact absurd h (by decide +kernel)

end AddressExchange.Pool
