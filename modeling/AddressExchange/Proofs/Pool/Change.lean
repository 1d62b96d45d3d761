import AddressExchange.Proofs.Pool

/-!
# Runs of changes to a pool

The changes that a Matcher makes to its pool, one after another. All pools that they lead to are in
order, and hold no other instants than those that were brought in.
-/

namespace AddressExchange.Pool

/-- What may be done to a pool. -/
inductive Change where
  | activate (text : String) (at_ : Instant)
  | importAll (entries : List Entry)
  | rotate (now : Instant)
  | rotateIfDue (now : Instant)
  | clear

/-- The pool after a change. An activation that is refused leaves it as it was. -/
def apply (p : Pool) : Change → Pool
  | .activate text at_ =>
    match p.activate text at_ with
    | .ok q => q
    | .error _ => p
  | .importAll es => (p.importAll es).1
  | .rotate now => p.rotate now
  | .rotateIfDue now => (p.rotateIfDue now).1
  | .clear => p.clear

/-- The pool after changes in their order. -/
def applyAll (p : Pool) (changes : List Change) : Pool := changes.foldl apply p

/-- Do all instants that a change gives to entries have a property? -/
def Change.AllInstants (P : Instant → Prop) : Change → Prop
  | .activate _ at_ => P at_
  | .importAll es => ∀ e ∈ es, P e.activatedAt
  | .rotate _ | .rotateIfDue _ | .clear => True

/-- Is a change at an instant, if it is a rotation? -/
def Change.RotatesAt (now : Instant) : Change → Prop
  | .rotate t | .rotateIfDue t => t = now
  | .activate _ _ | .importAll _ | .clear => True

variable {p q : Pool} {P : Instant → Prop}

/-- Do all entries have an instant with a property? -/
def AllInstants (P : Instant → Prop) (p : Pool) : Prop := ∀ e ∈ p.entries.toList, P e.activatedAt

/-! ## One change -/

theorem WellFormed.apply (h : p.WellFormed) (c : Change) : (p.apply c).WellFormed := by
  unfold Pool.apply
  cases c with
  | activate text at_ =>
    dsimp only
    split
    · next hq => exact h.activate hq
    · exact h
  | importAll es => exact h.importAll es
  | rotate now => exact h.rotate now
  | rotateIfDue now => exact h.rotateIfDue now
  | clear => exact wellFormed_empty p.config

theorem AllInstants.activate (hp : p.AllInstants P) (h : p.WellFormed) {text : String}
    {at_ : Instant} (hat : P at_) (hq : p.activate text at_ = .ok q) : q.AllInstants P := by
  obtain ⟨address, -, -, rfl⟩ := (activate_eq_ok h.ordered).mp hq
  intro e he
  cases Entry.mem_place.mp he with
  | inl heq => exact heq ▸ hat
  | inr he => exact hp e he

theorem AllInstants.importAll (hp : p.AllInstants P) (h : p.WellFormed) {es : List Entry}
    (hes : ∀ e ∈ es, P e.activatedAt) : (p.importAll es).1.AllInstants P := by
  -- That the pool stays in order is needed at each entry again.
  have hboth : (p.importAll es).1.WellFormed ∧ (p.importAll es).1.AllInstants P :=
    importAll_induction (P := fun p => p.WellFormed ∧ p.AllInstants P)
      (fun e he _ _ hp hq => ⟨hp.1.activate hq, hp.2.activate hp.1 (hes e he) hq⟩) ⟨h, hp⟩
  exact hboth.2

theorem AllInstants.apply (hp : p.AllInstants P) (h : p.WellFormed) {c : Change}
    (hc : c.AllInstants P) : (p.apply c).AllInstants P := by
  unfold Pool.apply
  cases c with
  | activate text at_ =>
    dsimp only
    split
    · next hq => exact hp.activate h hc hq
    · exact hp
  | importAll es => exact hp.importAll h hc
  | rotate now => exact hp
  | rotateIfDue now =>
    dsimp only
    rw [rotateIfDue_fst]
    split <;> exact hp
  | clear => exact fun e he => absurd he List.not_mem_nil

/-- A rotation takes its cohort from the active entries. -/
theorem cohort_active_rotate (h : p.WellFormed) {now : Instant} {e : Entry}
    (he : e ∈ (p.rotate now).cohort) : e.activatedAt ≤ now := by
  rw [rotate_cohort h.ordered] at he
  exact (mem_active.mp (List.mem_of_mem_drop he)).2

theorem cohort_importAll (p : Pool) (es : List Entry) :
    (p.importAll es).1.cohort = p.cohort ∧ (p.importAll es).1.lastRotation = p.lastRotation := by
  refine importAll_induction
    (P := fun q => q.cohort = p.cohort ∧ q.lastRotation = p.lastRotation)
    (fun _ _ _ _ hq hq' => ?_) ⟨rfl, rfl⟩
  obtain ⟨hcohort, hlast⟩ := cohort_activate hq'
  exact ⟨hcohort.trans hq.1, hlast.trans hq.2⟩

/-- The cohort and the instant of its rotation stay as they are, unless a change rotates or takes all
away. -/
theorem apply_cohort (p : Pool) (c : Change) :
    ((p.apply c).cohort = p.cohort ∧ (p.apply c).lastRotation = p.lastRotation) ∨
      (∃ now, (c = .rotate now ∨ c = .rotateIfDue now) ∧ p.apply c = p.rotate now) ∨
      p.apply c = { config := p.config } := by
  unfold Pool.apply
  cases c with
  | activate text at_ =>
    left
    dsimp only
    split
    · next hq => exact cohort_activate hq
    · exact ⟨rfl, rfl⟩
  | importAll es => exact .inl (cohort_importAll p es)
  | rotate now => exact .inr (.inl ⟨now, .inl rfl, rfl⟩)
  | rotateIfDue now =>
    dsimp only
    rw [rotateIfDue_fst]
    split
    · exact .inr (.inl ⟨now, .inr rfl, rfl⟩)
    · exact .inl ⟨rfl, rfl⟩
  | clear => exact .inr (.inr rfl)

/-- Only rotations give a pool another cohort, and then all of it is active. -/
theorem cohort_active_apply (h : p.WellFormed) {now : Instant}
    (hp : ∀ e ∈ p.cohort, e.activatedAt ≤ now) {c : Change} (hc : c.RotatesAt now) :
    ∀ e ∈ (p.apply c).cohort, e.activatedAt ≤ now := by
  rcases apply_cohort p c with ⟨hcohort, -⟩ | ⟨t, hrotates, hrotate⟩ | hcleared
  · exact hcohort ▸ hp
  · obtain rfl : t = now := by
      rcases hrotates with rfl | rfl <;> exact hc
    rw [hrotate]
    exact fun e he => cohort_active_rotate h he
  · rw [hcleared]
    exact fun e he => absurd he List.not_mem_nil

/-- Was each entry of the cohort active when it was rotated? -/
def ActiveAtRotation (p : Pool) : Prop :=
  ∀ e ∈ p.cohort, ∃ last, p.lastRotation = some last ∧ e.activatedAt ≤ last

theorem ActiveAtRotation.apply (hp : p.ActiveAtRotation) (h : p.WellFormed) (c : Change) :
    (p.apply c).ActiveAtRotation := by
  rcases apply_cohort p c with ⟨hcohort, hlast⟩ | ⟨now, -, hrotate⟩ | hcleared
  · rw [ActiveAtRotation, hcohort, hlast]
    exact hp
  · rw [hrotate]
    exact fun e he => ⟨now, rfl, cohort_active_rotate h he⟩
  · rw [hcleared]
    exact fun e he => absurd he List.not_mem_nil

/-! ## Whole runs -/

theorem WellFormed.applyAll (h : p.WellFormed) (cs : List Change) : (p.applyAll cs).WellFormed := by
  induction cs generalizing p with
  | nil => exact h
  | cons c cs ih => exact ih (h.apply c)

theorem AllInstants.applyAll (hp : p.AllInstants P) (h : p.WellFormed) {cs : List Change}
    (hcs : ∀ c ∈ cs, c.AllInstants P) : (p.applyAll cs).AllInstants P := by
  induction cs generalizing p with
  | nil => exact hp
  | cons c cs ih =>
    exact ih (hp.apply h (hcs c List.mem_cons_self)) (h.apply c)
      fun c' hc' => hcs c' (List.mem_cons_of_mem c hc')

theorem ActiveAtRotation.applyAll (hp : p.ActiveAtRotation) (h : p.WellFormed) (cs : List Change) :
    (p.applyAll cs).ActiveAtRotation := by
  induction cs generalizing p with
  | nil => exact hp
  | cons c cs ih => exact ih (hp.apply h c) (h.apply c)

end AddressExchange.Pool
