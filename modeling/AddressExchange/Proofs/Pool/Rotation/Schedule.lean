import AddressExchange.Proofs.Pool.Change
import Mathlib.Data.List.Chain

/-!
# Rotations on schedule

Any number of callers ask a pool to rotate if that is due, or only whether it is, at whatever instants
their clocks show, while others activate addresses. Each of them has the pool to itself while it looks
and rotates, so what they do is one sequence of visits. The rotations that come of it are apart by the
interval at least.
-/

namespace AddressExchange.Pool

variable {p : Pool}

/-- What a caller does to a pool. -/
inductive Visit where
  | rotateIfDue (now : Instant)
  | isDue (now : Instant)
  | activate (text : String) (at_ : Instant)

/-- Does a visit ask about an instant outside leap seconds, if it asks about one? -/
def Visit.IsPlain : Visit → Prop
  | .rotateIfDue now | .isDue now => now.IsPlain
  | .activate _ _ => True

/-- The pool after a visit. -/
def visit (p : Pool) : Visit → Pool
  | .rotateIfDue now => p.apply (.rotateIfDue now)
  | .isDue _ => p
  | .activate text at_ => p.apply (.activate text at_)

/-- The pool after visits in their order. -/
def visitAll (p : Pool) (visits : List Visit) : Pool := visits.foldl visit p

/-- The instant of the rotation that a visit brings, if it brings one. -/
def rotatedBy (p : Pool) : Visit → Option Instant
  | .rotateIfDue now => if (p.rotateIfDue now).2 then some now else none
  | .isDue _ | .activate _ _ => none

/-- The instants of the rotations that visits bring, in their order. -/
def rotatedAt (p : Pool) : List Visit → List Instant
  | [] => []
  | v :: vs => (p.rotatedBy v).toList ++ (p.visit v).rotatedAt vs

/-! ## One visit -/

/-- A rotation is due if there was none, or if the interval has passed since the last one. -/
theorem isDue_iff {now : Instant} :
    p.isDue now = true ↔
      ∀ last, p.lastRotation = some last → (p.config.interval : Int) ≤ last.elapsed now := by
  rw [isDue]
  cases p.lastRotation with
  | none => simp
  | some last =>
    simp only [Bool.and_eq_true, decide_eq_true_eq, Option.some.injEq, forall_eq']
    omega

/-- A call that does not rotate changes nothing. -/
theorem rotateIfDue_of_false {now : Instant} (h : (p.rotateIfDue now).2 = false) :
    (p.rotateIfDue now).1 = p := by
  rw [rotateIfDue_snd] at h
  rw [rotateIfDue_fst, if_neg (Bool.eq_false_iff.mp h)]

theorem rotatedBy_eq_some {v : Visit} {t : Instant} :
    p.rotatedBy v = some t ↔ v = .rotateIfDue t ∧ p.isDue t = true := by
  cases v with
  | rotateIfDue now =>
    rw [rotatedBy, rotateIfDue_snd, Option.ite_none_right_eq_some, Option.some.injEq,
      Visit.rotateIfDue.injEq]
    exact ⟨fun ⟨hdue, heq⟩ => ⟨heq, heq ▸ hdue⟩, fun ⟨heq, hdue⟩ => ⟨heq ▸ hdue, heq⟩⟩
  | isDue now => exact ⟨nofun, fun h => nomatch h.1⟩
  | activate text at_ => exact ⟨nofun, fun h => nomatch h.1⟩

theorem config_visit (p : Pool) (v : Visit) : (p.visit v).config = p.config := by
  cases v with
  | rotateIfDue now =>
    dsimp only [visit, apply]
    rw [rotateIfDue_fst]
    split <;> rfl
  | isDue now => rfl
  | activate text at_ =>
    dsimp only [visit, apply]
    split
    · next hq => exact config_activate hq
    · rfl

/-- The last rotation is the one that a visit brings, or else the one before. -/
theorem lastRotation_visit (p : Pool) (v : Visit) :
    (p.visit v).lastRotation = (p.rotatedBy v).or p.lastRotation := by
  cases v with
  | rotateIfDue now =>
    dsimp only [visit, apply, rotatedBy]
    rw [rotateIfDue_fst, rotateIfDue_snd]
    split <;> rfl
  | isDue now => rfl
  | activate text at_ =>
    dsimp only [visit, apply, rotatedBy]
    split
    · next hq => exact (cohort_activate hq).2
    · rfl

/-! ## Any number of visits -/

theorem config_visitAll (p : Pool) (visits : List Visit) :
    (p.visitAll visits).config = p.config := by
  induction visits generalizing p with
  | nil => rfl
  | cons v vs ih => exact (ih (p.visit v)).trans (config_visit p v)

theorem lastRotation_visitAll (p : Pool) (visits : List Visit) :
    (p.visitAll visits).lastRotation = (p.rotatedAt visits).getLast?.or p.lastRotation := by
  induction visits generalizing p with
  | nil => rfl
  | cons v vs ih =>
    change ((p.visit v).visitAll vs).lastRotation = _
    rw [ih (p.visit v), lastRotation_visit, rotatedAt, List.getLast?_append, Option.or_assoc]
    cases p.rotatedBy v <;> rfl

/-- The rotations are at instants that were asked about. -/
theorem isPlain_of_mem_rotatedAt {visits : List Visit} (h : ∀ v ∈ visits, v.IsPlain) {t : Instant}
    (ht : t ∈ p.rotatedAt visits) : t.IsPlain := by
  induction visits generalizing p with
  | nil => cases ht
  | cons v vs ih =>
    rw [rotatedAt, List.mem_append, Option.mem_toList] at ht
    cases ht with
    | inl ht =>
      have hv : v.IsPlain := h v List.mem_cons_self
      rw [(rotatedBy_eq_some.mp ht).1] at hv
      exact hv
    | inr ht => exact ih (fun v' hv' => h v' (List.mem_cons_of_mem v hv')) ht

/-- From one rotation to the next, and from the last one before the visits, the interval passes. -/
theorem isChain_rotatedAt (p : Pool) (visits : List Visit) :
    (p.lastRotation.toList ++ p.rotatedAt visits).IsChain
      fun a b => (p.config.interval : Int) ≤ a.elapsed b := by
  induction visits generalizing p with
  | nil => cases p.lastRotation <;> simp [rotatedAt]
  | cons v vs ih =>
    have hrest := ih (p.visit v)
    rw [lastRotation_visit, config_visit] at hrest
    rw [rotatedAt]
    cases ht : p.rotatedBy v with
    | none =>
      rw [ht, Option.none_or] at hrest
      exact hrest
    | some t =>
      rw [ht, Option.some_or] at hrest
      cases hlast : p.lastRotation with
      | none => exact hrest
      | some last =>
        have hdue := (rotatedBy_eq_some.mp ht).2
        exact .cons_cons (isDue_iff.mp hdue last hlast) hrest

/-! ## Windows -/

/-- Does one instant come before another one by some nanoseconds at least? -/
def Apart (gap : Nat) (a b : Instant) : Prop := a.toNanos + gap ≤ b.toNanos

theorem Apart.trans {gap : Nat} {a b c : Instant} (hab : Apart gap a b) (hbc : Apart gap b c) :
    Apart gap a c := by
  simp only [Apart] at *
  omega

instance (gap : Nat) : Trans (Apart gap) (Apart gap) (Apart gap) := ⟨Apart.trans⟩

theorem apart_of_le_elapsed {gap : Nat} {a b : Instant} (ha : a.IsPlain) (hb : b.IsPlain)
    (h : (gap : Int) ≤ a.elapsed b) : Apart gap a b := by
  rw [Instant.elapsed_of_isPlain ha hb] at h
  simp only [Apart]
  omega

/-- Instants that are apart by a gap take up so many times the gap, but for the first one. -/
theorem length_mul_le {gap : Nat} {t : Instant} {ts : List Instant} (h : (t :: ts).Pairwise (Apart gap))
    {high : Int} (hhigh : ∀ s ∈ t :: ts, s.toNanos ≤ high) :
    t.toNanos + (ts.length * gap : Nat) ≤ high := by
  induction ts generalizing t with
  | nil =>
    have := hhigh t List.mem_cons_self
    simpa using this
  | cons s ts ih =>
    obtain ⟨hfirst, hrest⟩ := List.pairwise_cons.mp h
    have hgap : t.toNanos + gap ≤ s.toNanos := hfirst s List.mem_cons_self
    have hle := ih hrest fun x hx => hhigh x (List.mem_cons_of_mem t hx)
    rw [List.length_cons, Nat.succ_mul]
    omega

/-- So a window has room for as many of them as the gap goes into its width, and one more. -/
theorem length_window_le {gap : Nat} (hgap : gap ≠ 0) {ts : List Instant}
    (h : ts.Pairwise (Apart gap)) {low : Int} {width : Nat}
    (hts : ∀ t ∈ ts, low ≤ t.toNanos ∧ t.toNanos ≤ low + width) : ts.length ≤ 1 + width / gap := by
  cases ts with
  | nil => exact Nat.zero_le _
  | cons t ts =>
    have hlow := (hts t List.mem_cons_self).1
    have hle := length_mul_le h fun s hs => (hts s hs).2
    have hwidth : ts.length ≤ width / gap :=
      (Nat.le_div_iff_mul_le (Nat.pos_of_ne_zero hgap)).mpr (by omega)
    rw [List.length_cons]
    omega

/-- Whatever the pool was, and whoever visits it at whatever instants outside leap seconds: the rotations
that come of it are apart by the interval at least, each from the next one and the first from the last
one before, if there was one; a window has room for as many of them as the interval goes into its width,
and one more. After any such visits, a rotation is due and is made just if there was none or the interval
has passed since the last one, and a call that does not rotate changes nothing. -/
theorem rotations_apart (hinterval : p.config.interval ≠ 0) {visits : List Visit}
    (hplain : ∀ v ∈ visits, v.IsPlain) :
    let interval := p.config.interval
    let rotated := p.rotatedAt visits
    let q := p.visitAll visits
    rotated.IsChain (Apart interval) ∧
    (∀ last t, p.lastRotation = some last → last.IsPlain → rotated.head? = some t →
      Apart interval last t) ∧
    (∀ (low : Int) (width : Nat),
      (rotated.filter fun t => low ≤ t.toNanos ∧ t.toNanos ≤ low + width).length ≤
        1 + width / interval) ∧
    q.lastRotation = rotated.getLast?.or p.lastRotation ∧
    ∀ now, let passed := ∀ last, q.lastRotation = some last → (interval : Int) ≤ last.elapsed now
      ((q.rotateIfDue now).2 = true ↔ passed) ∧ (q.isDue now = true ↔ passed) ∧
      ((q.rotateIfDue now).2 = false → (q.rotateIfDue now).1 = q) := by
  intro interval rotated q
  have hchain := isChain_rotatedAt p visits
  have hall : ∀ t ∈ rotated, t.IsPlain := fun t ht => isPlain_of_mem_rotatedAt hplain ht
  obtain ⟨-, hrotated, hfirst⟩ := List.isChain_append.mp hchain
  have hapart : rotated.IsChain (Apart interval) :=
    hrotated.imp_of_mem_imp fun a b ha hb h => apart_of_le_elapsed (hall a ha) (hall b hb) h
  refine ⟨hapart, fun last t hlast hlastPlain ht => ?_, fun low width => ?_,
    lastRotation_visitAll p visits, fun now => ?_⟩
  · have ht' : t.IsPlain := hall t (List.mem_of_mem_head? ht)
    refine apart_of_le_elapsed hlastPlain ht' (hfirst last ?_ t ht)
    rw [hlast]
    rfl
  · have hsub := (List.isChain_iff_pairwise.mp hapart).sublist
      (List.filter_sublist (p := fun t => low ≤ t.toNanos ∧ t.toNanos ≤ low + width))
    exact length_window_le hinterval hsub fun t ht => of_decide_eq_true (List.mem_filter.mp ht).2
  · have hdue : q.isDue now = true ↔
        ∀ last, q.lastRotation = some last → (interval : Int) ≤ last.elapsed now := by
      rw [isDue_iff, config_visitAll]
    exact ⟨by rw [rotateIfDue_snd, hdue], hdue, rotateIfDue_of_false⟩

/-- An interval of ten nanoseconds, and clocks that disagree: one is behind the first rotation, and one
is a nanosecond too early. -/
theorem rotations_apart_behind :
    let p : Pool := { config := { cohortSize := 1, interval := 10 } }
    let visits : List Visit := [.rotateIfDue (.early 0 5), .activate "1A" (.early 0 6),
      .rotateIfDue (.early 0 4), .isDue (.early 0 14), .rotateIfDue (.early 0 14),
      .rotateIfDue (.early 0 15), .rotateIfDue (.early 0 40)]
    p.rotatedAt visits = [.early 0 5, .early 0 15, .early 0 40] ∧
      (p.rotatedAt visits).IsChain (Apart 10) ∧
      ((p.rotatedAt visits).filter fun t => (5 : Int) ≤ t.toNanos ∧
        t.toNanos ≤ (5 : Int) + (34 : Nat)).length ≤ 4 ∧
      ((p.visitAll visits).rotateIfDue (.early 0 49)).2 = false := by
  intro p visits
  have hplain : ∀ v ∈ visits, v.IsPlain := by simp [visits, Visit.IsPlain, Instant.IsPlain]
  obtain ⟨hchain, -, hwindow, hlast, hdue⟩ := rotations_apart (p := p) (by decide) hplain
  refine ⟨by decide +kernel, hchain, (hwindow 5 34).trans (by decide +kernel), ?_⟩
  rw [← Bool.not_eq_true, (hdue (.early 0 49)).1, hlast]
  intro h
  exact absurd (h (.early 0 40) (by decide +kernel)) (by decide +kernel)

end AddressExchange.Pool
