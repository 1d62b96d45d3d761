import AddressExchange.Web.Transport
import Mathlib.Logic.Relation

/-!
# What becomes of an answer

The body of an answer is taken chunk by chunk, and at each turn of the loop what is held is within the
bound. Where the loop ends, the chunks have all been taken or are too long together, so what becomes of
the answer is told by the body as a whole: how it was cut into chunks does not matter.
-/

namespace AddressExchange.Web

/-! ## Turns of the loop -/

/-- Where the loop over the chunks of a body is. -/
structure Collecting where
  held : Bytes
  /-- The chunks that were not looked at yet. -/
  coming : List Bytes
  deriving DecidableEq

namespace Collecting

variable {cap : Nat} {broken : Option String} {body : Bytes} {c c' : Collecting}

/-- The next turn; none where the loop ends. -/
def next (cap : Nat) : Collecting → Option Collecting
  | ⟨_, []⟩ => none
  | ⟨held, chunk :: chunks⟩ =>
    if cap < held.length + chunk.length then none else some ⟨held ++ chunk, chunks⟩

/-- What the loop gives where it ends. -/
def finish (cap : Nat) (broken : Option String) : Collecting → Except Failure Bytes
  | ⟨held, []⟩ =>
    match broken with
    | none => .ok held
    | some reason => .error (.transport reason)
  | ⟨_, _ :: _⟩ => .error (tooLong cap)

abbrev Turns (cap : Nat) : Collecting → Collecting → Prop :=
  Relation.ReflTransGen fun c c' => c.next cap = some c'

/-- The loop goes on with the next turn, or ends. -/
theorem collect_eq (cap : Nat) (broken : Option String) (c : Collecting) :
    collect cap broken c.held c.coming =
      match c.next cap with
      | some c' => collect cap broken c'.held c'.coming
      | none => c.finish cap broken := by
  obtain ⟨held, _ | ⟨chunk, chunks⟩⟩ := c
  · cases broken <;> rfl
  · dsimp only
    rw [collect, next]
    split <;> rfl

/-- Each turn takes one chunk, so the loop comes to an end. -/
theorem exists_end (cap : Nat) (broken : Option String) (c : Collecting) :
    ∃ last, Turns cap c last ∧ last.next cap = none ∧
      collect cap broken c.held c.coming = last.finish cap broken := by
  obtain ⟨held, coming⟩ := c
  induction coming generalizing held with
  | nil => exact ⟨_, .refl, rfl, collect_eq cap broken ⟨held, []⟩⟩
  | cons chunk chunks ih =>
    have hcollect := collect_eq cap broken ⟨held, chunk :: chunks⟩
    cases hnext : next cap ⟨held, chunk :: chunks⟩ with
    | none =>
      rw [hnext] at hcollect
      exact ⟨_, .refl, hnext, hcollect⟩
    | some c' =>
      obtain rfl : c' = ⟨held ++ chunk, chunks⟩ := by
        rw [next] at hnext
        split at hnext
        · cases hnext
        · exact (Option.some.inj hnext).symm
      rw [hnext] at hcollect
      obtain ⟨last, hturns, hlast, hresult⟩ := ih (held ++ chunk)
      exact ⟨last, .head hnext hturns, hlast, hcollect.trans hresult⟩

/-- What is held is within the bound, and is the body up to what is coming. -/
structure Within (cap : Nat) (body : Bytes) (c : Collecting) : Prop where
  le : c.held.length ≤ cap
  parts : c.held ++ c.coming.flatten = body

theorem Within.next (h : c.Within cap body) (hnext : c.next cap = some c') : c'.Within cap body := by
  obtain ⟨held, _ | ⟨chunk, chunks⟩⟩ := c
  · cases hnext
  · rw [Collecting.next] at hnext
    split at hnext
    · cases hnext
    · next hfits =>
      cases hnext
      refine ⟨?_, ?_⟩
      · rw [List.length_append]
        omega
      · rw [← h.parts, List.flatten_cons, List.append_assoc]

theorem Within.turns (h : c.Within cap body) (hturns : Turns cap c c') : c'.Within cap body := by
  induction hturns with
  | refl => exact h
  | tail _ hnext ih => exact ih.next hnext

theorem within_start (cap : Nat) (chunks : List Bytes) :
    Within cap chunks.flatten ⟨[], chunks⟩ :=
  ⟨Nat.zero_le cap, rfl⟩

/-- A loop that ends has taken the whole body, or the body is too long. -/
theorem Within.finish_eq (h : c.Within cap body) (hlast : c.next cap = none)
    (broken : Option String) :
    c.finish cap broken =
      if cap < body.length then .error (tooLong cap)
      else match broken with
        | none => .ok body
        | some reason => .error (.transport reason) := by
  obtain ⟨held, _ | ⟨chunk, chunks⟩⟩ := c
  · obtain rfl : held = body := by simpa using h.parts
    rw [if_neg (Nat.not_lt.mpr h.le)]
    rfl
  · have hlong : cap < held.length + chunk.length := by
      rw [Collecting.next] at hlast
      split at hlast
      · assumption
      · cases hlast
    have hbody : cap < body.length := by
      rw [← h.parts, List.flatten_cons]
      simp only [List.length_append]
      omega
    rw [if_pos hbody]
    rfl

end Collecting

/-! ## Whole answers -/

open Collecting

/-- What becomes of an answer whose body is looked at as a whole. -/
def Arrival.takeWhole (cap : Nat) (a : Arrival) : Except Failure Bytes :=
  if !a.status.isSuccess then .error (.transport s!"HTTP {a.status.text}")
  else if a.declared.any (cap < ·) || cap < a.chunks.flatten.length then .error (tooLong cap)
  else match a.broken with
    | none => .ok a.chunks.flatten
    | some reason => .error (.transport reason)

theorem Arrival.take_eq_takeWhole (cap : Nat) (a : Arrival) : a.take cap = a.takeWhole cap := by
  obtain ⟨last, hturns, hlast, hcollect⟩ := exists_end cap a.broken ⟨[], a.chunks⟩
  have hfinish := ((within_start cap a.chunks).turns hturns).finish_eq hlast a.broken
  rw [take, takeWhole, hcollect, hfinish]
  cases a.declared.any (cap < ·) <;> simp

/-- An answer is taken just if it tells of success, declares no more than the bound, is not broken off,
and has a body within the bound. -/
theorem Arrival.takeWhole_eq_ok {cap : Nat} {a : Arrival} {body : Bytes} :
    a.takeWhole cap = .ok body ↔
      (200 ≤ a.status.code ∧ a.status.code < 300) ∧ (∀ n ∈ a.declared, n ≤ cap) ∧
        a.broken = none ∧ a.chunks.flatten.length ≤ cap ∧ a.chunks.flatten = body := by
  have hsuccess : a.status.isSuccess = true ↔ 200 ≤ a.status.code ∧ a.status.code < 300 := by
    simp [Status.isSuccess]
  have hdeclared : a.declared.any (cap < ·) = false ↔ ∀ n ∈ a.declared, n ≤ cap := by
    cases a.declared <;> simp
  rw [← hsuccess, ← hdeclared, takeWhole]
  cases a.status.isSuccess with
  | false => simp
  | true =>
    cases a.declared.any (cap < ·) with
    | true => simp
    | false =>
      generalize a.chunks.flatten = whole
      by_cases hlong : cap < whole.length
      · simp [hlong, Nat.not_le_of_lt hlong]
      · cases a.broken <;> simp [hlong, Nat.le_of_not_lt hlong]

/-- One that is not taken is a failure on the way. -/
theorem Arrival.takeWhole_eq_error {cap : Nat} {a : Arrival} {e : Failure}
    (h : a.takeWhole cap = .error e) : ∃ reason, e = .transport reason := by
  rw [takeWhole] at h
  split at h
  · cases h
    exact ⟨_, rfl⟩
  split at h
  · cases h
    exact ⟨_, rfl⟩
  split at h
  · cases h
  · cases h
    exact ⟨_, rfl⟩

/-- Whatever the bound and whatever arrives: an answer is taken, as the chunks of its body one behind the
other, just if its code tells of success, the length that it declares, if any, is within the bound, nothing
breaks it off, and its body is within the bound. Every other answer is a failure on the way. At every turn
of the loop what is held is within the bound, and is the body up to what is coming. Another cut of the
same body into chunks changes nothing. -/
theorem take_by_whole (cap : Nat) (a : Arrival) :
    (∀ body, a.take cap = .ok body ↔
      (200 ≤ a.status.code ∧ a.status.code < 300) ∧ (∀ n ∈ a.declared, n ≤ cap) ∧
        a.broken = none ∧ a.chunks.flatten.length ≤ cap ∧ a.chunks.flatten = body) ∧
    (∀ e, a.take cap = .error e → ∃ reason, e = .transport reason) ∧
    (∃ last, Turns cap ⟨[], a.chunks⟩ last ∧ last.next cap = none ∧
      collect cap a.broken [] a.chunks = last.finish cap a.broken) ∧
    (∀ c, Turns cap ⟨[], a.chunks⟩ c →
      c.held.length ≤ cap ∧ c.held ++ c.coming.flatten = a.chunks.flatten) ∧
    ∀ chunks, chunks.flatten = a.chunks.flatten → ({ a with chunks }).take cap = a.take cap := by
  refine ⟨fun body => ?_, fun e h => ?_, exists_end cap a.broken ⟨[], a.chunks⟩, fun c hturns => ?_,
    fun chunks hchunks => ?_⟩
  · rw [Arrival.take_eq_takeWhole, Arrival.takeWhole_eq_ok]
  · rw [Arrival.take_eq_takeWhole] at h
    exact Arrival.takeWhole_eq_error h
  · obtain ⟨hle, hparts⟩ := (within_start cap a.chunks).turns hturns
    exact ⟨hle, hparts⟩
  · rw [Arrival.take_eq_takeWhole, Arrival.take_eq_takeWhole, Arrival.takeWhole, Arrival.takeWhole,
      hchunks]

/-- A body of just the bound in three chunks, one of them empty, and one byte too many, where the answer
declares less than it brings. -/
theorem take_by_whole_understated :
    let a : Arrival := ⟨.ok, some 1, [[1, 2], [], [3]], none⟩
    a.take 3 = .ok [1, 2, 3] ∧ ({ a with chunks := [[1], [2, 3]] }).take 3 = .ok [1, 2, 3] ∧
      a.take 2 = .error (tooLong 2) ∧ ∀ c, Turns 2 ⟨[], a.chunks⟩ c → c.held.length ≤ 2 := by
  intro a
  obtain ⟨htaken, -, -, -, hchunks⟩ := take_by_whole 3 a
  obtain ⟨-, -, -, hheld, -⟩ := take_by_whole 2 a
  have htake : a.take 3 = .ok [1, 2, 3] := (htaken _).mpr (by decide)
  exact ⟨htake, (hchunks [[1], [2, 3]] rfl).trans htake, rfl, fun c hturns => (hheld c hturns).1⟩

end AddressExchange.Web
