import AddressExchange.CommandLine.Session
import AddressExchange.Proofs.Files.Tree

/-!
# How sessions end

A run of a command goes through or ends early, and in both cases leaves files. What is shown of it is
what holds of the result and the files if it goes through, and what holds of the files if it does not.
-/

namespace AddressExchange.CommandLine.Session

variable {α β : Type} {x : Session α} {f : α → Session β} {d : Desk} {Q Q' : α → Files → Prop}
  {R : β → Files → Prop} {B B' : Files → Prop}

/-- Does `Q` hold of the result and the files of a run that goes through, and `B` of the files of one
that ends early? -/
def Ends (x : Session α) (d : Desk) (Q : α → Files → Prop) (B : Files → Prop) : Prop :=
  match x.run d with
  | (.ok a, d') => Q a d'.files
  | (.error _, d') => B d'.files

theorem run_because (message : String) (x : Session α) (d : Desk) :
    (because message x).run d =
      match x.run d with
      | (.ok a, d) => (.ok a, d)
      | (.error c, d) => (.error (c.because message), d) := by
  have hbind (g : Except Complaint α → StateM Desk (Except Complaint α)) :
      (x.run >>= g) d = g (x.run d).1 (x.run d).2 := rfl
  simp only [because, ExceptT.run_tryCatch, hbind]
  obtain ⟨c | a, d'⟩ := x.run d <;> rfl

theorem run_disk (op : Disk α) (d : Desk) :
    (disk op).run d =
      match op.run d.files with
      | (.ok a, fs) => (.ok a, { d with files := fs })
      | (.error e, fs) => (.error { message := e.message }, { d with files := fs }) := by
  have hdesk : (atDesk (Desk.onFiles op)).run d =
      (.ok (op.run d.files).1, { d with files := (op.run d.files).2 }) := rfl
  rw [disk, run_bind, hdesk]
  dsimp only
  obtain ⟨e | a, fs⟩ := op.run d.files <;> rfl

/-! ## Rules -/

theorem ends_pure {a : α} (h : Q a d.files) : (pure a : Session α).Ends d Q B := h

theorem ends_complain {message : String} (h : B d.files) :
    (complain message : Session α).Ends d Q B := h

theorem Ends.imp (h : x.Ends d Q B) (hq : ∀ a fs, Q a fs → Q' a fs) (hb : ∀ fs, B fs → B' fs) :
    x.Ends d Q' B' := by
  unfold Ends at *
  split at h
  · exact hq _ _ h
  · exact hb _ h

/-- The second part of a run begins with the files that the first one left. -/
theorem Ends.bind (h : x.Ends d Q B) (hf : ∀ a d', Q a d'.files → (f a).Ends d' R B) :
    (x >>= f).Ends d R B := by
  unfold Ends at *
  rw [run_bind]
  cases hx : x.run d with
  | mk result d' =>
    rw [hx] at h
    cases result with
    | ok a => exact hf a d' h
    | error c => exact h

theorem Ends.because (h : x.Ends d Q B) (message : String) :
    (because message x).Ends d Q B := by
  unfold Ends at *
  rw [run_because]
  split at h
  · exact h
  · exact h

theorem ends_disk {op : Disk α} (hok : ∀ a fs, op.run d.files = (.ok a, fs) → Q a fs)
    (herror : ∀ e fs, op.run d.files = (.error e, fs) → B fs) : (disk op).Ends d Q B := by
  unfold Ends
  rw [run_disk]
  cases hop : op.run d.files with
  | mk result fs =>
    cases result with
    | ok a => exact hok a fs hop
    | error e => exact herror e fs hop

/-- An operation whose outcome is known. -/
theorem ends_disk_of_ok {op : Disk α} {a : α} {fs : Files} (h : op.run d.files = (.ok a, fs))
    (hq : Q a fs) : (disk op).Ends d Q B := by
  rw [Ends, run_disk, h]
  exact hq

/-- An operation whose refusal is known. -/
theorem ends_disk_of_error {op : Disk α} {e : FileFault} {fs : Files}
    (h : op.run d.files = (.error e, fs)) (hb : B fs) : (disk op).Ends d Q B := by
  rw [Ends, run_disk, h]
  exact hb

theorem ends_files (op : StateM Files α) :
    (atDesk (Desk.onFiles op)).Ends d (fun a fs => op.run d.files = (a, fs)) B := rfl

end AddressExchange.CommandLine.Session
