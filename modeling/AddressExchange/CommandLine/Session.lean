import AddressExchange.Cipher
import AddressExchange.Pool.Stored
import AddressExchange.Host.Settings
import AddressExchange.Web.Transport

/-!
# Sessions

A run of one command: it prints lines, works on files, and may end early with a complaint.
-/

namespace AddressExchange.CommandLine

/-- Why a command ended early: what failed, and what is behind it, outermost first. -/
structure Complaint where
  message : String
  causes : List String := []
  deriving DecidableEq, Repr

namespace Complaint

/-- The complaint about a failure. -/
def ofFailure (e : Failure) : Complaint := ⟨e.message, e.causes⟩

/-- A complaint about something of which another is the cause. -/
def because (message : String) (c : Complaint) : Complaint := ⟨message, c.message :: c.causes⟩

/-- A text whose later lines are indented. -/
def indented (width : Nat) (s : String) : String :=
  s.replace "\n" ("\n" ++ String.ofList (List.replicate width ' '))

/-- The complaint as it is shown. A single cause has no number. -/
def text (c : Complaint) : String :=
  let causes := match c.causes with
    | [] => ""
    | [cause] => s!"\n\nCaused by:\n    {indented 4 cause}"
    | causes =>
      let lines := causes.zipIdx.map fun ((cause, i) : String × Nat) =>
        String.ofList (List.replicate (5 - (toString i).length) ' ') ++ s!"{i}: {indented 7 cause}"
      "\n\nCaused by:\n" ++ "\n".intercalate lines
  s!"Error: {c.message}{causes}\n"

end Complaint

/-- What surrounds a command: the cipher, random bytes by number, the time, the environment, and the
network, which takes a body to an endpoint and brings the answer. -/
structure Outside where
  cipher : Cipher
  random : Nat → Bytes
  now : Instant
  environment : Environment
  post : Web.Endpoint → Bytes → Except Failure Bytes

/-- What a command changes. -/
structure Desk where
  files : Files
  /-- What was printed. -/
  printed : String := ""
  /-- How often random bytes were drawn. -/
  draws : Nat := 0
  /-- The replay date, where no file keeps it. -/
  date : Option Instant := none

namespace Desk

/-- Fresh random bytes. -/
def draw (o : Outside) : StateM Desk Bytes :=
  modifyGet fun d => (o.random d.draws, { d with draws := d.draws + 1 })

/-- Work on files as work on the desk. -/
def onFiles {α : Type} (work : StateM Files α) : StateM Desk α :=
  modifyGet fun d =>
    let (result, files) := work d.files
    (result, { d with files })

end Desk

/-- A run of a command. -/
abbrev Session := ExceptT Complaint (StateM Desk)

namespace Session

/-- Prints a line. -/
def say (line : String) : Session Unit :=
  modify fun d => { d with printed := d.printed ++ line ++ "\n" }

/-- Gives up. -/
def complain {α : Type} (message : String) : Session α := throw { message }

/-- Work on the desk that cannot fail. -/
def atDesk {α : Type} (work : StateM Desk α) : Session α := ExceptT.lift work

/-- A file operation; its refusal is the complaint. -/
def disk {α : Type} (op : Disk α) : Session α := do
  match ← atDesk (Desk.onFiles op) with
  | .ok a => pure a
  | .error e => complain e.message

/-- A result; its failure is the complaint. -/
def check {α : Type} : Except Failure α → Session α
  | .ok a => pure a
  | .error e => throw (.ofFailure e)

/-- Work on files; its failure is the complaint. -/
def filing {α : Type} (work : Filing α) : Session α := do
  check (← atDesk (Desk.onFiles work))

/-- Work whose complaint is the cause of another one. -/
def because {α : Type} (message : String) (work : Session α) : Session α :=
  tryCatch work fun c => throw (c.because message)

end Session

end AddressExchange.CommandLine
