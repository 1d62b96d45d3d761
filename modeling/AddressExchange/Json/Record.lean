import AddressExchange.Json.Reader

/-!
# Records as JSON

A record is read from an object, whose members may come in any order with others between them, or
from a list of the values of all its members in their order.
-/

namespace AddressExchange.Json

/-- A member of a record. -/
structure Member (α : Type) where
  name : String
  read : Reader α
  /-- Its value in an object that does not have it, if it may be left out there. -/
  absent : Option α
  /-- Its value in a list that ends before it, if it may be left out there. -/
  short : Option α

/-- A member that must be there. -/
def Member.required (name : String) (read : Reader α) : Member α := ⟨name, read, none, none⟩

/-- A member that may be null, or missing in an object. -/
def Member.optional (name : String) (read : Reader α) : Member (Option α) :=
  ⟨name, nullable read, some none, none⟩

/-- A member that may be missing and then has a fixed value. -/
def Member.orElse (name : String) (read : Reader α) (a : α) : Member α :=
  ⟨name, read, some a, some a⟩

/-- The members of a record in their order: `Members α σ` has the values `α`, and `σ` holds those of
them that were found so far. -/
inductive Members : Type → Type → Type 1 where
  | none : Members Unit Unit
  | more {α β σ : Type} (m : Member α) (ms : Members β σ) : Members (α × β) (Option α × σ)

namespace Members

/-- No value found yet. -/
def empty {α σ : Type} : Members α σ → σ
  | none => ()
  | more _ ms => (Option.none, ms.empty)

/-- The number of members. -/
def count {α σ : Type} : Members α σ → Nat
  | none => 0
  | more _ ms => ms.count + 1

/-- The values of all members once an object has ended, or the first that is missing. -/
def finish {α σ : Type} : Members α σ → σ → Except Mismatch α
  | none, _ => .ok ()
  | more m ms, (slot, slots) =>
    match slot <|> m.absent with
    | some a => (ms.finish slots).map (a, ·)
    | Option.none => .error (.missingMember m.name)

/-- The fault of a member that comes a second time. It stands behind the blanks that follow the
name, and behind the brace if one follows them. -/
def repeated (name : String) (bs : Bytes) : Fault :=
  let rest := match skipBlanks bs with
    | 0x7d :: rest => rest
    | rest => rest
  .before (.mismatch (.repeatedMember name)) rest

/-- Reads the value of the member with a name, if there is such a member. -/
def place {α σ : Type} (name : String) (bs : Bytes) :
    Members α σ → σ → Except Fault (Option (σ × Bytes))
  | none, _ => .ok Option.none
  | more m ms, (slot, slots) =>
    if m.name = name then
      if slot.isSome then .error (repeated name bs)
      else do
        let (a, rest) ← m.read (← colon bs)
        .ok (some ((some a, slots), rest))
    else do
      match ← ms.place name bs slots with
      | some (slots, rest) => .ok (some ((slot, slots), rest))
      | Option.none => .ok Option.none

/-- Reads the members of an object up to its closing brace. A member has at least one byte, which
bounds the number of turns. -/
def object {α σ : Type} (ms : Members α σ) (first : Bool) (slots : σ) :
    Nat → Bytes → Except Fault (α × Bytes)
  | 0, bs => .error (.before .endInObject bs)
  | fuel + 1, bs => do
    match ← nextName first bs with
    | .done rest =>
      match ms.finish slots with
      | .ok a => .ok (a, rest)
      | .error e => .error (.before (.mismatch e) rest)
    | .more rest =>
      let (name, rest) ← stringTail rest
      match ← ms.place name rest slots with
      | some (slots, rest) => ms.object false slots fuel rest
      | Option.none => do ms.object false slots fuel (← skipValue (← colon rest))

/-- How the members of a record are counted in a message. -/
def expected (name : String) (count : Nat) : String :=
  s!"struct {name} with {count} element" ++ if count = 1 then "" else "s"

/-- Reads the values of all members from a list up to its end. `index` counts those before. -/
def listed {α σ : Type} (name : String) (count index : Nat) : Members α σ → Reader α
  | none, bs => do
    match skipBlanks bs with
    | [] => .error ⟨.endInList, 0⟩
    | 0x5d :: rest => .ok ((), rest)
    | 0x2c :: rest =>
      match skipBlanks rest with
      | 0x5d :: rest => .error (.before .commaAtEnd rest)
      | rest => .error (.atHead .trailing rest)
    | _ :: rest => .error (.before .trailing rest)
  | more m ms, bs => do
    match ← nextItem (index = 0) bs with
    | .more item =>
      let (a, rest) ← m.read item
      let (b, rest) ← ms.listed name count (index + 1) rest
      .ok ((a, b), rest)
    | .done rest =>
      match m.short with
      | some a => do
        let (b, rest) ← ms.listed name count (index + 1) (0x5d :: rest)
        .ok ((a, b), rest)
      | Option.none =>
        .error (.before (.mismatch (.wrongLength index (expected name count))) rest)

/-- Reads a record. -/
def reader {α σ : Type} (name : String) (ms : Members α σ) : Reader α := fun bs =>
  match skipBlanks bs with
  | [] => .error ⟨.endInValue, 0⟩
  | 0x7b :: rest => ms.object true ms.empty (rest.length + 1) rest
  | 0x5b :: rest => ms.listed name ms.count 0 rest
  | bs => .error (wrongType s!"struct {name}" bs)

end Members

end AddressExchange.Json
