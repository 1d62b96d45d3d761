import AddressExchange.Pool.Entry
import AddressExchange.Text.Literal

/-!
# Lists of addresses

A text with one address on a line, followed by its instant in milliseconds or by nothing. Blank
lines and lines that begin with a hash sign do not count.
-/

namespace AddressExchange.AddressList

/-- The instant in the second field of a line. -/
def readInstant (line : Nat) (field : String) : Except Failure Instant :=
  match Text.int64? field with
  | some millis => Instant.ofMillis millis
  | none => .error (.pool (.lineTime line))

/-- The entry of a line, if the line counts. -/
def readLine (default : Instant) (line : Nat) (s : String) : Except Failure (Option Entry) :=
  let s := Text.trim s
  if s.isEmpty || s.startsWith "#" then .ok none
  else match Text.fields s with
    | [address] => .ok (some ⟨address, default⟩)
    | [address, millis] => do
      let t ← readInstant line millis
      .ok (some ⟨address, t⟩)
    | _ => .error (.pool (.lineFields line))

/-- The entries of a text; those without an instant of their own get the default. -/
def parse (text : String) (default : Instant) : Except Failure (List Entry) := do
  let entries ← ((Text.lines text).zipIdx 1).mapM fun (s, line) => readLine default line s
  .ok (entries.filterMap id)

end AddressExchange.AddressList
