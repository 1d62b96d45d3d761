import AddressExchange.Message
import AddressExchange.Pool.Stored

/-!
# Keeping the replay date

The date of the last answer in a small file, in milliseconds. Saving writes a file beside it first,
with another extension, and then moves that file to its place.
-/

namespace AddressExchange.ReplayStore

/-- The content of the file. -/
def toJson (date : Option Instant) : Json.Value :=
  .object [("replay_date", .ofOption (fun t => .number t.toMillis) date)]

def reader : Json.Reader (Option Instant) := fun bs => do
  let ((date, ()), rest) ← Json.Members.reader "ReplayDateFile"
    (.more (.required "replay_date" (Json.nullable Json.millis)) .none) bs
  .ok (date, rest)

/-- Reads the date; without a file there is none. -/
def load (path : Path) : Filing (Option Instant) := do
  if ← (Disk.isThere path).filing then
    let content ← (Disk.read path).filing
    match Json.parse reader content with
    | .ok date => pure date
    | .error place => throw (.json place)
  else pure none

/-- Where a date is written before it takes its place. -/
def temporaryPath (path : Path) : Path := path.withExtension "tmp"

/-- Saves the date, in a directory that is made if it is missing. -/
def save (path : Path) (date : Option Instant) : Filing Unit := Disk.filing do
  if path.parent ≠ [] then Disk.makeDirectories path.parent
  Disk.write (temporaryPath path) (toJson date).compact
  Disk.rename (temporaryPath path) path

end AddressExchange.ReplayStore
