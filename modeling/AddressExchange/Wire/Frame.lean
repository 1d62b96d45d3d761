import AddressExchange.Failure
import AddressExchange.Text.Literal

/-!
# Frames

The framing that both messages share: UTF-8 rows, each ended by a line feed. The first row holds the
version, the second a date or the word that says there is none, and the others the items.
-/

namespace AddressExchange.Wire

/-- What the rows of a message hold besides its version. -/
structure Frame where
  date : Option Instant
  items : List String
  deriving DecidableEq, Repr

/-- The row that holds a date. -/
def dateRow : Option Instant → String
  | some t => toString t.toMillis
  | none => Protocol.noDate

/-- The text of rows. -/
def rowsText (rows : List String) : String :=
  String.ofList (rows.flatMap fun row => row.toList ++ [Protocol.rowEnd])

/-- Writes a frame. -/
def encodeFrame (version : Nat) (date : Option Instant) (items : List String) : Bytes :=
  Text.utf8 (rowsText (toString version :: dateRow date :: items))

/-- The rows of a text; the last one is not ended. -/
def rowsOf (s : String) : List String := (s.toList.splitOn Protocol.rowEnd).map String.ofList

/-- Reads a date row. -/
def readDate (row : String) : Except Failure (Option Instant) :=
  if row = Protocol.noDate then .ok none
  else match Text.int64? row with
    | none => .error (.malformed (.dateRow row))
    | some millis => (Instant.ofMillis millis).map some

/-- Reads the rows of a frame. The version is looked at before all else; empty rows hold no item. -/
def ofRows (rows : List String) : Except Failure Frame :=
  let versionRow := rows.headD ""
  if Text.int64? versionRow ≠ some (Protocol.version : Int) then
    .error (.versionMismatch Protocol.version versionRow)
  else match rows.drop 1 with
    | [] => .error (.malformed .noDateRow)
    | row :: items =>
      (readDate row).map fun date => ⟨date, items.filter (· ≠ "")⟩

/-- Reads a frame. -/
def decodeFrame (bs : Bytes) : Except Failure Frame :=
  match Text.Utf8.decode bs with
  | .error e => .error (.malformed (.notText e))
  | .ok s => ofRows (rowsOf s)

end AddressExchange.Wire
