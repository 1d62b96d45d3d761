import AddressExchange.Bytes

/-!
# Faults of JSON texts

What can be wrong with a JSON text: its form, its early end, or a value that is not the one asked
for. A fault knows its place by the number of bytes left behind it, which a place in the text
(`Place`) is found from.
-/

namespace AddressExchange.Json

/-- What was met where another kind of value was asked for. -/
inductive Found where
  | null
  | bool (b : Bool)
  | integer (n : Int)
  /-- A number with a fraction or an exponent, as it is shown. -/
  | decimal (shown : String)
  /-- A string, as it is shown between quotes. -/
  | text (quoted : String)
  | list
  | object
  deriving Repr, DecidableEq

/-- Why a well-formed value is not the one asked for. -/
inductive Mismatch where
  | wrongType (found : Found) (expected : String)
  | wrongValue (found : Found) (expected : String)
  | wrongLength (length : Nat) (expected : String)
  | missingMember (name : String)
  | repeatedMember (name : String)
  /-- A string that does not read as what it should hold. -/
  | unreadable (reason : String)
  deriving Repr, DecidableEq

/-- What is wrong. -/
inductive Cause where
  | mismatch (m : Mismatch)
  | endInValue
  | endInList
  | endInObject
  | endInString
  | noColon
  | noCommaInList
  | noCommaInObject
  | badWord
  | noValue
  | badEscape
  | badNumber
  | hugeNumber
  | badText
  | controlCharacter
  | keyNotString
  | loneSurrogate
  | halfSurrogate
  | commaAtEnd
  | trailing
  deriving Repr, DecidableEq

/-- A cause and the number of bytes behind its place. -/
structure Fault where
  cause : Cause
  left : Nat
  deriving Repr, DecidableEq

/-- A fault just before `rest`. -/
def Fault.before (cause : Cause) (rest : Bytes) : Fault := ⟨cause, rest.length⟩

/-- A fault at the first byte of `rest`, if it has one. -/
def Fault.atHead (cause : Cause) (rest : Bytes) : Fault := ⟨cause, rest.length - 1⟩

/-- The three kinds of fault that a caller may have to tell apart. -/
inductive Kind where
  | form
  | earlyEnd
  | value
  deriving Repr, DecidableEq

/-- The kind of a cause. -/
def Cause.kind : Cause → Kind
  | .mismatch _ => .value
  | .endInValue | .endInList | .endInObject | .endInString => .earlyEnd
  | _ => .form

/-! ## Wording -/

/-- The wording of what was met. -/
def Found.describe : Found → String
  | .null => "null"
  | .bool b => s!"boolean `{b}`"
  | .integer n => s!"integer `{n}`"
  | .decimal shown => s!"floating point `{shown}`"
  | .text quoted => s!"string {quoted}"
  | .list => "sequence"
  | .object => "map"

/-- The wording of a mismatch. -/
def Mismatch.message : Mismatch → String
  | .wrongType found expected => s!"invalid type: {found.describe}, expected {expected}"
  | .wrongValue found expected => s!"invalid value: {found.describe}, expected {expected}"
  | .wrongLength length expected => s!"invalid length {length}, expected {expected}"
  | .missingMember name => s!"missing field `{name}`"
  | .repeatedMember name => s!"duplicate field `{name}`"
  | .unreadable reason => reason

/-- The wording of a cause. -/
def Cause.message : Cause → String
  | .mismatch m => m.message
  | .endInValue => "EOF while parsing a value"
  | .endInList => "EOF while parsing a list"
  | .endInObject => "EOF while parsing an object"
  | .endInString => "EOF while parsing a string"
  | .noColon => "expected `:`"
  | .noCommaInList => "expected `,` or `]`"
  | .noCommaInObject => "expected `,` or `\x7d`"
  | .badWord => "expected ident"
  | .noValue => "expected value"
  | .badEscape => "invalid escape"
  | .badNumber => "invalid number"
  | .hugeNumber => "number out of range"
  | .badText => "invalid unicode code point"
  | .controlCharacter => "control character (\\u0000-\\u001F) found while parsing a string"
  | .keyNotString => "key must be a string"
  | .loneSurrogate => "lone leading surrogate in hex escape"
  | .halfSurrogate => "unexpected end of hex escape"
  | .commaAtEnd => "trailing comma"
  | .trailing => "trailing characters"

/-- A cause with its place in a text: the line, counted from one, and the bytes of the line up to
and with the one at fault. -/
structure Place where
  cause : Cause
  line : Nat
  column : Nat
  deriving Repr, DecidableEq

/-- Finds the place of a fault in the text that was read. -/
def Fault.locate (text : Bytes) (f : Fault) : Place :=
  let seen := text.take (text.length - f.left)
  ⟨f.cause, 1 + seen.count 10, (seen.reverse.takeWhile (· ≠ 10)).length⟩

/-- The wording of a located fault. -/
def Place.message (p : Place) : String :=
  s!"{p.cause.message} at line {p.line} column {p.column}"

end AddressExchange.Json
