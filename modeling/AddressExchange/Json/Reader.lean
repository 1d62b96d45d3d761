import AddressExchange.Json.Skip
import AddressExchange.Text.Quoted
import AddressExchange.Time.Rfc3339

/-!
# Readers of JSON values

Readers for the kinds of value that records hold: integers of a range, strings, instants, values
that may be null, and lists. Each finds the first fault in the order of the text.
-/

namespace AddressExchange.Json

/-- The fault of a value that is not of the kind asked for. Scalars are read first, so a fault
inside one wins. -/
def wrongType (expected : String) (bs : Bytes) : Fault :=
  let found (f : Found) (rest : Bytes) : Fault := .before (.mismatch (.wrongType f expected)) rest
  let wordOr (w rest : Bytes) (f : Found) : Fault :=
    match word w rest with
    | .error e => e
    | .ok rest => found f rest
  match bs with
  | [] => ⟨.noValue, 0⟩
  | 0x6e :: rest => wordOr [0x75, 0x6c, 0x6c] rest .null
  | 0x74 :: rest => wordOr [0x72, 0x75, 0x65] rest (.bool true)
  | 0x66 :: rest => wordOr [0x61, 0x6c, 0x73, 0x65] rest (.bool false)
  | 0x22 :: rest =>
    match stringTail rest with
    | .error e => e
    | .ok (s, rest) => found (.text (Text.quoted s)) rest
  | 0x5b :: _ => found .list bs
  | 0x7b :: _ => found .object bs
  | b :: rest =>
    if b = 0x2d || isDigit b then
      match numeral .endInValue bs with
      | .error e => e
      | .ok (n, rest) =>
        match n.found rest with
        | .error e => e
        | .ok f => found f rest
    else .before .noValue rest

/-- Reads an integer between two bounds. -/
def integer (low high : Int) (expected : String) : Reader Int := fun bs =>
  match skipBlanks bs with
  | [] => .error ⟨.endInValue, 0⟩
  | b :: rest => do
    if b = 0x2d || isDigit b then
      let (n, behind) ← numeral .endInValue (b :: rest)
      match n.integer? with
      | some i =>
        if low ≤ i && i ≤ high then .ok (i, behind)
        else .error (.before (.mismatch (.wrongValue (.integer i) expected)) behind)
      | none => do
        let found ← n.found behind
        .error (.before (.mismatch (.wrongType found expected)) behind)
    else .error (wrongType expected (b :: rest))

/-- Reads a natural number up to a bound. -/
def natural (high : Nat) (expected : String) : Reader Nat := fun bs => do
  let (n, rest) ← integer 0 high expected bs
  .ok (n.toNat, rest)

def nat8 : Reader Nat := natural 255 "u8"
def nat32 : Reader Nat := natural 4294967295 "u32"
def nat64 : Reader Nat := natural 18446744073709551615 "u64"
def size : Reader Nat := natural 18446744073709551615 "usize"
def int64 : Reader Int := integer (-9223372036854775808) 9223372036854775807 "i64"

/-- Reads a string. -/
def text (expected : String) : Reader String := fun bs =>
  match skipBlanks bs with
  | [] => .error ⟨.endInValue, 0⟩
  | 0x22 :: rest => stringTail rest
  | bs => .error (wrongType expected bs)

def string : Reader String := text "a string"

/-- Reads an instant written as a timestamp. -/
def instant : Reader Instant := fun bs => do
  let (s, rest) ← text "an RFC 3339 formatted date and time string" bs
  match Rfc3339.read s with
  | .ok t => .ok (t, rest)
  | .error e => .error (.before (.mismatch (.unreadable e.message)) rest)

/-- Reads an instant written as a number of milliseconds. -/
def millis : Reader Instant := fun bs => do
  let (n, rest) ←
    integer (-9223372036854775808) 18446744073709551615 "a unix timestamp in milliseconds" bs
  match Instant.ofMillis? n with
  | some t => .ok (t, rest)
  | none =>
    .error (.before (.mismatch (.unreadable s!"value is not a legal timestamp: {n}")) rest)

/-- Reads a value or null. -/
def nullable (read : Reader α) : Reader (Option α) := fun bs =>
  match skipBlanks bs with
  | 0x6e :: rest => do .ok (none, ← word [0x75, 0x6c, 0x6c] rest)
  | bs => do
    let (a, rest) ← read bs
    .ok (some a, rest)

/-- Reads items up to the closing bracket. `done` holds those so far, last one first. An item has at
least one byte, which bounds the number of turns. -/
def items (read : Reader α) (done : List α) : Nat → Bytes → Except Fault (List α × Bytes)
  | 0, bs => .error (.before .endInList bs)
  | fuel + 1, bs => do
    match ← nextItem done.isEmpty bs with
    | .done rest => .ok (done.reverse, rest)
    | .more item =>
      let (a, rest) ← read item
      items read (a :: done) fuel rest

/-- Reads a list. -/
def list (read : Reader α) : Reader (List α) := fun bs =>
  match skipBlanks bs with
  | [] => .error ⟨.endInValue, 0⟩
  | 0x5b :: rest => items read [] (rest.length + 1) rest
  | bs => .error (wrongType "a sequence" bs)

/-- Reads a whole text as one value. -/
def whole (read : Reader α) (bs : Bytes) : Except Fault α := do
  let (a, rest) ← read bs
  match skipBlanks rest with
  | [] => .ok a
  | _ :: rest => .error (.before .trailing rest)

/-- Reads a whole text as one value; a fault is given with its place. -/
def parse (read : Reader α) (bs : Bytes) : Except Place α :=
  (whole read bs).mapError (·.locate bs)

end AddressExchange.Json
