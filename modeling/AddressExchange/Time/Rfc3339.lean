import AddressExchange.Text.Blank
import AddressExchange.Text.Literal
import AddressExchange.Time.Calendar
import AddressExchange.Time.Instant

/-!
# Timestamps as text

Instants as RFC 3339 writes them. `text` gives the one form that is written. `read` takes more:
blanks between the parts, parts with few digits, a blank for the `T`, offsets from UTC and digits of
the second beyond the ninth.
-/

namespace AddressExchange.Rfc3339

/-! ## Writing -/

/-- A number with zeros in front of it up to a width. -/
def padded (width n : Nat) : String :=
  let ds := Nat.toDigits 10 n
  String.ofList (List.replicate (width - ds.length) '0' ++ ds)

/-- A year; one outside 0 to 9999 carries its sign. -/
def yearText (year : Int) : String :=
  if year < 0 then "-" ++ padded 4 year.natAbs
  else if 9999 < year then "+" ++ padded 4 year.natAbs
  else padded 4 year.natAbs

/-- The part of a second, with the fewest of 0, 3, 6 and 9 digits that hold it. -/
def fractionText (nanos : Nat) : String :=
  if nanos = 0 then ""
  else if nanos % 1000000 = 0 then "." ++ padded 3 (nanos / 1000000)
  else if nanos % 1000 = 0 then "." ++ padded 6 (nanos / 1000)
  else "." ++ padded 9 nanos

/-- Date and time of an instant, without the offset. -/
def localText (t : Instant) : String :=
  let date := Date.ofDays (t.seconds / 86400)
  let clock := t.secondOfDay.toNat
  let leap := t.nanos / 1000000000
  let nanos := t.nanos % 1000000000
  s!"{yearText date.year}-{padded 2 date.month}-{padded 2 date.day}T" ++
    s!"{padded 2 (clock / 3600)}:{padded 2 (clock / 60 % 60)}:{padded 2 (clock % 60 + leap)}" ++
    fractionText nanos

/-- The text of an instant, with `Z` for its offset. -/
def text (t : Instant) : String := localText t ++ "Z"

/-- The text of an instant, with its offset in figures. -/
def textWithOffset (t : Instant) : String := localText t ++ "+00:00"

/-! ## Reading -/

/-- Why a text is no timestamp. -/
inductive Fault where
  | tooShort
  | invalid
  | outOfRange
  | impossible
  | incomplete
  | trailing
  deriving Repr, DecidableEq

/-- The wording of a fault. -/
def Fault.message : Fault → String
  | .tooShort => "premature end of input"
  | .invalid => "input contains invalid characters"
  | .outOfRange => "input is out of range"
  | .impossible => "no possible date and time matching input"
  | .incomplete => "input is not enough for unique date and time"
  | .trailing => "trailing input"

/-- The digits at the start of a text, at most `width` of them. -/
def leadingDigits (width : Nat) (cs : List Char) : List Char :=
  (cs.take width).takeWhile fun c => (Text.digit? c).isSome

/-- The value of a list of digits. -/
def value (ds : List Char) : Nat := (Text.digits? ds).getD 0

/-- A number of one to `width` digits. -/
def number (width : Nat) (cs : List Char) : Except Fault (Nat × List Char) :=
  match cs with
  | [] => .error .tooShort
  | _ =>
    let ds := leadingDigits width cs
    if ds.isEmpty then .error .invalid
    else if 9223372036854775807 < value ds then .error .outOfRange
    else .ok (value ds, cs.drop ds.length)

/-- A number of one or two digits in a range, with blanks in front. -/
def part (low high : Nat) (cs : List Char) : Except Fault (Nat × List Char) := do
  let (n, rest) ← number 2 (Text.trimStart cs)
  if low ≤ n ∧ n ≤ high then .ok (n, rest) else .error .outOfRange

/-- A fixed character, with blanks in front. -/
def mark (c : Char) (cs : List Char) : Except Fault (List Char) :=
  match Text.trimStart cs with
  | [] => .error .tooShort
  | d :: rest => if c = d then .ok rest else .error .invalid

/-- A year: up to four digits, or any number of them behind a sign. -/
def year (cs : List Char) : Except Fault (Int × List Char) := do
  let cs := Text.trimStart cs
  let (n, rest) ← match cs with
    | '-' :: ds => do
      let (n, rest) ← number ds.length ds
      pure (-(n : Int), rest)
    | '+' :: ds => do
      let (n, rest) ← number ds.length ds
      pure ((n : Int), rest)
    | _ => do
      let (n, rest) ← number 4 cs
      pure ((n : Int), rest)
  if -2147483648 ≤ n ∧ n ≤ 2147483647 then .ok (n, rest) else .error .outOfRange

/-- The part of a second behind a point, in nanoseconds; digits beyond the ninth are dropped. -/
def fraction (cs : List Char) : Except Fault (Nat × List Char) :=
  match cs with
  | '.' :: cs => do
    let (n, rest) ← number 9 cs
    let used := (leadingDigits 9 cs).length
    .ok (n * Nat.pow 10 (9 - used), rest.dropWhile fun c => (Text.digit? c).isSome)
  | _ => .ok (0, cs)

/-- The number of bytes of a text. -/
def byteCount (cs : List Char) : Nat := cs.foldl (fun n c => n + c.utf8Size) 0

/-- Exactly two digits, of which the first is at most `high`. -/
def twoDigits (high : Nat) (cs : List Char) : Except Fault (Nat × List Char) :=
  if byteCount cs < 2 then .error .tooShort
  else match cs with
    | a :: b :: rest =>
      match Text.digit? a, Text.digit? b with
      | some m, some n => if m ≤ high then .ok (m * 10 + n, rest) else .error .outOfRange
      | _, _ => .error .invalid
    | _ => .error .invalid

/-- The seconds by which local time is ahead of UTC. -/
def offset (cs : List Char) : Except Fault (Int × List Char) := do
  match cs with
  | 'Z' :: rest | 'z' :: rest => .ok (0, rest)
  | _ =>
    if (cs.take 3).map Char.toUpper = ['U', 'T', 'C'] then .ok (0, cs.drop 3)
    else
      let (sign, cs) ← match cs with
        | '+' :: rest => .ok ((1 : Int), rest)
        | '-' :: rest | '−' :: rest => .ok (-1, rest)
        | [] => .error .tooShort
        | _ => .error .invalid
      let (hours, cs) ← twoDigits 9 cs
      let cs := cs.dropWhile fun c => c = ':' || Text.isBlank c
      let (minutes, cs) ← twoDigits 5 cs
      .ok (sign * ((hours * 3600 + minutes * 60 : Nat) : Int), cs)

/-- Puts a date, a time of day and an offset together. The second may be 60. -/
def assemble (date : Date) (hour minute second nanos : Nat) (offset : Int) :
    Except Fault Instant :=
  if !date.isValid || date.year < -262143 || 262142 < date.year then .error .outOfRange
  else if offset ≤ -86400 || 86400 ≤ offset then .error .outOfRange
  else
    let leap := if second = 60 then 1 else 0
    let clock := hour * 3600 + minute * 60 + (second - leap)
    match Instant.of? (date.toDays * 86400 + clock - offset) (leap * 1000000000 + nanos) with
    | some t => .ok t
    | none => .error .impossible

/-- Reads an instant. -/
def read (s : String) : Except Fault Instant := do
  let (y, cs) ← year s.toList
  let cs ← mark '-' cs
  let (month, cs) ← part 1 12 cs
  let cs ← mark '-' cs
  let (day, cs) ← part 1 31 cs
  let cs ← match cs with
    | [] => .error .incomplete
    | 't' :: rest | 'T' :: rest | ' ' :: rest => .ok rest
    | _ => .error .invalid
  let (hour, cs) ← part 0 23 cs
  let cs ← mark ':' cs
  let (minute, cs) ← part 0 59 cs
  let cs ← mark ':' cs
  let (second, cs) ← part 0 60 cs
  let (nanos, cs) ← fraction cs
  let cs := Text.trimStart cs
  if cs.isEmpty then .error .incomplete
  else
    let (shift, cs) ← offset cs
    if (Text.trimStart cs).isEmpty then assemble ⟨y, month, day⟩ hour minute second nanos shift
    else .error .trailing

end AddressExchange.Rfc3339
