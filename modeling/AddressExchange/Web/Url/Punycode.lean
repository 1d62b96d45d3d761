/-!
# Labels in ASCII

A label of a domain name that has characters beyond ASCII is written with its ASCII characters
first; behind a hyphen follow, as numbers of variable length, the others by rising code point and
place.
-/

namespace AddressExchange.Web.Punycode

/-- The digit of a value below 36. -/
def digit (n : Nat) : Char := Char.ofNat (if n < 26 then 0x61 + n else 0x16 + n)

/-- The value of a digit of either case. -/
def value? (c : Char) : Option Nat :=
  let n := c.toNat
  if 0x61 ≤ n && n ≤ 0x7a then some (n - 0x61)
  else if 0x41 ≤ n && n ≤ 0x5a then some (n - 0x41)
  else if 0x30 ≤ n && n ≤ 0x39 then some (n - 0x16)
  else none

/-- A digit below this value ends its number; `weight` grows by 36 with each digit. -/
def threshold (weight bias : Nat) : Nat := max 1 (min 26 (weight - bias))

theorem threshold_bounds (weight bias : Nat) :
    1 ≤ threshold weight bias ∧ threshold weight bias ≤ 26 := by
  unfold threshold; omega

/-- Scales a difference down; `steps` counts how often. -/
def scale (delta steps : Nat) : Nat :=
  if 455 < delta then scale (delta / 35) (steps + 1) else steps * 36 + 36 * delta / (delta + 38)
termination_by delta
decreasing_by omega

/-- The bias behind a number, from the number and the count of characters so far. -/
def adapt (delta count : Nat) (first : Bool) : Nat :=
  let delta := if first then delta / 700 else delta / 2
  scale (delta + delta / count) 0

/-- The digits of a number. -/
def encodeNumber (bias weight n : Nat) : List Char :=
  let t := threshold weight bias
  if n < t then [digit n]
  else digit (t + (n - t) % (36 - t)) :: encodeNumber bias (weight + 36) ((n - t) / (36 - t))
termination_by n
decreasing_by
  have := threshold_bounds weight bias
  calc (n - threshold weight bias) / (36 - threshold weight bias)
      ≤ n - threshold weight bias := Nat.div_le_self _ _
    _ < n := by omega

/-- How far the writing of a label has come: its text last character first, the difference to the
next number, and the count of characters written. -/
structure Writing where
  text : List Char
  delta : Nat
  bias : Nat
  count : Nat

/-- Passes a character of the label while those of code point `n` are written. `basic` counts the
characters of ASCII. -/
def Writing.pass (basic n : Nat) (w : Writing) (c : Char) : Writing :=
  if c.toNat < n then { w with delta := w.delta + 1 }
  else if c.toNat = n then
    ⟨(encodeNumber w.bias 36 w.delta).reverse ++ w.text, 0,
      adapt w.delta (w.count + 1) (w.count = basic), w.count + 1⟩
  else w

/-- A label in ASCII. -/
def encode (label : List Char) : List Char :=
  let basic := label.filter (·.toNat < 128)
  let others := ((label.filter (128 ≤ ·.toNat)).map Char.toNat).eraseDups.mergeSort
  let start := if basic.isEmpty then [] else '-' :: basic.reverse
  let (w, _) := others.foldl (fun (w, n) code =>
      let w := { w with delta := w.delta + (code - n) * (w.count + 1) }
      let w := label.foldl (Writing.pass basic.length code) w
      ({ w with delta := w.delta + 1 }, code + 1))
    ((⟨start, 0, 72, basic.length⟩ : Writing), 128)
  w.text.reverse

/-- Reads a number: its value added to `sum`, and what follows it. -/
def decodeNumber (bias weight unit sum : Nat) : List Char → Option (Nat × List Char)
  | [] => none
  | c :: rest => do
    let d ← value? c
    let t := threshold weight bias
    if d < t then some (sum + d * unit, rest)
    else decodeNumber bias (weight + 36) (unit * (36 - t)) (sum + d * unit) rest

/-- Puts characters into the label, one for each number. A number has at least one digit, which
bounds the number of turns. -/
def insertAll (label : List Char) (n i bias : Nat) : Nat → List Char → Option (List Char)
  | _, [] => some label
  | 0, _ => none
  | fuel + 1, digits => do
    let (sum, rest) ← decodeNumber bias 36 1 i digits
    let count := label.length + 1
    let code := n + sum / count
    if code.isValidChar then
      insertAll (label.insertIdx (sum % count) (Char.ofNat code)) code (sum % count + 1)
        (adapt (sum - i) count (i = 0)) fuel rest
    else none

/-- The label that a text in ASCII stands for. -/
def decode (text : List Char) : Option (List Char) :=
  let digits := (text.reverse.takeWhile (· ≠ '-')).reverse
  let basic := (text.reverse.dropWhile (· ≠ '-')).drop 1 |>.reverse
  insertAll basic 128 0 72 digits.length digits

end AddressExchange.Web.Punycode
