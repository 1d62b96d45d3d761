import AddressExchange.Decimal.Shortest
import AddressExchange.Json.Token

/-!
# Numbers of JSON

A number is read as its digits. One without fraction and exponent is an integer if it fits 64 bits;
every other is a floating point number, of which only the shown form is kept, since no member of a
record holds one.
-/

namespace AddressExchange.Json

/-- The digits of a number. -/
structure Numeral where
  negative : Bool
  whole : Bytes
  /-- The digits behind the point, none if there is no point. -/
  fraction : Bytes
  /-- Is the exponent negative, and its digits. -/
  exponent : Option (Bool × Bytes)

/-- The digits at the start of bytes, and what is behind them. -/
def spanDigits (bs : Bytes) : Bytes × Bytes := (bs.takeWhile isDigit, bs.dropWhile isDigit)

/-- Reads the digits in front of the point; a zero stands alone. `atEnd` is the fault of a text that
ends too soon. -/
def wholePart (atEnd : Cause) (bs : Bytes) : Except Fault (Bytes × Bytes) :=
  match bs with
  | [] => .error ⟨atEnd, 0⟩
  | 0x30 :: d :: rest =>
    if isDigit d then .error (.before .badNumber rest) else .ok ([0x30], d :: rest)
  | b :: rest => if isDigit b then .ok (spanDigits bs) else .error (.before .badNumber rest)

/-- Reads a point and the digits behind it, if there is one. -/
def fractionPart (atEnd : Cause) (bs : Bytes) : Except Fault (Bytes × Bytes) :=
  match bs with
  | 0x2e :: rest =>
    match spanDigits rest with
    | ([], []) => .error ⟨atEnd, 0⟩
    | ([], rest) => .error (.atHead .badNumber rest)
    | part => .ok part
  | _ => .ok ([], bs)

/-- Reads an exponent, if there is one. -/
def exponentPart (atEnd : Cause) (bs : Bytes) : Except Fault (Option (Bool × Bytes) × Bytes) :=
  match bs with
  | [] => .ok (none, [])
  | b :: rest =>
    if b = 0x65 || b = 0x45 then
      let (negative, rest) := match rest with
        | 0x2b :: rest => (false, rest)
        | 0x2d :: rest => (true, rest)
        | _ => (false, rest)
      match spanDigits rest with
      | ([], []) => .error ⟨atEnd, 0⟩
      | ([], rest) => .error (.atHead .badNumber rest)
      | (digits, rest) => .ok (some (negative, digits), rest)
    else .ok (none, bs)

/-- Reads the digits of a number. -/
def numeral (atEnd : Cause) : Reader Numeral := fun bs => do
  let (negative, bs) := match bs with
    | 0x2d :: rest => (true, rest)
    | _ => (false, bs)
  let (whole, bs) ← wholePart atEnd bs
  let (fraction, bs) ← fractionPart atEnd bs
  let (exponent, bs) ← exponentPart atEnd bs
  .ok (⟨negative, whole, fraction, exponent⟩, bs)

/-- The number that digits stand for. -/
def digitsValue (ds : Bytes) : Nat := ds.foldl (fun n d => n * 10 + (d - 0x30).toNat) 0

/-- The integer that a number is, if it is one of 64 bits. A zero with a sign is none. -/
def Numeral.integer? (n : Numeral) : Option Int :=
  if !n.fraction.isEmpty || n.exponent.isSome then none
  else
    let value := digitsValue n.whole
    if n.negative then
      if 0 < value && value ≤ 9223372036854775808 then some (-(value : Int)) else none
    else if value < UInt64.size then some value else none

/-! ## Floating point numbers -/

/-- Appends digits to a number as long as it fits 64 bits. Gives it and the count of digits left. -/
def absorb (n : Nat) : Bytes → Nat × Nat
  | [] => (n, 0)
  | d :: ds =>
    let next := n * 10 + (d - 0x30).toNat
    if next < UInt64.size then absorb next ds else (n, ds.length + 1)

/-- Scales a floating point number by a power of ten; none if it grows out of range. -/
def scale (x : Float) (e : Int) : Nat → Option Float
  | 0 => some x
  | fuel + 1 =>
    if e.natAbs ≤ 308 then
      let power := Float.ofScientific 1 false e.natAbs
      if 0 ≤ e then (if (x * power).isInf then none else some (x * power))
      else some (x / power)
    else if x == 0.0 then some x
    else if 0 ≤ e then none
    else scale (x / Float.ofScientific 1 false 308) (e + 308) fuel

/-- The floating point number nearest to the leading digits, scaled; none if it is out of range. -/
def Numeral.float? (n : Numeral) : Option Float :=
  let (leading, extra) := absorb 0 n.whole
  let (leading, unused) := absorb leading n.fraction
  let place : Int := extra - ((n.fraction.length : Int) - unused)
  let magnitude :=
    match n.exponent with
    | none => scale (Float.ofNat leading) place 4
    | some (negative, digits) =>
      let e := digitsValue digits
      if 2147483647 < e then if leading = 0 || negative then some 0.0 else none
      else scale (Float.ofNat leading) (if negative then place - e else place + e) 4
  magnitude.map fun x => if n.negative then -x else x

/-- A decimal as messages show it: with a point between 1e-5 and 1e16, else with an exponent. -/
def showDigits (digits : Nat) (e : Int) : String :=
  let ds := Nat.toDigits 10 digits
  let point : Int := ds.length + e
  let zeros (n : Int) : List Char := List.replicate n.toNat '0'
  String.ofList <|
    if 0 ≤ e && point ≤ 16 then ds ++ zeros e ++ ['.', '0']
    else if 0 < point && point ≤ 16 then ds.take point.toNat ++ '.' :: ds.drop point.toNat
    else if -5 < point && point ≤ 0 then '0' :: '.' :: (zeros (-point) ++ ds)
    else
      let fraction := if ds.length = 1 then [] else '.' :: ds.drop 1
      ds.take 1 ++ fraction ++ 'e' :: (toString (point - 1)).toList

/-- The bit that holds the sign of a floating point number. -/
def signBit : Nat := 9223372036854775808

/-- A finite floating point number as messages show it. -/
def showFloat (x : Float) : String :=
  let bits := x.toBits.toNat
  let sign := if bits < signBit then "" else "-"
  if bits % signBit = 0 then sign ++ "0.0"
  else
    let (digits, e) := (Decimal.Binary.ofBits bits).shortest
    sign ++ showDigits digits e

/-- What a number is when it stands where something else was asked for. -/
def Numeral.found (n : Numeral) (rest : Bytes) : Except Fault Found :=
  match n.integer? with
  | some i => .ok (.integer i)
  | none =>
    match n.float? with
    | some x => .ok (.decimal (showFloat x))
    | none => .error (.before .hugeNumber rest)

end AddressExchange.Json
