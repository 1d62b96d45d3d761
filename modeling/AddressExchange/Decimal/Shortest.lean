/-!
# Shortest decimals

The decimal with the fewest digits that still lies nearest to a given floating point number. All
arithmetic is exact: a number is a fraction of naturals, and the reals that round to a floating
point number are an interval around it.
-/

namespace AddressExchange.Decimal

/-- A fraction that is not negative. -/
structure Ratio where
  num : Nat
  den : Nat

namespace Ratio

/-- The number `n · 2 ^ e`. -/
def binary (n : Nat) (e : Int) : Ratio :=
  if 0 ≤ e then ⟨n * Nat.pow 2 e.toNat, 1⟩ else ⟨n, Nat.pow 2 (-e).toNat⟩

/-- The number `n · 10 ^ e`. -/
def decimal (n : Nat) (e : Int) : Ratio :=
  if 0 ≤ e then ⟨n * Nat.pow 10 e.toNat, 1⟩ else ⟨n, Nat.pow 10 (-e).toNat⟩

def le (a b : Ratio) : Bool := a.num * b.den ≤ b.num * a.den
def lt (a b : Ratio) : Bool := a.num * b.den < b.num * a.den

/-- The largest `n` with `n · 10 ^ e ≤ a`. -/
def floorAt (a : Ratio) (e : Int) : Nat :=
  if 0 ≤ e then a.num / (a.den * Nat.pow 10 e.toNat) else a.num * Nat.pow 10 (-e).toNat / a.den

/-- The number of digits in front of the point; zero or less if the number is below one. -/
def magnitude (a : Ratio) : Int :=
  let guess : Int := (Nat.toDigits 10 a.num).length - (Nat.toDigits 10 a.den).length
  if (decimal 1 guess).le a then guess + 1 else guess

end Ratio

/-- A finite floating point number that is not zero, without its sign: `mantissa · 2 ^ exponent`. -/
structure Binary where
  mantissa : Nat
  exponent : Int

namespace Binary

/-- The leading bit of a mantissa of 53 bits, which its pattern leaves out. -/
def hiddenBit : Nat := 4503599627370496

/-- The number behind a pattern of 64 bits, without its sign. -/
def ofBits (bits : Nat) : Binary :=
  let fraction : Nat := bits % hiddenBit
  let field : Nat := bits / hiddenBit % 2048
  if field = 0 then ⟨fraction, -1074⟩ else ⟨hiddenBit + fraction, (field : Int) - 1075⟩

def ratio (b : Binary) : Ratio := .binary b.mantissa b.exponent

/-- The lower end of the reals that round to the number. It is nearer where the spacing halves. -/
def low (b : Binary) : Ratio :=
  if b.mantissa = hiddenBit ∧ -1074 < b.exponent then .binary (4 * b.mantissa - 1) (b.exponent - 2)
  else .binary (2 * b.mantissa - 1) (b.exponent - 1)

/-- The upper end of the reals that round to the number. -/
def high (b : Binary) : Ratio := .binary (2 * b.mantissa + 1) (b.exponent - 1)

/-- Does a real round to the number? The ends do if the mantissa is even. -/
def admits (b : Binary) (a : Ratio) : Bool :=
  if b.mantissa % 2 = 0 then b.low.le a && a.le b.high else b.low.lt a && a.lt b.high

/-- The digits and the exponent of ten of a decimal with `count` digits that rounds to the number;
of two such decimals the nearer one, and of two as near the even one. -/
def withDigits? (b : Binary) (magnitude : Int) (count : Nat) : Option (Nat × Int) :=
  let e := magnitude - count
  let below := b.ratio.floorAt e
  let lower := b.admits (.decimal below e) && below ≠ 0
  let upper := b.admits (.decimal (below + 1) e)
  let half := Ratio.decimal (10 * below + 5) (e - 1)
  if lower && upper then
    if b.ratio.lt half || (half.le b.ratio && b.ratio.le half && below % 2 = 0) then some (below, e)
    else some (below + 1, e)
  else if lower then some (below, e)
  else if upper then some (below + 1, e)
  else none

/-- The digits and the exponent of ten of the shortest decimal that rounds to the number. -/
def shortest (b : Binary) : Nat × Int :=
  let magnitude := b.ratio.magnitude
  ((List.range 17).findSome? fun n => b.withDigits? magnitude (n + 1)).getD (0, 0)

end Binary

end AddressExchange.Decimal
