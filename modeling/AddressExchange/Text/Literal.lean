/-!
# Integer literals

Decimal integers as settings, rows and arguments hold them: digits with at most one sign in front,
no blanks, any number of leading zeros, refused beyond the range that is asked for.
-/

namespace AddressExchange.Text

/-- The value of a decimal digit. -/
def digit? (c : Char) : Option Nat :=
  if '0' ≤ c ∧ c ≤ '9' then some (c.toNat - 48) else none

/-- The number that a non-empty list of digits stands for. -/
def digits? : List Char → Option Nat
  | [] => none
  | cs => cs.foldl (fun n c => do return (← n) * 10 + (← digit? c)) (some 0)

/-- The integer of a literal that may carry a sign. -/
def signed? (s : String) : Option Int :=
  match s.toList with
  | '-' :: ds => (digits? ds).map fun n => -(n : Int)
  | '+' :: ds => (digits? ds).map fun n => (n : Int)
  | ds => (digits? ds).map fun n => (n : Int)

/-- The integer of a literal, if it lies in a range. -/
def integer? (low high : Int) (s : String) : Option Int :=
  (signed? s).filter fun n => low ≤ n && n ≤ high

/-- The integer of a literal of 64 bits with a sign. -/
def int64? (s : String) : Option Int := integer? (-9223372036854775808) 9223372036854775807 s

/-- The natural number of a literal that may begin with `+`, if it is at most `high`. -/
def natural? (high : Nat) (s : String) : Option Nat :=
  let value := match s.toList with
    | '+' :: ds => digits? ds
    | ds => digits? ds
  value.filter fun n => n ≤ high

/-- The natural number of a literal of 64 bits. -/
def nat64? (s : String) : Option Nat := natural? 18446744073709551615 s

end AddressExchange.Text
