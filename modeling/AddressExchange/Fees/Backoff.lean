import AddressExchange.Json.Record
import AddressExchange.Json.Value

/-!
# Waiting between attempts

After each failed attempt the wait doubles, up to a bound, and up to a tenth more is added at
random. Sums, products and powers that saturate stop at the greatest number of 64 bits; adding at random
does not.
-/

namespace AddressExchange

namespace Saturating

/-- The greatest number of 64 bits. -/
def top : UInt64 := 0xffffffffffffffff

/-- The product, or the greatest number if it does not fit. -/
def multiply (a b : UInt64) : UInt64 := if a.toNat * b.toNat < UInt64.size then a * b else top

/-- The sum, or the greatest number if it does not fit. -/
def add (a b : UInt64) : UInt64 := if a.toNat + b.toNat < UInt64.size then a + b else top

/-- The power, or the greatest number if it does not fit. Squares halve the exponent. -/
def power (a : UInt64) (n : Nat) : UInt64 :=
  if n = 0 then 1
  else
    let root := power a (n / 2)
    let square := multiply root root
    if n % 2 = 1 then multiply square a else square
termination_by n
decreasing_by omega

/-- The next number of 32 bits, or the greatest one. -/
def next (a : UInt32) : UInt32 := if a.toNat + 1 < UInt32.size then a + 1 else a

end Saturating

/-- How often and how patiently to try. -/
structure RetryPolicy where
  /-- All attempts, the first one included. -/
  maxAttempts : UInt32 := 4
  /-- Milliseconds before the second attempt. -/
  baseDelay : UInt64 := 500
  /-- The most milliseconds of one wait, without what is added at random. -/
  maxDelay : UInt64 := 30000
  deriving DecidableEq, Repr

namespace RetryPolicy

/-- The policy of a single attempt. -/
def single : RetryPolicy := { maxAttempts := 1 }

/-- The wait after an attempt without what is added at random. Attempts are counted from one. -/
def cappedDelay (p : RetryPolicy) (attempt : UInt32) : UInt64 :=
  min (Saturating.multiply p.baseDelay (Saturating.power 2 (attempt.toNat - 1))) p.maxDelay

/-- What is added to a wait; `draw` is any number drawn at random. -/
def jitter (capped : UInt64) (draw : Nat) : Nat :=
  let range := capped.toNat / 10
  if 0 < range then draw % range else 0

/-- The wait after an attempt with what is added to it; none before the first. -/
def exactDelay (p : RetryPolicy) (attempt : UInt32) (draw : Nat) : Nat :=
  if attempt = 0 then 0
  else
    let capped := p.cappedDelay attempt
    capped.toNat + jitter capped draw

/-- The milliseconds to wait after an attempt. The sum is one of 64 bits, and what goes beyond them is
lost. -/
def delay (p : RetryPolicy) (attempt : UInt32) (draw : Nat) : Nat :=
  p.exactDelay attempt draw % UInt64.size

/-- The milliseconds to wait where sums are checked; one that goes beyond 64 bits ends the program. -/
def delay? (p : RetryPolicy) (attempt : UInt32) (draw : Nat) : Option Nat :=
  let sum := p.exactDelay attempt draw
  if sum < UInt64.size then some sum else none

/-- May another attempt follow? -/
def allowsRetryAfter (p : RetryPolicy) (attempt : UInt32) : Bool := attempt < p.maxAttempts

def toJson (p : RetryPolicy) : Json.Value :=
  .object [("max_attempts", .number p.maxAttempts.toNat),
    ("base_delay_ms", .number p.baseDelay.toNat), ("max_delay_ms", .number p.maxDelay.toNat)]

def reader : Json.Reader RetryPolicy := fun bs => do
  let ((attempts, base, most, ()), rest) ← Json.Members.reader "RetryPolicy"
    (.more (.required "max_attempts" Json.nat32) <| .more (.required "base_delay_ms" Json.nat64) <|
      .more (.required "max_delay_ms" Json.nat64) .none) bs
  .ok (⟨.ofNat attempts, .ofNat base, .ofNat most⟩, rest)

end RetryPolicy

end AddressExchange
