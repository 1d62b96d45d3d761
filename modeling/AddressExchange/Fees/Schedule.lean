import AddressExchange.Failure
import AddressExchange.Fees.Backoff

/-!
# The fee schedule

Each send of the wallet accrues a fee. When the sends since the last payment reach a threshold,
which is drawn at random, the accrued amount falls due to one of the addresses that the Matcher
gave.
-/

namespace AddressExchange

/-- What a send costs, when payments fall due, and how addresses are asked for. -/
structure FeeConfig where
  feePerSend : UInt64 := 1000
  /-- The fewest sends before a payment falls due. -/
  minSends : UInt32 := 20
  /-- The most sends before a payment falls due. -/
  maxSends : UInt32 := 30
  retry : RetryPolicy := {}
  deriving DecidableEq, Repr

namespace FeeConfig

/-- Refuses a configuration without a threshold or without an attempt. -/
def validate (c : FeeConfig) : Except Failure Unit :=
  if c.minSends = 0 ∨ c.maxSends < c.minSends then
    .error (.config s!"invalid send range {c.minSends.toNat}..={c.maxSends.toNat}")
  else if c.retry.maxAttempts = 0 then .error (.config "max_attempts must be at least 1")
  else .ok ()

/-- The threshold that a number drawn at random stands for. -/
def threshold (c : FeeConfig) (draw : Nat) : UInt32 :=
  if c.maxSends ≤ c.minSends then c.minSends
  else .ofNat (c.minSends.toNat + draw % (c.maxSends.toNat - c.minSends.toNat + 1))

def toJson (c : FeeConfig) : Json.Value :=
  .object [("fee_per_send_sats", .number c.feePerSend.toNat),
    ("min_sends", .number c.minSends.toNat), ("max_sends", .number c.maxSends.toNat),
    ("retry", c.retry.toJson)]

def reader : Json.Reader FeeConfig := fun bs => do
  let ((fee, least, most, retry, ()), rest) ← Json.Members.reader "FeeConfig"
    (.more (.required "fee_per_send_sats" Json.nat64) <| .more (.required "min_sends" Json.nat32) <|
      .more (.required "max_sends" Json.nat32) <|
      .more (.required "retry" RetryPolicy.reader) .none) bs
  .ok (⟨.ofNat fee, .ofNat least, .ofNat most, retry⟩, rest)

end FeeConfig

/-- A payment that the wallet should make. -/
structure FeePayment where
  address : String
  amount : UInt64
  deriving DecidableEq, Repr

namespace FeePayment

def toJson (p : FeePayment) : Json.Value :=
  .object [("address", .text p.address), ("amount_sats", .number p.amount.toNat)]

def reader : Json.Reader FeePayment := fun bs => do
  let ((address, amount, ()), rest) ← Json.Members.reader "FeePayment"
    (.more (.required "address" Json.string) <| .more (.required "amount_sats" Json.nat64) .none) bs
  .ok (⟨address, .ofNat amount⟩, rest)

end FeePayment

/-- Sends and fees since the last payment. -/
structure FeeState where
  sends : UInt32
  accrued : UInt64
  /-- The number of sends at which a payment falls due. -/
  threshold : UInt32
  deriving DecidableEq, Repr

namespace FeeState

/-- The state after a payment, with a new threshold. -/
def fresh (c : FeeConfig) (draw : Nat) : FeeState := ⟨0, 0, c.threshold draw⟩

/-- Counts one send. -/
def recordSend (s : FeeState) (c : FeeConfig) : FeeState :=
  { s with sends := Saturating.next s.sends, accrued := Saturating.add s.accrued c.feePerSend }

/-- Is a payment due? -/
def isDue (s : FeeState) : Bool := 0 < s.accrued && s.threshold ≤ s.sends

/-- The payment that is due, to an address drawn at random. -/
def paymentDue (s : FeeState) (addresses : List String) (draw : Nat) : Option FeePayment :=
  if s.isDue then addresses[draw % addresses.length]?.map fun address => ⟨address, s.accrued⟩
  else none

def toJson (s : FeeState) : Json.Value :=
  .object [("sends_since_payment", .number s.sends.toNat),
    ("accrued_sats", .number s.accrued.toNat), ("threshold", .number s.threshold.toNat)]

def reader : Json.Reader FeeState := fun bs => do
  let ((sends, accrued, threshold, ()), rest) ← Json.Members.reader "FeeState"
    (.more (.required "sends_since_payment" Json.nat32) <|
      .more (.required "accrued_sats" Json.nat64) <|
      .more (.required "threshold" Json.nat32) .none) bs
  .ok (⟨.ofNat sends, .ofNat accrued, .ofNat threshold⟩, rest)

end FeeState

end AddressExchange
