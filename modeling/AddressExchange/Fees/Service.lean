import AddressExchange.Exchange.Payer
import AddressExchange.Fees.Schedule

/-!
# The fee service

What a wallet uses: it keeps the last addresses that the Matcher gave, refreshes them as well as it
can, and tells when a fee is to be paid and to whom. All that it needs from outside is handed to it.
-/

namespace AddressExchange

/-- What the service needs from outside, over states `σ` of the world. -/
structure WalletHost (σ : Type) where
  cipher : Cipher
  /-- Random bytes. -/
  random : StateM σ Bytes
  /-- A number drawn at random. -/
  draw : StateM σ Nat
  /-- The way to the Matcher. -/
  post : Exchange.Transport σ
  /-- Reads the replay date that was kept. -/
  load : StateM σ (Except Failure (Option Instant))
  /-- Keeps a replay date. -/
  save : Option Instant → StateM σ (Except Failure Unit)
  /-- Waits for a number of milliseconds. -/
  wait : Nat → StateM σ Unit

/-- The service of one wallet. -/
structure FeeService where
  payerId : PayerId
  matcherKey : PublicKey
  config : FeeConfig
  /-- The last allocation with addresses. -/
  cached : Allocation
  fees : FeeState

namespace FeeService

variable {σ : Type}

/-- A new service, if its configuration is valid. -/
def make (host : WalletHost σ) (payerId : PayerId) (matcherKey : PublicKey) (config : FeeConfig) :
    StateM σ (Except Failure FeeService) := do
  match config.validate with
  | .error e => pure (.error e)
  | .ok () =>
    let draw ← host.draw
    pure (.ok ⟨payerId, matcherKey, config, ⟨[], none⟩, .fresh config draw⟩)

/-! ## Addresses -/

/-- Runs one exchange. -/
def requestAddresses (host : WalletHost σ) (s : FeeService) (prior : Option Instant) :
    StateM σ (Except Failure Allocation) := do
  match Exchange.build host.cipher (← host.random) s.matcherKey (some s.payerId) prior with
  | .error e => pure (.error e)
  | .ok x =>
    let (_, result) ← x.send host.cipher (← host.random) host.post
    pure result

/-- The date to name; none if it cannot be loaded. -/
def priorDate (host : WalletHost σ) : StateM σ (Option Instant) := do
  match ← host.load with
  | .ok date => pure date
  | .error _ => pure none

/-- Runs exchanges until one succeeds, fails for good, or no further attempt is allowed. `left`
counts the attempts that may follow this one. -/
def attempts (host : WalletHost σ) (s : FeeService) (prior : Option Instant) (attempt : UInt32) :
    (left : Nat) → StateM σ (Option Allocation)
  | 0 => return (← s.requestAddresses host prior).toOption
  | left + 1 => do
    match ← s.requestAddresses host prior with
    | .ok a => pure (some a)
    | .error e =>
      if e.isRecoverable then
        host.wait (s.config.retry.delay attempt (← host.draw))
        attempts host s prior (attempt + 1) left
      else pure none

/-- Keeps the date of an allocation, if it has one. That it cannot be kept changes nothing else. -/
def keepDate (host : WalletHost σ) (a : Allocation) : StateM σ Unit := do
  if a.replayDate.isSome then
    let _ ← host.save a.replayDate

/-- Keeps the addresses of an allocation, if it has any. -/
def keepAddresses (s : FeeService) (a : Allocation) : FeeService :=
  if a.addresses.isEmpty then s else { s with cached := a }

/-- Refreshes the addresses as well as it can. Gives the allocation that was received, if one was.
-/
def refresh (host : WalletHost σ) (s : FeeService) : StateM σ (FeeService × Option Allocation) := do
  let prior ← priorDate host
  match ← s.attempts host prior 1 (s.config.retry.maxAttempts.toNat - 1) with
  | none => pure (s, none)
  | some a => do
    keepDate host a
    pure (s.keepAddresses a, some a)

/-! ## Fees -/

/-- The payment that is due. -/
def nextPayment (s : FeeService) (draw : Nat) : Option FeePayment :=
  s.fees.paymentDue s.cached.addresses draw

/-- Counts one send. -/
def recordSend (s : FeeService) : FeeService := { s with fees := s.fees.recordSend s.config }

/-- Starts anew after a payment. -/
def recordPaid (s : FeeService) (draw : Nat) : FeeService :=
  { s with fees := .fresh s.config draw }

end FeeService

end AddressExchange
