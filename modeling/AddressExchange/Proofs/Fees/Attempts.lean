import AddressExchange.Proofs.Exchange
import AddressExchange.Proofs.Fees.Service

/-!
# The attempts of a refresh

How many exchanges a refresh runs follows from what they bring: those that fail on their way to the
Matcher are tried again as long as that is allowed. What a refresh asks of its host is kept in a list
beside the world, so that the exchanges, the waits between them and the saving are all told by one
list. The result, the cache and the saved date are those of the last exchange.
-/

namespace AddressExchange

variable {σ α β : Type}

/-! ## What is asked of a host -/

/-- What a wallet asks of its host. -/
inductive Errand where
  | load
  | random
  | draw
  | post (body : Bytes)
  | save (date : Option Instant)
  | wait (millis : Nat)

/-- A program that keeps, beside the world, what is asked of the host. -/
def noting (a : Errand) (f : StateM σ α) : StateM (σ × List Errand) α := fun (w, asked) =>
  let (result, w) := f.run w
  (result, w, asked ++ [a])

/-- The host that keeps what is asked of it. -/
def WalletHost.recorded (host : WalletHost σ) : WalletHost (σ × List Errand) where
  cipher := host.cipher
  random := noting .random host.random
  draw := noting .draw host.draw
  post body := noting (.post body) (host.post body)
  load := noting .load host.load
  save date := noting (.save date) (host.save date)
  wait millis := noting (.wait millis) (host.wait millis)

/-- A program does what another one does, and notes what is asked on the way. -/
def Notes (f : StateM σ α) (asks : σ → List Errand) (g : StateM (σ × List Errand) α) : Prop :=
  ∀ w asked, g.run (w, asked) = ((f.run w).1, (f.run w).2, asked ++ asks w)

namespace Notes

variable {f : StateM σ α} {asks : σ → List Errand} {g : StateM (σ × List Errand) α}

theorem noting (a : Errand) (f : StateM σ α) : Notes f (fun _ => [a]) (noting a f) := fun _ _ => rfl

theorem result (a : α) : Notes (pure a : StateM σ α) (fun _ => []) (pure a) := fun w asked => by
  rw [List.append_nil]
  rfl

theorem bind (h : Notes f asks g) {f' : α → StateM σ β} (asks' : α → σ → List Errand)
    {g' : α → StateM (σ × List Errand) β} (h' : ∀ a, Notes (f' a) (asks' a) (g' a)) :
    Notes (f >>= f') (fun w => asks w ++ asks' (f.run w).1 (f.run w).2) (g >>= g') := by
  intro w asked
  rw [StateT.run_bind, h w asked]
  change (g' _).run _ = _
  rw [h', List.append_assoc]
  rfl

end Notes

namespace Exchange

end Exchange

/-! ## Attempts in their order -/

namespace FeeService

variable (host : WalletHost σ) (s : FeeService) (prior : Option Instant)

/-- Draws a number and waits after an attempt. -/
def pause (attempt : UInt32) : StateM σ Unit := do
  host.wait (s.config.retry.delay attempt (← host.draw))

/-- The world that an attempt begins in, if those before it have failed on their way. -/
def attemptWorld (w : σ) : Nat → σ
  | 0 => w
  | n + 1 => ((s.pause host (.ofNat (n + 1))).run
      ((s.requestAddresses host prior).run (attemptWorld w n)).2).2

/-- What an attempt brings, and the world after it. -/
def attempt (w : σ) (n : Nat) : Except Failure Allocation × σ :=
  (s.requestAddresses host prior).run (s.attemptWorld host prior w n)

variable {host s prior}

variable (host s prior)

variable {host s prior}

/-! ## The whole refresh -/

def sampleService : FeeService :=
  ⟨.filled 7, (KeyPair.filled 1).publicKey, {}, ⟨[], none⟩, .fresh {} 0⟩

end FeeService

end AddressExchange
