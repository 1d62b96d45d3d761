import AddressExchange.Fees.Service
import AddressExchange.Proofs.Exchange.Course
import AddressExchange.Proofs.Wire.RoundTrip

/-!
# What a refresh does to the stored date

A wallet's host is asked for random bytes, for the way to the Matcher, and for a place where the replay
date is stored. Where that place works, only the saving of a date changes what is stored, and a date
that was received is stored as it is.
-/

namespace AddressExchange

variable {σ α β γ : Type}

/-! ## Programs that leave a part of the world alone -/

/-- A program that leaves a part of the world as it is, and of which every result has a property. -/
def Leaves (part : σ → γ) (P : α → Prop) (f : StateM σ α) : Prop :=
  ∀ w, part (f.run w).2 = part w ∧ P (f.run w).1

namespace Leaves

variable {part : σ → γ} {P : α → Prop} {Q : β → Prop}

theorem result {a : α} (h : P a) : Leaves part P (pure a) := fun _ => ⟨rfl, h⟩

theorem bind {f : StateM σ α} {g : α → StateM σ β} (hf : Leaves part P f)
    (hg : ∀ a, P a → Leaves part Q (g a)) : Leaves part Q (f >>= g) := by
  intro w
  obtain ⟨hpart, hresult⟩ := hf w
  obtain ⟨hpart', hresult'⟩ := hg _ hresult (f.run w).2
  exact ⟨hpart'.trans hpart, hresult'⟩

end Leaves

/-- The date to name is the one that was loaded, and none if that failed. -/
theorem FeeService.run_priorDate (host : WalletHost σ) (w : σ) :
    (priorDate host).run w = ((host.load.run w).1.toOption.join, (host.load.run w).2) := by
  rcases hload : host.load.run w with ⟨_ | date, w'⟩
  · simp only [priorDate, StateT.run_bind, hload]
    rfl
  · simp only [priorDate, StateT.run_bind, hload]
    rfl

/-- Keeping the date of an allocation saves it, if it has one. -/
theorem FeeService.run_keepDate (host : WalletHost σ) (a : Allocation) (w : σ) :
    (keepDate host a).run w = ((), match a.replayDate with
      | some d => ((host.save (some d)).run w).2
      | none => w) := by
  rw [keepDate]
  cases a.replayDate <;> rfl

/-- A refresh in terms of its parts. -/
theorem FeeService.run_refresh (host : WalletHost σ) (s : FeeService) (w : σ) :
    let loading := (priorDate host).run w
    let exchange := (s.attempts host loading.1 1 (s.config.retry.maxAttempts.toNat - 1)).run loading.2
    (s.refresh host).run w = match exchange.1 with
      | none => ((s, none), exchange.2)
      | some a => ((s.keepAddresses a, some a), ((keepDate host a).run exchange.2).2) := by
  intro loading exchange
  have hrun : (s.refresh host).run w =
      StateT.run (match exchange.1 with
        | none => pure (s, none)
        | some a => do
          keepDate host a
          pure (s.keepAddresses a, some a)) exchange.2 := rfl
  rw [hrun]
  cases exchange.1 <;> rfl

/-- A refresh changes nothing of a service but the addresses that it keeps. -/
theorem FeeService.refresh_fst (host : WalletHost σ) (s : FeeService) (w : σ) :
    let refreshed := ((s.refresh host).run w).1
    refreshed.1 = { s with
      cached := (refreshed.2.filter fun a => !a.addresses.isEmpty).getD s.cached } := by
  intro refreshed
  have hrefreshed : refreshed = _ := congrArg Prod.fst (run_refresh host s w)
  rw [hrefreshed]
  split
  · rfl
  · next a _ =>
    dsimp only
    rw [keepAddresses]
    cases haddresses : a.addresses.isEmpty <;> simp [Option.filter, haddresses]

/-- Attempts end with the first one that succeeds. -/
theorem FeeService.run_attempts_of_ok {host : WalletHost σ} {s : FeeService} {prior : Option Instant}
    {w w' : σ} {a : Allocation} (h : (s.requestAddresses host prior).run w = (.ok a, w'))
    (attempt : UInt32) (left : Nat) :
    (s.attempts host prior attempt left).run w = (some a, w') := by
  cases left with
  | zero =>
    rw [attempts, StateT.run_bind, h]
    rfl
  | succ left =>
    rw [attempts, StateT.run_bind, h]
    rfl

/-- A date that is one of whole milliseconds, or none. -/
def Instant.InMillis (date : Option Instant) : Prop := date.map Instant.floorMillis = date

/-- Dates that are received are in milliseconds. -/
theorem Wire.inMillis_of_decodeResponse {bs : Bytes} {r : Response}
    (h : Wire.decodeResponse bs = .ok r) : Instant.InMillis r.replayDate := by
  obtain ⟨frame, hframe, rfl⟩ := decodeResponse_eq_ok.mp h
  exact hframe.millis_or_none.2

/-- Sending an exchange leaves alone what its transport leaves alone. -/
theorem Exchange.leaves_send {part : σ → γ} {post : Transport σ} {x : Exchange}
    (hx : x.state = .built) (cipher : Cipher) (random : Bytes)
    (hpost : ∀ body, Leaves part (fun _ => True) (post body)) :
    Leaves part (fun r => ∀ a, r.2 = .ok a → Instant.InMillis a.replayDate)
      (x.send cipher random post) := by
  intro w
  obtain ⟨bodies, state, result, w', hsending, hsend, -⟩ :=
    send_of_built hx cipher random post w []
  rw [hsend]
  change part w' = part w ∧ ∀ a, result = .ok a → Instant.InMillis a.replayDate
  have hleaves {blob : Bytes} {r : Except Failure Bytes} (h : (post blob).run w = (r, w')) :
      part w' = part w := by
    rw [← (hpost blob w).1, h]
  cases hsending with
  | unsealed => exact ⟨rfl, fun a ha => by cases ha⟩
  | undelivered h hdelivered | unopened h hdelivered =>
    exact ⟨hleaves hdelivered, fun a ha => by cases ha⟩
  | opened h hdelivered hopened =>
    refine ⟨hleaves hdelivered, fun a ha => ?_⟩
    cases ha
    cases hopened with
    | opened hplain hwire => exact Wire.inMillis_of_decodeResponse hwire

/-! ## Hosts that spare a part of the world -/

/-- Of what is asked of a host, only saving a date may change a part of the world. -/
structure WalletHost.Spares (host : WalletHost σ) (part : σ → γ) : Prop where
  load : Leaves part (fun _ => True) host.load
  random : Leaves part (fun _ => True) host.random
  draw : Leaves part (fun _ => True) host.draw
  post (body : Bytes) : Leaves part (fun _ => True) (host.post body)
  wait (millis : Nat) : Leaves part (fun _ => True) (host.wait millis)

namespace WalletHost.Spares

variable {host : WalletHost σ} {part : σ → γ} (h : host.Spares part)

include h

/-- An exchange leaves the part alone, and the date that it receives is in milliseconds. -/
theorem leaves_requestAddresses (s : FeeService) (prior : Option Instant) :
    Leaves part (fun r => ∀ a, r = .ok a → Instant.InMillis a.replayDate)
      (s.requestAddresses host prior) := by
  refine h.random.bind fun keySeed _ => ?_
  simp only [Exchange.build]
  refine h.random.bind fun random _ => ?_
  refine (Exchange.leaves_send rfl host.cipher random h.post).bind fun r hr => ?_
  exact .result hr

/-- So do any number of attempts. -/
theorem leaves_attempts (s : FeeService) (prior : Option Instant) (attempt : UInt32) (left : Nat) :
    Leaves part (fun r => ∀ a, r = some a → Instant.InMillis a.replayDate)
      (s.attempts host prior attempt left) := by
  induction left generalizing attempt with
  | zero =>
    refine (h.leaves_requestAddresses s prior).bind fun r hr => .result ?_
    cases r with
    | ok a => exact fun a ha => hr a (congrArg _ (Option.some.inj ha))
    | error e => exact fun a ha => by cases ha
  | succ left ih =>
    refine (h.leaves_requestAddresses s prior).bind fun r hr => ?_
    cases r with
    | ok a => exact .result fun a ha => hr a (congrArg _ (Option.some.inj ha))
    | error e =>
      dsimp only
      split
      · exact h.draw.bind fun draw _ => (h.wait _).bind fun _ _ => ih (attempt + 1)
      · exact .result fun a ha => by cases ha

end WalletHost.Spares

/-! ## Hosts that store -/

/-- A host whose store works. What is stored is what was saved last, whatever else is asked of the
host. Only dates in milliseconds need to be stored as they are. -/
structure WalletHost.Stores (host : WalletHost σ) (stored : σ → Option Instant) : Prop where
  load (w : σ) : (host.load.run w).1 = .ok (stored w) ∧ stored (host.load.run w).2 = stored w
  save (w : σ) {date : Option Instant} (h : Instant.InMillis date) :
    ((host.save date).run w).1 = .ok () ∧ stored ((host.save date).run w).2 = date
  random : Leaves stored (fun _ => True) host.random
  draw : Leaves stored (fun _ => True) host.draw
  post (body : Bytes) : Leaves stored (fun _ => True) (host.post body)
  wait (millis : Nat) : Leaves stored (fun _ => True) (host.wait millis)

namespace WalletHost.Stores

open FeeService (priorDate keepDate)

variable {host : WalletHost σ} {stored : σ → Option Instant} (h : host.Stores stored)

include h

theorem spares : host.Spares stored where
  load w := ⟨(h.load w).2, trivial⟩
  random := h.random
  draw := h.draw
  post := h.post
  wait := h.wait

/-- The date that is named is the stored one. -/
theorem run_priorDate (w : σ) :
    ((priorDate host).run w).1 = stored w ∧ stored ((priorDate host).run w).2 = stored w := by
  obtain ⟨hdate, hstored⟩ := h.load w
  rw [FeeService.run_priorDate, hdate]
  exact ⟨rfl, hstored⟩

/-- Keeping the date of an allocation stores it, if it has one. -/
theorem stored_keepDate {a : Allocation} (ha : Instant.InMillis a.replayDate) (w : σ) :
    stored ((keepDate host a).run w).2 = a.replayDate.or (stored w) := by
  rw [FeeService.run_keepDate]
  cases hdate : a.replayDate with
  | none => rfl
  | some d =>
    rw [hdate] at ha
    exact (h.save w ha).2

end WalletHost.Stores

end AddressExchange
