import AddressExchange.Proofs.Fees.Accrual
import Mathlib.Logic.Relation

/-!
# Payments that take their time

A wallet takes a payment that it was given, makes it, and then reports it, one at a time. It may go on
sending meanwhile. A report starts the fees anew, so all that was sent until the taking is paid, and
what was sent between the taking and the report is not.
-/

namespace AddressExchange

variable {σ : Type}

open FeeService (Call make)

namespace Billing

variable (b : Billing σ) {host : WalletHost σ} {q : Call}

/-- All sends so far. -/
def recorded : Nat := b.log.countP fun e => e.1.isSend

/-- Can the fee of a call be counted? -/
def Room (q : Call) : Prop :=
  q.isSend = true → b.service.fees.accrued.toNat + b.service.config.feePerSend.toNat < 2 ^ 64

variable {b}

theorem recorded_after :
    (b.after host q).recorded = b.recorded + if q.isSend then 1 else 0 := by
  rw [recorded, log_after, List.countP_cons]
  rfl

/-- What a call adds to the accrued amount, unless it is a report. -/
theorem accrued_after (hq : q.isPaid = false) (hroom : b.Room q) :
    (b.after host q).service.fees.accrued.toNat = b.service.fees.accrued.toNat +
      b.service.config.feePerSend.toNat * if q.isSend then 1 else 0 := by
  rw [service_after]
  cases q with
  | send draw =>
    have hlt := hroom rfl
    rw [feesAfter, FeeState.recordSend, Saturating.toNat_add, Call.isSend, if_pos rfl, Nat.mul_one]
    omega
  | nextPayment draw | refresh => rfl
  | paid draw => cases hq

/-- A payment is of all that has accrued. -/
theorem amount_of_mem_offer {p : FeePayment} (hp : p ∈ b.offer host q) :
    p.amount = (b.after host q).service.fees.accrued := by
  obtain ⟨draw, hoffer⟩ : ∃ draw, b.offer host q = (b.after host q).service.nextPayment draw :=
    offer_eq (asks_of_mem_offer hp)
  exact (FeeState.of_mem_paymentDue (hoffer ▸ hp)).1

end Billing

/-- A wallet that pays. -/
structure Settling (σ : Type) where
  billing : Billing σ
  /-- The payment that was taken and not reported yet. -/
  taken : Option FeePayment := none
  /-- The sends since it was taken. -/
  late : Nat := 0
  /-- What was paid in all, up to the last report. -/
  paid : Nat := 0
  /-- The sends that fell between the taking of a payment and its report. -/
  missed : Nat := 0

namespace Settling

/-- A wallet with a new service. -/
def start (s : FeeService) (w : σ) : Settling σ := { billing := ⟨s, w, []⟩ }

variable (r : Settling σ) (host : WalletHost σ)

/-- What has accrued. -/
def accrued : Nat := r.billing.service.fees.accrued.toNat

/-- A call whose payment, if it gives one, is passed over. -/
def call (q : Call) : Settling σ :=
  { r with billing := r.billing.after host q, late := r.late + if q.isSend then 1 else 0 }

/-- A call whose payment is taken. -/
def take (q : Call) (p : FeePayment) : Settling σ :=
  { r with billing := r.billing.after host q, taken := some p, late := 0 }

/-- The report that a payment was made. -/
def report (draw : Nat) (p : FeePayment) : Settling σ where
  billing := r.billing.after host (.paid draw)
  paid := r.paid + p.amount.toNat
  missed := r.missed + r.late

/-- What a wallet does that pays one payment at a time, and reports each once. -/
inductive Step : Settling σ → Settling σ → Prop
  | call {r : Settling σ} {q : Call} (hq : q.isPaid = false) (hroom : r.billing.Room q) :
      Step r (r.call host q)
  | take {r : Settling σ} {q : Call} {p : FeePayment} (hnone : r.taken = none)
      (hroom : r.billing.Room q) (hp : p ∈ r.billing.offer host q) : Step r (r.take host q p)
  | report {r : Settling σ} {p : FeePayment} (draw : Nat) (hp : p ∈ r.taken) :
      Step r (r.report host draw p)

/-- Any number of steps. -/
abbrev Steps : Settling σ → Settling σ → Prop := Relation.ReflTransGen (Step host)

/-! ## What was sent is paid, has accrued, or was missed -/

/-- The accounts of a wallet: the sends that are neither paid nor accrued are those that were missed, and
the payment that was taken is what has accrued but for the sends since. -/
structure Balanced (c : FeeConfig) (r : Settling σ) : Prop where
  config : r.billing.service.config = c
  recorded : r.paid + r.accrued + c.feePerSend.toNat * r.missed =
    c.feePerSend.toNat * r.billing.recorded
  taken : ∀ p ∈ r.taken, p.amount.toNat + c.feePerSend.toNat * r.late = r.accrued

variable {r host} {r' : Settling σ} {c : FeeConfig}

namespace Balanced

/-- A step keeps the accounts. -/
theorem step (h : r.Balanced c) (hstep : Step host r r') : r'.Balanced c := by
  have hrecorded := h.recorded
  cases hstep with
  | @call q hq hroom =>
    have haccrued : (r.call host q).accrued = r.accrued + c.feePerSend.toNat * _ :=
      h.config ▸ Billing.accrued_after hq hroom
    refine ⟨?_, ?_, fun p hp => ?_⟩
    · rw [call, Billing.service_after, h.config]
    · change r.paid + _ + _ * r.missed = _ * (r.billing.after host q).recorded
      rw [haccrued, Billing.recorded_after, Nat.mul_add]
      omega
    · have htaken := h.taken p hp
      rw [haccrued, call, Nat.mul_add]
      omega
  | @take q p hnone hroom hp =>
    have hq : q.isPaid = false := Call.isPaid_of_asks (Billing.asks_of_mem_offer hp)
    have haccrued : (r.take host q p).accrued = r.accrued + c.feePerSend.toNat * _ :=
      h.config ▸ Billing.accrued_after hq hroom
    refine ⟨?_, ?_, fun p' hp' => ?_⟩
    · rw [take, Billing.service_after, h.config]
    · change r.paid + _ + _ * r.missed = _ * (r.billing.after host q).recorded
      rw [haccrued, Billing.recorded_after, Nat.mul_add]
      omega
    · obtain rfl : p = p' := Option.some.inj hp'
      rw [take, Nat.mul_zero, Nat.add_zero, Billing.amount_of_mem_offer hp]
      rfl
  | @report p draw hp =>
    have htaken := h.taken p hp
    have hnothing : (r.report host draw p).accrued = 0 := rfl
    have hsent : (r.billing.after host (.paid draw)).recorded = r.billing.recorded :=
      Billing.recorded_after
    refine ⟨?_, ?_, fun p' hp' => absurd hp' (Option.not_mem_none p')⟩
    · rw [report, Billing.service_after, h.config]
    · change r.paid + p.amount.toNat + _ + _ * (r.missed + r.late) =
        _ * (r.billing.after host (.paid draw)).recorded
      rw [hnothing, hsent, Nat.mul_add]
      omega

theorem steps (h : r.Balanced c) (hsteps : Steps host r r') : r'.Balanced c := by
  induction hsteps with
  | refl => exact h
  | tail _ hstep ih => exact ih.step hstep

end Balanced

/-! ## A send that is missed -/

/-- Every second send makes a payment due. -/
def sampleConfig : FeeConfig := { feePerSend := 250, minSends := 2, maxSends := 2 }

def sampleHost : WalletHost Unit :=
  Billing.answeringHost (2 :: Wire.encodeResponse (.make none ["1A"]))

def sampleService : FeeService :=
  ⟨.filled 7, (KeyPair.filled 1).publicKey, sampleConfig, ⟨[], none⟩, .fresh sampleConfig 0⟩

theorem make_sample :
    (make sampleHost (.filled 7) (KeyPair.filled 1).publicKey sampleConfig).run () =
      (.ok sampleService, ()) := rfl

/-- Two sends make a payment of 500 due. One more follows before it is reported. -/
theorem exists_late_steps :
    ∃ r, Steps sampleHost (start sampleService ()) r ∧ r.paid = 500 ∧
      r.accrued = 0 ∧ r.billing.recorded = 3 := by
  let host := sampleHost
  let s := sampleService
  let a : Allocation := ⟨["1A"], none⟩
  let b₁ : Billing Unit := ⟨s.keepAddresses a, (), [(.refresh, .refreshed (some a))]⟩
  have hrefreshed : (start s ()).billing.after host .refresh = b₁ := Billing.after_answering rfl
    (Wire.decodeResponse_encodeResponse (by simp) (by simp [Wire.IsRow, Protocol.rowEnd]))
  let r₁ : Settling Unit := ⟨b₁, none, 0, 0, 0⟩
  let r₂ := r₁.call host (.send 0)
  let r₃ := r₂.take host (.send 0) ⟨"1A", 500⟩
  let r₄ := r₃.call host (.send 0)
  have h₁ : Step host (start s ()) r₁ := by
    have hcall : (start s ()).call host .refresh = r₁ :=
      congrArg (Settling.mk · none 0 0 0) hrefreshed
    exact hcall ▸ .call rfl fun hsend => absurd hsend Bool.false_ne_true
  have h₂ : Step host r₁ r₂ := .call rfl fun _ => by decide
  have hoffer : r₂.billing.offer host (.send 0) = some ⟨"1A", 500⟩ := by decide
  have h₃ : Step host r₂ r₃ := .take rfl (fun _ => by decide) hoffer
  have h₄ : Step host r₃ r₄ := .call rfl fun _ => by decide
  have h₅ : Step host r₄ (r₄.report host 0 ⟨"1A", 500⟩) := .report 0 rfl
  exact ⟨_, ((((Relation.ReflTransGen.single h₁).tail h₂).tail h₃).tail h₄).tail h₅, rfl, rfl, rfl⟩

/-! ## Whole runs -/

/-- Whatever a wallet does that takes one payment at a time and reports each once: what it has paid, what
has accrued, and the fee of the sends that fell between the taking of a payment and its report are
together the fee of all sends. So what it has paid and what has accrued are the fee of all sends
exactly if no send fell there, or sends cost nothing. The payment that it is making is all that has
accrued but for the sends since it was taken. -/
theorem paid_accrued_missed (hvalid : c.validate = .ok ()) (host : WalletHost σ) (payerId : PayerId)
    (matcherKey : PublicKey) (w : σ) :
    ∃ s w₀, (make host payerId matcherKey c).run w = (.ok s, w₀) ∧
      ∀ r, Steps host (start s w₀) r →
        r.paid + r.accrued + c.feePerSend.toNat * r.missed =
          c.feePerSend.toNat * r.billing.recorded ∧
        (r.paid + r.accrued = c.feePerSend.toNat * r.billing.recorded ↔
          r.missed = 0 ∨ c.feePerSend = 0) ∧
        ∀ p ∈ r.taken, p.amount.toNat + c.feePerSend.toNat * r.late = r.accrued := by
  obtain ⟨s, w₀, hmake, hstart⟩ := Billing.consistent_make hvalid host payerId matcherKey w
  refine ⟨s, w₀, hmake, fun r hsteps => ?_⟩
  have hnothing : s.fees.accrued.toNat = 0 := by simpa [Billing.sends] using hstart.fees.accrued
  have hbegin : (start s w₀).Balanced c :=
    ⟨hstart.config, by simpa [start, accrued, Billing.recorded] using hnothing, fun p hp => by cases hp⟩
  have hr : r.Balanced c := hbegin.steps hsteps
  have hmissed : c.feePerSend.toNat * r.missed = 0 ↔ r.missed = 0 ∨ c.feePerSend = 0 := by
    rw [Nat.mul_eq_zero, or_comm, ← UInt64.toNat_inj]
    rfl
  have hall := hr.recorded
  refine ⟨hall, ?_, hr.taken⟩
  rw [← hmissed]
  omega

/-- One send is missed, and is all that is missing. -/
theorem paid_accrued_missed_late :
    sampleConfig.validate = .ok () ∧ ∃ s,
      (make sampleHost (.filled 7) (KeyPair.filled 1).publicKey sampleConfig).run () = (.ok s, ()) ∧
        ∃ r, Steps sampleHost (start s ()) r ∧
          r.paid = 500 ∧ r.accrued = 0 ∧ r.billing.recorded = 3 ∧ r.missed = 1 := by
  have hvalid : sampleConfig.validate = .ok () := by decide
  obtain ⟨s, w₀, hmake, hruns⟩ :=
    paid_accrued_missed hvalid sampleHost (.filled 7) (KeyPair.filled 1).publicKey ()
  obtain rfl : sampleService = s := Except.ok.inj (congrArg Prod.fst (make_sample.symm.trans hmake))
  obtain ⟨r, hsteps, hpaid, haccrued, hrecorded⟩ := exists_late_steps
  refine ⟨hvalid, _, hmake, r, hsteps, hpaid, haccrued, hrecorded, ?_⟩
  have hfee : sampleConfig.feePerSend.toNat = 250 := rfl
  have hall := (hruns r hsteps).1
  rw [hpaid, haccrued, hrecorded, hfee] at hall
  omega

/-- So what is paid and what has accrued are not always the fee of all sends. -/
theorem late_send_unpaid :
    ∃ s, (make sampleHost (.filled 7) (KeyPair.filled 1).publicKey sampleConfig).run () = (.ok s, ()) ∧
      ¬ ∀ r, Steps sampleHost (start s ()) r →
        r.paid + r.accrued = sampleConfig.feePerSend.toNat * r.billing.recorded := by
  refine ⟨sampleService, make_sample, fun hall => ?_⟩
  obtain ⟨r, hsteps, hpaid, haccrued, hrecorded⟩ := exists_late_steps
  have hr := hall r hsteps
  rw [hpaid, haccrued, hrecorded] at hr
  exact absurd hr (by decide)

end Settling

end AddressExchange
