import AddressExchange.Proofs.Exchange
import AddressExchange.Proofs.Fees.Service

/-!
# Fees over whole runs

A wallet records its sends, asks for the payment that is due, reports that it has paid, and refreshes its
addresses, in any order. The log of these calls and their answers tells all that matters: what has
accrued is the fee of the sends since the last report, and a payment is given once these have reached the
threshold and addresses were received. The counts stop at the greatest numbers of their widths, and
no threshold lies beyond them.
-/

namespace AddressExchange

variable {σ : Type}

/-! ## Numbers that stop at the greatest one -/

namespace Saturating

theorem toNat_add (a b : UInt64) : (add a b).toNat = min (a.toNat + b.toNat) (2 ^ 64 - 1) := by
  have hsize : UInt64.size = 2 ^ 64 := rfl
  have htop : top.toNat = 2 ^ 64 - 1 := rfl
  rw [add]
  split
  · next h =>
    rw [UInt64.toNat_add, Nat.mod_eq_of_lt (hsize ▸ h)]
    omega
  · omega

theorem toNat_next (a : UInt32) : (next a).toNat = min (a.toNat + 1) (2 ^ 32 - 1) := by
  have hsize : UInt32.size = 2 ^ 32 := rfl
  have hlt : a.toNat < 2 ^ 32 := a.toNat_lt
  rw [next]
  split
  · next h =>
    have hone : (1 : UInt32).toNat = 1 := rfl
    rw [UInt32.toNat_add, hone, Nat.mod_eq_of_lt (hsize ▸ h)]
    omega
  · omega

end Saturating

/-! ## One fee state -/

namespace FeeConfig

variable {c : FeeConfig}

theorem range_of_validate (h : c.validate = .ok ()) : c.minSends ≠ 0 ∧ c.minSends ≤ c.maxSends := by
  unfold validate at h
  split at h
  · cases h
  · next hrange =>
    obtain ⟨hzero, hle⟩ := not_or.mp hrange
    exact ⟨hzero, UInt32.not_lt.mp hle⟩

/-- Whatever is drawn, the threshold is in its range. -/
theorem threshold_mem (h : c.validate = .ok ()) (draw : Nat) :
    c.minSends ≤ c.threshold draw ∧ c.threshold draw ≤ c.maxSends := by
  have hrange := (range_of_validate h).2
  rw [threshold]
  split
  · exact ⟨UInt32.le_refl _, hrange⟩
  · simp only [UInt32.le_iff_toNat_le] at *
    have hmax : c.maxSends.toNat < 2 ^ 32 := c.maxSends.toNat_lt
    have hdraw : draw % (c.maxSends.toNat - c.minSends.toNat + 1) <
        c.maxSends.toNat - c.minSends.toNat + 1 := Nat.mod_lt draw (Nat.succ_pos _)
    rw [UInt32.toNat_ofNat_of_lt' (by rw [UInt32.size]; omega)]
    omega

end FeeConfig

namespace FeeState

variable {s : FeeState} {addresses : List String} {draw : Nat}

theorem isDue_iff : s.isDue = true ↔ 0 < s.accrued.toNat ∧ s.threshold.toNat ≤ s.sends.toNat := by
  simp [isDue, UInt64.lt_iff_toNat_lt, UInt32.le_iff_toNat_le]

/-- A payment is given if one is due and there are addresses. -/
theorem isSome_paymentDue :
    (s.paymentDue addresses draw).isSome ↔ s.isDue = true ∧ addresses ≠ [] := by
  rw [paymentDue]
  split
  · next hdue =>
    cases addresses with
    | nil => simp
    | cons a as =>
      have hlt : draw % (a :: as).length < (a :: as).length := Nat.mod_lt draw (Nat.succ_pos _)
      rw [List.getElem?_eq_getElem hlt]
      simp [hdue]
  · next hdue => simp [hdue]

/-- It is of all that has accrued, and to one of the addresses. -/
theorem of_mem_paymentDue {p : FeePayment} (h : p ∈ s.paymentDue addresses draw) :
    p.amount = s.accrued ∧ p.address ∈ addresses := by
  rw [paymentDue] at h
  split at h
  · obtain ⟨address, haddress, rfl⟩ := Option.map_eq_some_iff.mp h
    exact ⟨rfl, List.mem_of_getElem? haddress⟩
  · cases h

/-- What a state has after so many sends. -/
structure Counts (c : FeeConfig) (n : Nat) (s : FeeState) : Prop where
  threshold : c.minSends ≤ s.threshold ∧ s.threshold ≤ c.maxSends
  sends : s.sends.toNat = min n (2 ^ 32 - 1)
  accrued : s.accrued.toNat = min (n * c.feePerSend.toNat) (2 ^ 64 - 1)

variable {c : FeeConfig} {n : Nat}

theorem counts_fresh (h : c.validate = .ok ()) (draw : Nat) : (fresh c draw).Counts c 0 where
  threshold := c.threshold_mem h draw
  sends := (Nat.zero_min _).symm
  accrued := by
    rw [Nat.zero_mul, Nat.zero_min]
    rfl

/-- Once a count has stopped, it stays where a greater one would stop. -/
theorem Counts.recordSend (h : s.Counts c n) : (s.recordSend c).Counts c (n + 1) where
  threshold := h.threshold
  sends := by
    rw [FeeState.recordSend, Saturating.toNat_next, h.sends]
    omega
  accrued := by
    rw [FeeState.recordSend, Saturating.toNat_add, h.accrued, Nat.succ_mul]
    omega

/-- The counts stop behind every threshold, so a payment is due just if sends cost something and have
reached it. -/
theorem Counts.isDue (h : s.Counts c n) (hvalid : c.validate = .ok ()) :
    s.isDue = true ↔ c.feePerSend ≠ 0 ∧ s.threshold.toNat ≤ n := by
  obtain ⟨hzero, -⟩ := FeeConfig.range_of_validate hvalid
  have hleast : c.minSends.toNat ≤ s.threshold.toNat := UInt32.le_iff_toNat_le.mp h.threshold.1
  have hpos : c.minSends.toNat ≠ 0 := fun hmin => hzero (UInt32.toNat_inj.mp hmin)
  have hlt : s.threshold.toNat < 2 ^ 32 := s.threshold.toNat_lt
  have hfee : c.feePerSend ≠ 0 ↔ c.feePerSend.toNat ≠ 0 := (not_congr UInt64.toNat_inj).symm
  rw [isDue_iff, h.accrued, h.sends, hfee]
  constructor
  · rintro ⟨haccrued, hreached⟩
    have hn : n * c.feePerSend.toNat ≠ 0 := by omega
    exact ⟨Nat.ne_zero_of_mul_ne_zero_right hn, by omega⟩
  · rintro ⟨hcost, hreached⟩
    have hn : 0 < n * c.feePerSend.toNat := Nat.mul_pos (by omega) (Nat.pos_of_ne_zero hcost)
    omega

end FeeState

/-! ## Calls -/

namespace FeeService

/-- What a wallet asks of its service. The numbers are drawn at random. -/
inductive Call where
  /-- Records a send, and asks for the payment that is due then. -/
  | send (draw : Nat)
  | nextPayment (draw : Nat)
  /-- Reports that a payment was made. -/
  | paid (draw : Nat)
  | refresh

namespace Call

def isSend : Call → Bool
  | send _ => true
  | nextPayment _ | paid _ | refresh => false

def isPaid : Call → Bool
  | paid _ => true
  | send _ | nextPayment _ | refresh => false

/-- Does a call ask for a payment? -/
def asks : Call → Bool
  | send _ | nextPayment _ => true
  | paid _ | refresh => false

theorem isPaid_of_asks {q : Call} (h : q.asks = true) : q.isPaid = false := by
  cases q with
  | send draw | nextPayment draw => rfl
  | paid draw | refresh => cases h

end Call

/-- What is answered. -/
inductive Answer where
  | payment (due : Option FeePayment)
  | noted
  | refreshed (received : Option Allocation)

namespace Answer

/-- The payment that an answer gives. -/
def payment? : Answer → Option FeePayment
  | payment due => due
  | noted | refreshed _ => none

/-- The allocation that an answer brings, if it has addresses. -/
def allocation? : Answer → Option Allocation
  | refreshed received => received.filter fun a => !a.addresses.isEmpty
  | payment _ | noted => none

theorem addresses_ne_nil {answer : Answer} {a : Allocation} (h : a ∈ answer.allocation?) :
    a.addresses ≠ [] := by
  cases answer with
  | payment due => cases h
  | noted => cases h
  | refreshed received =>
    obtain ⟨-, hnonempty⟩ := Option.filter_eq_some_iff.mp h
    simpa using hnonempty

end Answer

/-- Answers a call. -/
def call (host : WalletHost σ) (s : FeeService) : Call → StateM σ (FeeService × Answer)
  | .send draw => pure (s.recordSend, .payment (s.recordSend.nextPayment draw))
  | .nextPayment draw => pure (s, .payment (s.nextPayment draw))
  | .paid draw => pure (s.recordPaid draw, .noted)
  | .refresh => do
    let (s, received) ← s.refresh host
    pure (s, .refreshed received)

end FeeService

/-! ## Whole runs -/

open FeeService (Call Answer make)

/-- A service and its world, and the calls so far with their answers, the newest first. -/
structure Billing (σ : Type) where
  service : FeeService
  world : σ
  log : List (Call × Answer) := []

namespace Billing

variable (b : Billing σ) (host : WalletHost σ) (q : Call)

/-- The answer to a call. -/
def answer : Answer := ((b.service.call host q).run b.world).1.2

/-- What is there after a call. -/
def after : Billing σ :=
  let ((service, a), world) := (b.service.call host q).run b.world
  ⟨service, world, (q, a) :: b.log⟩

/-- What is there after calls in their order. -/
def afterAll (calls : List Call) : Billing σ := calls.foldl (after · host) b

/-- The payment that a call gives. -/
def offer : Option FeePayment := (b.answer host q).payment?

/-- The sends since the last report of a payment, or since the start. -/
def sends : Nat := (b.log.takeWhile fun e => !e.1.isPaid).countP fun e => e.1.isSend

/-- The last allocation with addresses that a refresh brought. -/
def received : Option Allocation := b.log.findSome? fun e => e.2.allocation?

/-- Do sends cost anything, have they reached the threshold, and are there addresses to pay to? -/
def Due : Prop :=
  b.service.config.feePerSend ≠ 0 ∧ b.service.fees.threshold.toNat ≤ b.sends ∧ b.received.isSome

variable {b host q}

theorem log_after : (b.after host q).log = (q, b.answer host q) :: b.log := rfl

theorem sends_after : (b.after host q).sends =
    if q.isPaid then 0 else b.sends + if q.isSend then 1 else 0 := by
  rw [sends, log_after]
  cases q <;> simp [sends, Call.isPaid, Call.isSend]

theorem received_after :
    (b.after host q).received = (b.answer host q).allocation?.or b.received := by
  rw [received, log_after, List.findSome?_cons]
  cases (b.answer host q).allocation? <;> rfl

/-- A call changes the state of the fees, unless it is a refresh or a question. -/
def feesAfter (b : Billing σ) : Call → FeeState
  | .send _ => b.service.fees.recordSend b.service.config
  | .paid draw => .fresh b.service.config draw
  | .nextPayment _ | .refresh => b.service.fees

/-- What a call changes of a service: its fees, and the addresses that it keeps. -/
theorem service_after : (b.after host q).service = { b.service with
    fees := b.feesAfter q
    cached := (b.answer host q).allocation?.getD b.service.cached } := by
  cases q with
  | send draw | nextPayment draw | paid draw => rfl
  | refresh => exact FeeService.refresh_fst host b.service b.world

/-- The payment that a call gives is the one that is due after it. -/
theorem offer_eq (hq : q.asks = true) :
    ∃ draw, b.offer host q = (b.after host q).service.nextPayment draw := by
  cases q with
  | send draw | nextPayment draw => exact ⟨draw, rfl⟩
  | paid draw | refresh => cases hq

theorem asks_of_mem_offer {p : FeePayment} (h : p ∈ b.offer host q) : q.asks = true := by
  cases q with
  | send draw | nextPayment draw => rfl
  | paid draw | refresh => cases h

/-! ### What the log tells of the service -/

/-- What a service has, in terms of its log. -/
structure Consistent (c : FeeConfig) (b : Billing σ) : Prop where
  config : b.service.config = c
  fees : b.service.fees.Counts c b.sends
  cached : b.service.cached.addresses = b.received.elim [] (·.addresses)
  nonempty : ∀ a ∈ b.received, a.addresses ≠ []

variable {c : FeeConfig}

/-- So has a new service. -/
theorem consistent_make (hvalid : c.validate = .ok ()) (host : WalletHost σ) (payerId : PayerId)
    (matcherKey : PublicKey) (w : σ) :
    ∃ s w₀, (make host payerId matcherKey c).run w = (.ok s, w₀) ∧ Consistent c ⟨s, w₀, []⟩ := by
  rcases hdraw : host.draw.run w with ⟨draw, w₀⟩
  refine ⟨⟨payerId, matcherKey, c, ⟨[], none⟩, .fresh c draw⟩, w₀, ?_, rfl,
    FeeState.counts_fresh hvalid draw, rfl, fun a ha => absurd ha (Option.not_mem_none a)⟩
  rw [make, hvalid]
  dsimp only
  rw [StateT.run_bind, hdraw]
  rfl

namespace Consistent

variable (h : Consistent c b)

include h

/-- A payment is given if one is due. -/
theorem isSome_nextPayment (hvalid : c.validate = .ok ()) (draw : Nat) :
    (b.service.nextPayment draw).isSome ↔ b.Due := by
  have haddresses : b.service.cached.addresses ≠ [] ↔ b.received.isSome := by
    rw [h.cached]
    cases hreceived : b.received with
    | none => simp
    | some a => simpa using h.nonempty a hreceived
  rw [FeeService.nextPayment, FeeState.isSome_paymentDue, h.fees.isDue hvalid, haddresses, Due,
    h.config, and_assoc]

/-- It is of all that has accrued, to an address of the last allocation. -/
theorem of_mem_nextPayment {draw : Nat} {p : FeePayment} (hp : p ∈ b.service.nextPayment draw) :
    p.amount = b.service.fees.accrued ∧ ∃ a ∈ b.received, p.address ∈ a.addresses := by
  obtain ⟨hamount, haddress⟩ := FeeState.of_mem_paymentDue hp
  refine ⟨hamount, ?_⟩
  rw [h.cached] at haddress
  cases hreceived : b.received with
  | none => simp [hreceived] at haddress
  | some a => exact ⟨a, rfl, by simpa [hreceived] using haddress⟩

/-! ### One call -/

/-- A service stays consistent with its log. -/
theorem after (hvalid : c.validate = .ok ()) (host : WalletHost σ) (q : Call) :
    Consistent c (b.after host q) where
  config := by rw [service_after, h.config]
  fees := by
    rw [service_after, sends_after]
    cases q with
    | send draw => exact h.config ▸ h.fees.recordSend
    | paid draw => exact h.config ▸ FeeState.counts_fresh hvalid draw
    | nextPayment draw | refresh => exact h.fees
  cached := by
    rw [service_after, received_after]
    cases (b.answer host q).allocation? with
    | none => exact h.cached
    | some a => rfl
  nonempty a ha := by
    rw [received_after] at ha
    cases hanswer : (b.answer host q).allocation? with
    | none =>
      rw [hanswer] at ha
      exact h.nonempty a ha
    | some a' =>
      rw [hanswer] at ha
      exact Answer.addresses_ne_nil (hanswer.trans ha)

/-- A call that gives a payment gives what is due after it. -/
theorem isSome_offer (hvalid : c.validate = .ok ()) (hq : q.asks = true) :
    (b.offer host q).isSome ↔ (b.after host q).Due := by
  obtain ⟨draw, hoffer⟩ : ∃ draw, b.offer host q = (b.after host q).service.nextPayment draw :=
    offer_eq hq
  rw [hoffer]
  exact (h.after hvalid host q).isSome_nextPayment hvalid draw

theorem of_mem_offer (hvalid : c.validate = .ok ()) {p : FeePayment} (hp : p ∈ b.offer host q) :
    p.amount = (b.after host q).service.fees.accrued ∧
      ∃ a ∈ (b.after host q).received, p.address ∈ a.addresses := by
  obtain ⟨draw, hoffer⟩ : ∃ draw, b.offer host q = (b.after host q).service.nextPayment draw :=
    offer_eq (asks_of_mem_offer hp)
  exact (h.after hvalid host q).of_mem_nextPayment (hoffer ▸ hp)

/-! ### Whole runs -/

theorem afterAll (hvalid : c.validate = .ok ()) (host : WalletHost σ) (calls : List Call) :
    Consistent c (b.afterAll host calls) := by
  induction calls generalizing b with
  | nil => exact h
  | cons q calls ih => exact ih (h.after hvalid host q)

end Consistent

theorem threshold_after (hq : q.isPaid = false) :
    (b.after host q).service.fees.threshold = b.service.fees.threshold := by
  rw [service_after]
  cases q with
  | send draw | nextPayment draw | refresh => rfl
  | paid draw => cases hq

/-- What is due stays due until a payment is reported. -/
theorem Due.after (h : b.Due) (hq : q.isPaid = false) : (b.after host q).Due := by
  obtain ⟨hcost, hreached, hreceived⟩ := h
  refine ⟨?_, ?_, ?_⟩
  · rw [service_after]
    exact hcost
  · rw [threshold_after hq, sends_after, hq]
    exact hreached.trans (Nat.le_add_right _ _)
  · rw [received_after, Option.isSome_or, hreceived, Bool.or_true]

theorem Due.afterAll (h : b.Due) {calls : List Call} (hcalls : ∀ q ∈ calls, q.isPaid = false) :
    (b.afterAll host calls).Due := by
  induction calls generalizing b with
  | nil => exact h
  | cons q calls ih =>
    exact ih (h.after (hcalls q List.mem_cons_self)) fun q' hq' => hcalls q' (List.mem_cons_of_mem q hq')

/-- Whatever the configuration, if it is valid, whatever the host answers and whatever is drawn: a
service can be made, and after any calls its threshold is in its range, what has accrued is the fee of the
sends since the last report of a payment, and so is the count, both up to the greatest numbers of
their widths. Only a report changes the threshold. A call that asks for a payment is given one just if
sends cost something, have reached the threshold, and some refresh brought addresses; it is of all that
has accrued, to an address of the last such allocation. Until the next report every such call is
given one then. -/
theorem payments_by_sends (hvalid : c.validate = .ok ()) (host : WalletHost σ) (payerId : PayerId)
    (matcherKey : PublicKey) (w : σ) :
    ∃ s w₀, (make host payerId matcherKey c).run w = (.ok s, w₀) ∧ ∀ calls,
      let b := (⟨s, w₀, []⟩ : Billing σ).afterAll host calls
      let fees := b.service.fees
      c.minSends ≤ fees.threshold ∧ fees.threshold ≤ c.maxSends ∧
      fees.accrued.toNat = min (b.sends * c.feePerSend.toNat) (2 ^ 64 - 1) ∧
      fees.sends.toNat = min b.sends (2 ^ 32 - 1) ∧
      ∀ q, let b' := b.after host q
        (q.isPaid = false → b'.service.fees.threshold = fees.threshold) ∧
        (q.asks = true → ((b.offer host q).isSome ↔ c.feePerSend ≠ 0 ∧
          b'.service.fees.threshold.toNat ≤ b'.sends ∧ b'.received.isSome)) ∧
        ∀ p ∈ b.offer host q, p.amount = b'.service.fees.accrued ∧
          (∃ a ∈ b'.received, p.address ∈ a.addresses) ∧
          ∀ later, (∀ q' ∈ later, q'.isPaid = false) → ∀ q', q'.asks = true →
            ((b'.afterAll host later).offer host q').isSome := by
  obtain ⟨s, w₀, hmake, hstart⟩ := consistent_make hvalid host payerId matcherKey w
  refine ⟨s, w₀, hmake, fun calls => ?_⟩
  intro b fees
  have hb : Consistent c b := hstart.afterAll hvalid host calls
  refine ⟨hb.fees.threshold.1, hb.fees.threshold.2, hb.fees.accrued, hb.fees.sends, fun q => ?_⟩
  intro b'
  have hb' : Consistent c b' := hb.after hvalid host q
  refine ⟨threshold_after, fun hq => ?_, fun p hp => ?_⟩
  · rw [hb.isSome_offer hvalid hq, Due, hb'.config]
  · obtain ⟨hamount, haddress⟩ := hb.of_mem_offer hvalid hp
    refine ⟨hamount, haddress, fun later hlater q' hasks => ?_⟩
    have hdue : b'.Due :=
      (hb.isSome_offer hvalid (asks_of_mem_offer hp)).mp (Option.isSome_of_mem hp)
    exact ((hb'.afterAll hvalid host later).isSome_offer hvalid hasks).mpr
      ((hdue.afterAll hlater).after (Call.isPaid_of_asks hasks))

/-! ## A Matcher that always answers -/

/-- A host whose way to the Matcher always brings the same answer. -/
def answeringHost (answer : Bytes) : WalletHost Unit where
  cipher := .labelled 0 "refused"
  random := pure [2]
  draw := pure 0
  post _ := pure (.ok answer)
  load := pure (.ok none)
  save _ := pure (.ok ())
  wait _ := pure ()

theorem refresh_answering {s : FeeService} (hkey : s.matcherKey = (KeyPair.filled 1).publicKey)
    {written : Bytes} {response : Response} (h : Wire.decodeResponse written = .ok response) :
    (s.refresh (answeringHost (2 :: written))).run () =
      ((s.keepAddresses response.allocation, some response.allocation), ()) := by
  let host := answeringHost (2 :: written)
  let keys := host.cipher.generate [2]
  let x : Exchange := ⟨.built, .make s.payerId none keys.publicKey, keys, (KeyPair.filled 1).publicKey⟩
  have hblob : host.cipher.encrypt [2] (Wire.encodeRequest x.request) x.matcherKey = .ok _ :=
    Cipher.encrypt_labelled (b := 1) "refused" _ _ (by decide)
  have hplain : host.cipher.decrypt (2 :: written) x.replyKeys.secretKey = .ok written :=
    Cipher.decrypt_labelled "refused" written
  have hsend : (x.send host.cipher [2] host.post).run () = _ :=
    Exchange.send_eq_ok rfl hblob rfl hplain h
  have hrequest : (s.requestAddresses host none).run () = (.ok response.allocation, ()) := by
    rw [FeeService.requestAddresses, hkey]
    exact congrArg (fun sent => (sent.1.2, sent.2)) hsend
  have hprior : (FeeService.priorDate host).run () = (none, ()) := rfl
  rw [FeeService.run_refresh, hprior, FeeService.run_attempts_of_ok hrequest]

/-- The allocation that a refresh brings then. -/
theorem after_answering {b : Billing Unit} (hkey : b.service.matcherKey = (KeyPair.filled 1).publicKey)
    {written : Bytes} {response : Response} (h : Wire.decodeResponse written = .ok response) :
    b.after (answeringHost (2 :: written)) .refresh = ⟨b.service.keepAddresses response.allocation, (),
      (.refresh, .refreshed (some response.allocation)) :: b.log⟩ := by
  have hcall : (b.service.call (answeringHost (2 :: written)) .refresh).run b.world =
      ((b.service.keepAddresses response.allocation, .refreshed (some response.allocation)), ()) := by
    rw [FeeService.call, StateT.run_bind, refresh_answering hkey h]
    rfl
  rw [after, hcall]

/-- Three sends at half of the greatest amount each: after them the greatest amount itself is due, to the
address that the refresh between them brought. -/
theorem payments_by_sends_saturated :
    let c : FeeConfig := { feePerSend := .ofNat (2 ^ 63), minSends := 2, maxSends := 2 }
    let written := Wire.encodeResponse (.make (some (.early 1 0)) ["1A"])
    let host := answeringHost (2 :: written)
    c.validate = .ok () ∧ ∃ s,
      (make host (.filled 7) (KeyPair.filled 1).publicKey c).run () = (.ok s, ()) ∧
        let b := (⟨s, (), []⟩ : Billing Unit).afterAll host [.send 0, .refresh, .send 0, .send 0]
        ∃ p ∈ b.offer host (.nextPayment 0), p.amount.toNat = 2 ^ 64 - 1 ∧ p.address = "1A" := by
  intro c written
  have hwritten : Wire.decodeResponse written = .ok (.make (some (.early 1 0)) ["1A"]) :=
    Wire.decodeResponse_encodeResponse (by simp) (by simp [Wire.IsRow, Protocol.rowEnd])
  clear_value written
  intro host
  have hvalid : c.validate = .ok () := by decide
  obtain ⟨s, w₀, hmake, hruns⟩ :=
    payments_by_sends hvalid host (.filled 7) (KeyPair.filled 1).publicKey ()
  refine ⟨hvalid, s, hmake, ?_⟩
  have hkey : s.matcherKey = (KeyPair.filled 1).publicKey := by
    rw [← Except.ok.inj (congrArg Prod.fst hmake)]
  let a : Allocation := ⟨["1A"], some (.early 1 0)⟩
  let b₁ := (⟨s, (), []⟩ : Billing Unit).after host (.send 0)
  let b₂ : Billing Unit := ⟨b₁.service.keepAddresses a, (), (.refresh, .refreshed (some a)) :: b₁.log⟩
  have hrefreshed : b₁.after host .refresh = b₂ := after_answering hkey hwritten
  obtain ⟨-, hthreshold, haccrued, -, hcalls⟩ := hruns [.send 0, .refresh, .send 0, .send 0]
  have hrun : (⟨s, (), []⟩ : Billing Unit).afterAll host [.send 0, .refresh, .send 0, .send 0] =
      b₂.afterAll host [.send 0, .send 0] :=
    congrArg (·.afterAll host [.send 0, .send 0]) hrefreshed
  have hsends : (b₂.afterAll host [.send 0, .send 0]).sends = 3 := rfl
  have hreceived : (b₂.afterAll host [.send 0, .send 0]).received = some a := rfl
  rw [← hrun] at hsends hreceived
  generalize (⟨s, (), []⟩ : Billing Unit).afterAll host _ = b at *
  obtain ⟨hkept, hgiven, hoffered⟩ := hcalls (.nextPayment 0)
  have hstill : (b.after host (.nextPayment 0)).received = some a := received_after.trans hreceived
  have hdue : (b.offer host (.nextPayment 0)).isSome := by
    rw [hgiven rfl, hkept rfl, hstill, sends_after]
    refine ⟨by decide, ?_, rfl⟩
    exact (UInt32.le_iff_toNat_le.mp hthreshold).trans (by rw [hsends]; decide)
  obtain ⟨p, hp⟩ := Option.isSome_iff_exists.mp hdue
  obtain ⟨hamount, ⟨a', ha', haddress⟩, -⟩ := hoffered p hp
  obtain rfl : a = a' := Option.some.inj (hstill.symm.trans ha')
  refine ⟨p, hp, ?_, List.mem_singleton.mp haddress⟩
  have hfee : c.feePerSend.toNat = 2 ^ 63 := rfl
  rw [hsends, hfee] at haccrued
  rw [hamount, service_after]
  exact haccrued

end Billing

end AddressExchange
