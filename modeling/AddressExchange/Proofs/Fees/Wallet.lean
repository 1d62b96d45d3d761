import AddressExchange.Proofs.Exchange.Replay
import AddressExchange.Proofs.Fees.Service

/-!
# A wallet beside its Matcher

The host of a wallet that keeps its date in memory, and reaches the Matcher of a replay in the same
process. Its store works, and its exchanges bring what the pool of the Matcher allocates.
-/

namespace AddressExchange.Replay

/-- The host of the wallet; `random` is what it draws every time. -/
def wallet (parties : Parties) (random : Bytes) : WalletHost Replay where
  cipher := parties.cipher
  random := pure random
  draw := pure 0
  post body := do
    let w ← get
    Responder.post ⟨parties.cipher, parties.matcherKeys.secretKey, w.pool.source, w.now⟩ random body
  load := return .ok (← get).date
  save date := do
    modify ({ · with date })
    pure (.ok ())
  wait _ := pure ()

theorem stores_wallet (parties : Parties) (random : Bytes) :
    (wallet parties random).Stores Replay.date where
  load _ := ⟨rfl, rfl⟩
  save _ _ _ := ⟨rfl, rfl⟩
  random _ := ⟨rfl, trivial⟩
  draw _ := ⟨rfl, trivial⟩
  post _ _ := ⟨rfl, trivial⟩
  wait _ _ := ⟨rfl, trivial⟩

@[simp] theorem run_keepDate_wallet (parties : Parties) (random : Bytes) (a : Allocation)
    (w : Replay) : (FeeService.keepDate (wallet parties random) a).run w =
      ((), { w with date := a.replayDate.or w.date }) := by
  rw [FeeService.keepDate]
  cases a.replayDate <;> rfl

/-- An exchange brings what the Matcher's pool allocates. -/
theorem run_attempts_wallet {parties : Parties} {random : Bytes}
    (hopens : parties.Opens ⟨random, random, random⟩) {s : FeeService}
    (hkey : s.matcherKey = parties.matcherKeys.publicKey) (hid : s.payerId = parties.payerId)
    {w : Replay} (hp : w.pool.WellFormed) (hplain : w.pool.AllInstants Instant.IsPlain)
    {prior : Option Instant} (hprior : ∀ t ∈ prior, t.IsPlain)
    (hsends : parties.Sends ⟨random, random, random⟩ w.pool.source prior w.now)
    (attempt : UInt32) (left : Nat) :
    (s.attempts (wallet parties random) prior attempt left).run w =
      (some (w.pool.received prior w.now), w) := by
  let x := parties.exchange ⟨random, random, random⟩ prior
  obtain ⟨response, hreceived, hresponse⟩ := hp.decode_received hplain hprior w.now
  have hpost {blob reply : Bytes}
      (h : (parties.responder w.pool.source w.now).handle random blob = .ok reply) :
      ((wallet parties random).post blob).run w = (.ok reply, w) := by
    have hrun : ((wallet parties random).post blob).run w =
        ((parties.responder w.pool.source w.now).post random blob).run w := by rfl
    rw [hrun, Responder.run_post h]
  have hsend := Parties.send_over hopens hprior hsends (fun _ _ _ hhandle => hpost hhandle) hresponse
  have hrequest : (s.requestAddresses (wallet parties random) prior).run w =
      (.ok (w.pool.received prior w.now), w) := by
    have hrun : (s.requestAddresses (wallet parties random) prior).run w =
        (((x.send parties.cipher random (wallet parties random).post).run w).1.2,
          ((x.send parties.cipher random (wallet parties random).post).run w).2) := by
      rw [FeeService.requestAddresses, hkey, hid]
      rfl
    rw [hrun, hsend, hreceived]
  exact FeeService.run_attempts_of_ok hrequest attempt left

end AddressExchange.Replay
