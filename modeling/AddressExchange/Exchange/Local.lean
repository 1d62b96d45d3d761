import AddressExchange.Exchange.Payer
import AddressExchange.Exchange.Responder

/-!
# The way to a Matcher in the same process

Requests are handed straight to the responder, for a wallet that comes with its own Matcher.
-/

namespace AddressExchange

/-- The way to a responder; what is random about the answer is handed in. -/
def Responder.post {σ : Type} (r : Responder) (random : Bytes) : Exchange.Transport σ :=
  fun blob => pure (r.handle random blob)

end AddressExchange
