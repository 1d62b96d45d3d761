import AddressExchange.Exchange.Payer
import AddressExchange.Pool.Allocation

/-!
# The Matcher's side of an exchange

A request is decrypted and decoded, addresses are allocated, and the response is encoded and
encrypted to the key that the request brought. Nothing is kept between requests.
-/

namespace AddressExchange

/-- How far a request has come. -/
inductive Stage where
  | received
  | decrypted
  | decoded
  | allocated
  | encoded
  | encrypted
  | returned
  deriving DecidableEq, Repr

namespace Stage

/-- All stages in their order. -/
def all : List Stage := [received, decrypted, decoded, allocated, encoded, encrypted, returned]

/-- The stage as messages name it. -/
def label : Stage → String
  | received => "received"
  | decrypted => "decrypted"
  | decoded => "decoded"
  | allocated => "allocated"
  | encoded => "encoded"
  | encrypted => "encrypted"
  | returned => "returned"

end Stage

/-- The Matcher at one instant: its key, its pool, and the time. -/
structure Responder where
  cipher : Cipher
  secretKey : SecretKey
  source : AddressSource
  now : Instant

namespace Responder

/-- The response to a request. -/
def respond (r : Responder) (request : Request) : Response :=
  Allocation.allocate r.source request.date r.now

/-- Handles an encrypted request. A failure comes with the last stage that was reached. -/
def run (r : Responder) (random blob : Bytes) : Except (Stage × Failure) Bytes := do
  let plain ← (r.cipher.decrypt blob r.secretKey).mapError (Stage.received, ·)
  let request ← (Wire.decodeRequest plain).mapError (Stage.decrypted, ·)
  let encoded := Wire.encodeResponse (r.respond request)
  (r.cipher.encrypt random encoded request.replyKey).mapError (Stage.encoded, ·)

/-- Handles an encrypted request and gives the encrypted response. -/
def handle (r : Responder) (random blob : Bytes) : Except Failure Bytes :=
  (r.run random blob).mapError (·.2)

/-- The responder without its key. -/
def summary (_ : Responder) : String := "MatcherResponder \x7b secret_key: \"[REDACTED]\", .. \x7d"

end Responder

end AddressExchange
