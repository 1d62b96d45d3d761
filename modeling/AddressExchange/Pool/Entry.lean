import AddressExchange.Message

/-!
# Entries of a pool

An address with the instant from which it may be handed out, and the rule for what counts as an
address: a text that fits one row of the wire format.
-/

namespace AddressExchange

/-- An address and when it becomes available. -/
structure Entry where
  address : String
  activatedAt : Instant
  deriving DecidableEq, Repr

namespace Entry

/-- Does the entry come no later than another? -/
def notAfter (a b : Entry) : Bool := decide (a.activatedAt ≤ b.activatedAt)

/-- Entries in the order of their instants; those of one instant keep their order. -/
def sort (es : List Entry) : List Entry := es.mergeSort notAfter

def toJson (e : Entry) : Json.Value :=
  .object [("address", .text e.address), ("activated_at", e.activatedAt.toJson)]

def reader : Json.Reader Entry := fun bs => do
  let ((address, activatedAt, ()), rest) ← Json.Members.reader "PoolAddress"
    (.more (.required "address" Json.string) <|
      .more (.required "activated_at" Json.instant) .none) bs
  .ok (⟨address, activatedAt⟩, rest)

end Entry

namespace Address

/-- The address that a text holds. Blanks around it do not count; inside it there are none, and no
control characters. -/
def check (s : String) : Except BadAddress String :=
  let address := Text.trim s
  if address.isEmpty then .error .empty
  else if addressSizeLimit < address.utf8ByteSize then .error .tooLong
  else if address.toList.any fun c => Text.isBlank c || Text.isControl c then .error .blank
  else .ok address

end Address

end AddressExchange
