import AddressExchange.Crypto.Hash
import AddressExchange.Failure

/-!
# Payer ids

The id of a wallet is derived from its seed: the same wallet always has the same id.
-/

namespace AddressExchange.PayerId

/-- The id that a hash gives. -/
def ofHash (bs : Bytes) : PayerId := ⟨Bytes.resize _ bs, Bytes.length_resize _ _⟩

/-- The id of the wallet with a seed. -/
def ofSeed (seed : Bytes) : Except Failure PayerId :=
  if seed.length < Protocol.minSeedSize then
    .error (.config
      s!"wallet seed must be at least {Protocol.minSeedSize} bytes, got {seed.length}")
  else .ok (ofHash (Hash.one Protocol.payerIdDomain seed Protocol.payerIdSize))

end AddressExchange.PayerId
