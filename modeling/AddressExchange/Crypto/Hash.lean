import AddressExchange.Crypto.Keccak

/-!
# Hashing under a separator

What is hashed begins with the length of the separator and the separator itself, so that two uses
with different separators never hash the same bytes.
-/

namespace AddressExchange.Hash

/-- A separator with its length in front. -/
def framedDomain (domain : Bytes) : Bytes := Bytes.littleEndian 4 domain.length ++ domain

/-- An input with its length in front. -/
def framedInput (input : Bytes) : Bytes := Bytes.littleEndian 8 input.length ++ input

/-- What is hashed for one input. -/
def single (domain input : Bytes) : Bytes := framedDomain domain ++ input

/-- What is hashed for several inputs. -/
def several (domain : Bytes) (inputs : List Bytes) : Bytes :=
  framedDomain domain ++ inputs.flatMap framedInput

/-- The hash of one input. -/
def one (domain input : Bytes) (length : Nat) : Bytes :=
  Keccak.shake256 (single domain input) length

/-- The hash of several inputs; where one ends and the next begins counts. -/
def many (domain : Bytes) (inputs : List Bytes) (length : Nat) : Bytes :=
  Keccak.shake256 (several domain inputs) length

end AddressExchange.Hash
