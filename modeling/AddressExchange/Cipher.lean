import AddressExchange.Failure

/-!
# Ciphers

What the exchange asks of encryption: key pairs, blobs that only the holder of a secret key can
open, and the opening of them. What is random is handed in.
-/

namespace AddressExchange

/-- Encryption to public keys. -/
structure Cipher where
  /-- The key pair of random bytes. -/
  generate : Bytes → KeyPair
  /-- Encrypts a message to a key, with random bytes. -/
  encrypt : Bytes → Bytes → PublicKey → Except Failure Bytes
  /-- Opens a blob with a secret key. -/
  decrypt : Bytes → SecretKey → Except Failure Bytes

end AddressExchange
