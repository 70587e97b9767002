import V2RootCore.Go.Io

/-!
# Authenticated encryption

The ciphers of the crypto libraries, by what their documentation says of them.
-/

namespace V2RootCore.Crypto

open Go

/-- `cipher.AEAD` with its key. What was sealed is opened by the same key, nonce and additional data. -/
structure Cipher where
  key : Bytes
  nonceSize : Nat
  overhead : Nat
  sealBytes : (nonce plaintext additionalData : Bytes) → Bytes
  openBytes : (nonce ciphertext additionalData : Bytes) → Option Bytes
  length_sealBytes : ∀ nonce plaintext additionalData,
    (sealBytes nonce plaintext additionalData).length = plaintext.length + overhead
  openBytes_sealBytes : ∀ nonce plaintext additionalData,
    openBytes nonce (sealBytes nonce plaintext additionalData) additionalData = some plaintext

/-- The two ciphers in use, as functions of the key. -/
structure Suite where
  gcm : Bytes → Cipher
  chacha20Poly1305 : Bytes → Cipher
  gcm_key : ∀ key, (gcm key).key = key
  gcm_nonceSize : ∀ key, (gcm key).nonceSize = 12
  gcm_overhead : ∀ key, (gcm key).overhead = 16
  chacha20Poly1305_key : ∀ key, (chacha20Poly1305 key).key = key
  chacha20Poly1305_nonceSize : ∀ key, (chacha20Poly1305 key).nonceSize = 12
  chacha20Poly1305_overhead : ∀ key, (chacha20Poly1305 key).overhead = 16

/-- A tag of 16 bytes: the last bytes of key and nonce. -/
def tag (key nonce : Bytes) : Bytes := ((key ++ nonce).reverse ++ List.replicate 16 0).take 16

@[simp]
theorem length_tag (key nonce : Bytes) : (tag key nonce).length = 16 := by
  rw [tag, List.length_take, List.length_append, List.length_replicate]
  omega

/-- A cipher that only appends its tag. -/
def tagging (key : Bytes) : Cipher where
  key := key
  nonceSize := 12
  overhead := 16
  sealBytes nonce plaintext _ := plaintext ++ tag key nonce
  openBytes nonce ciphertext _ :=
    if ciphertext.drop (ciphertext.length - 16) = tag key nonce then
      some (ciphertext.take (ciphertext.length - 16))
    else none
  length_sealBytes nonce plaintext _ := by simp
  openBytes_sealBytes nonce plaintext _ := by simp

/-- Ciphers that show what they were used with. -/
def Suite.tagging : Suite where
  gcm := Crypto.tagging
  chacha20Poly1305 := Crypto.tagging
  gcm_key _ := rfl
  gcm_nonceSize _ := rfl
  gcm_overhead _ := rfl
  chacha20Poly1305_key _ := rfl
  chacha20Poly1305_nonceSize _ := rfl
  chacha20Poly1305_overhead _ := rfl

end V2RootCore.Crypto
