/-
The three capability contracts the handshake is generic over: `D: DH`, `C: Cipher` and
`H: Hash` of `HandshakeState<D, C, H>`.

`crypto_types.rs`, where the traits are declared, is not part of the sources, so each
contract is what `handshakestate.rs` calls on it together with what the spec promises of
it. Private keys are byte strings, as in the wrappers (`X25519 { privkey: [u8; 32] }`).
The primitives themselves stay abstract: a contract is a structure whose fields are the
trait's functions and whose proof fields are the promises every implementation keeps
(a public key is `pub_len` bytes; a ciphertext is the plaintext and a 16-byte tag; a
ciphertext that holds a tag is decrypted without a panic). The two assumptions the
agreement result rests on, that DH commutes and that the AEAD opens what it sealed, are
not promises of every implementation, so they are predicates (`DH.Commutes`,
`Cipher.Correct`) taken as hypotheses where they are used.

HMAC and HKDF are written out, HKDF in the spec's words, because the chaining key and
both transport keys are computed by them.
-/
import NoiseRust.Rust
import Mathlib.Data.UInt

set_option autoImplicit false

namespace NoiseRust

/-- Modelled from the spec: the `DH` trait as `handshakestate.rs` uses it. `D::pub_len()`,
`get_pubkey_vec` and `dh_vec` on a private key, and the name that goes into the protocol
name. -/
structure DH where
  name : String
  pub_len : Nat
  get_pubkey_vec : Bytes → Bytes
  dh_vec : Bytes → Bytes → Bytes
  get_pubkey_vec_length : ∀ k, (get_pubkey_vec k).length = pub_len

/-- Modelled from the spec: the `Cipher` trait. `encrypt(nonce, authtext, plaintext, out)`
fills an `out` of `plaintext.len() + 16` bytes, here its result; `decrypt` returns the
plaintext it wrote into `out` when the tag checks, `none` when it does not, and may panic
on an input too short to hold a tag (both wrappers compute `ciphertext.len() - 16`). -/
structure Cipher where
  name : String
  encrypt : Bytes → UInt64 → Bytes → Bytes → Bytes
  decrypt : Bytes → UInt64 → Bytes → Bytes → Except Panic (Option Bytes)
  encrypt_length : ∀ k n ad p, (encrypt k n ad p).length = p.length + 16
  decrypt_total : ∀ k n ad c, 16 ≤ c.length → ∃ r, decrypt k n ad c = .ok r

/-- Modelled from the spec: the `Hash` trait, a one-shot digest with its block and digest
lengths (`BLOCKLEN`, `HASHLEN`). -/
structure Hash where
  name : String
  block_len : Nat
  hash_len : Nat
  hash : Bytes → Bytes

/-- Diffie-Hellman agreement: each side's private key against the other's public key gives
the same shared secret. -/
def DH.Commutes (D : DH) : Prop :=
  ∀ a b, D.dh_vec a (D.get_pubkey_vec b) = D.dh_vec b (D.get_pubkey_vec a)

/-- AEAD correctness: decryption under the same key, nonce and authtext returns the
plaintext. -/
def Cipher.Correct (C : Cipher) : Prop :=
  ∀ k n ad p, C.decrypt k n ad (C.encrypt k n ad p) = .ok (some p)

/-- The tag a keyed cipher appends to a ciphertext. -/
def tag_len (keyed : Bool) : Nat := if keyed then 16 else 0

@[simp] theorem tag_len_false : tag_len false = 0 := rfl

@[simp] theorem tag_len_true : tag_len true = 16 := rfl

namespace Hash

variable (H : Hash)

/-- Modelled from the spec: HMAC over `H`, the standard construction at `BLOCKLEN`. -/
def hmac (key data : Bytes) : Bytes :=
  let key := if H.block_len < key.length then H.hash key else key
  let key := key ++ zeros (H.block_len - key.length)
  H.hash (key.map (· ^^^ 0x5c) ++ H.hash (key.map (· ^^^ 0x36) ++ data))

/-- Modelled from the spec: `HKDF(ck, ikm, 2)`, the two output blocks. -/
def hkdf (chaining_key input_key_material : Bytes) : Bytes × Bytes :=
  let temp_key := H.hmac chaining_key input_key_material
  let out1 := H.hmac temp_key [1]
  (out1, H.hmac temp_key (out1 ++ [2]))

/-- A cipher key from an HKDF block: its first 32 bytes when `HASHLEN = 64`. -/
def truncate (k : Bytes) : Bytes :=
  if H.hash_len = 64 then k.take 32 else k

end Hash

/-! ## A toy instance

Small computable primitives that keep every contract, so that the model can be run on a
concrete handshake and the hypotheses of its theorems can be discharged at a concrete
input: Diffie-Hellman in the multiplicative monoid of bytes, a cipher that appends a zero
tag, and a hash that sums. -/

/-- A public key is the sum of the private key's bytes, a shared secret the product. -/
def toy_dh : DH where
  name := "toy"
  pub_len := 1
  get_pubkey_vec k := [k.sum]
  dh_vec k pk := [k.sum * pk.headD 0]
  get_pubkey_vec_length _ := rfl

theorem toy_dh_commutes : toy_dh.Commutes := fun a b => by simp [toy_dh, mul_comm]

/-- The plaintext followed by sixteen zero bytes; decryption checks the zeros and, like
both wrappers, panics on an input too short to hold a tag. -/
def toy_cipher : Cipher where
  name := "toy"
  encrypt _ _ _ p := p ++ zeros 16
  decrypt _ _ _ c := if c.length < 16 then .error .sub_overflow
    else .ok (if c.drop (c.length - 16) = zeros 16 then some (c.take (c.length - 16)) else none)
  encrypt_length _ _ _ _ := by simp
  decrypt_total _ _ _ c h := ⟨_, if_neg (by omega)⟩

theorem toy_cipher_correct : toy_cipher.Correct := fun _ _ _ p => by
  simp [toy_cipher]

/-- The sum and the length of the input. -/
def toy_hash : Hash := ⟨"toy", 4, 2, fun m => [m.sum, m.length.toUInt8]⟩

end NoiseRust
