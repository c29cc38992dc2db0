/-
`CipherState` and `SymmetricState`: the key schedule the handshake drives.

`cipherstate.rs` and `symmetricstate.rs` are not among the sources; `handshakestate.rs`
calls `mix_hash`, `mix_key`, `has_key`, `encrypt_and_hash_vec`, `decrypt_and_hash_vec`,
`get_hash` and `split` on them, and every one of those is modelled here in the spec's
words (§4.1, §4.2). The state is a plain record, compared by `=`: the agreement result
says the two parties' records are equal, which is what makes their hashes and their
transport ciphers equal.

What the handshake proofs need of this layer is one lemma per operation, below each
definition: how it moves `has_key` and `h`, how long a ciphertext is, and that
`decrypt_and_hash_vec` undoes `encrypt_and_hash_vec` from the same state.
-/
import NoiseRust.Crypto

set_option autoImplicit false

namespace NoiseRust

/-- Modelled from the spec: a cipher key, absent until the first `MixKey`, and the nonce
counter. -/
structure CipherState where
  k : Option Bytes
  n : UInt64
  deriving DecidableEq, Repr

namespace CipherState

variable (C : Cipher)

/-- Modelled from the spec: `InitializeKey(key)`. -/
def initialize_key (key : Bytes) : CipherState := ⟨some key, 0⟩

/-- Modelled from the spec: `HasKey()`. -/
def has_key (cs : CipherState) : Bool := cs.k.isSome

/-- Modelled from the spec: `EncryptWithAd`, the identity until a key is installed. -/
def encrypt_with_ad (cs : CipherState) (ad plaintext : Bytes) : Bytes × CipherState :=
  match cs.k with
  | some k => (C.encrypt k cs.n ad plaintext, { cs with n := cs.n + 1 })
  | none => (plaintext, cs)

/-- Modelled from the spec: `DecryptWithAd`; a failed decryption leaves the nonce where it
was, which is why the result is an `Option` of the new state. -/
def decrypt_with_ad (cs : CipherState) (ad ciphertext : Bytes) :
    Except Panic (Option (Bytes × CipherState)) :=
  match cs.k with
  | some k => do
    match ← C.decrypt k cs.n ad ciphertext with
    | some p => pure (some (p, { cs with n := cs.n + 1 }))
    | none => pure none
  | none => pure (some (ciphertext, cs))

end CipherState

/-- Modelled from the spec: the chaining key, the transcript hash and the cipher. -/
structure SymmetricState where
  cipherstate : CipherState
  ck : Bytes
  h : Bytes
  deriving DecidableEq, Repr

namespace SymmetricState

variable (C : Cipher) (H : Hash)

/-- Modelled from the spec: `InitializeSymmetric(protocol_name)`. -/
def new (name : Bytes) : SymmetricState :=
  let h := if name.length ≤ H.hash_len then name ++ zeros (H.hash_len - name.length)
    else H.hash name
  ⟨⟨none, 0⟩, h, h⟩

/-- Modelled from the spec: `MixHash(data)`. -/
def mix_hash (st : SymmetricState) (data : Bytes) : SymmetricState :=
  { st with h := H.hash (st.h ++ data) }

/-- Modelled from the spec: `MixKey(input_key_material)`. -/
def mix_key (st : SymmetricState) (input_key_material : Bytes) : SymmetricState :=
  let (ck, temp_k) := H.hkdf st.ck input_key_material
  { st with ck := ck, cipherstate := CipherState.initialize_key (H.truncate temp_k) }

/-- `has_key()`: a `MixKey` has happened. -/
def has_key (st : SymmetricState) : Bool := st.cipherstate.has_key

/-- Modelled from the spec: `EncryptAndHash(plaintext)`, which hashes the ciphertext. -/
def encrypt_and_hash_vec (st : SymmetricState) (plaintext : Bytes) :
    Bytes × SymmetricState :=
  let (c, cs) := st.cipherstate.encrypt_with_ad C st.h plaintext
  (c, mix_hash H { st with cipherstate := cs } c)

/-- Modelled from the spec: `DecryptAndHash(ciphertext)`; on success the ciphertext, not
the plaintext, is hashed, and on failure nothing changes. -/
def decrypt_and_hash_vec (st : SymmetricState) (ciphertext : Bytes) :
    Except Panic (Option (Bytes × SymmetricState)) := do
  match ← st.cipherstate.decrypt_with_ad C st.h ciphertext with
  | some (p, cs) => pure (some (p, mix_hash H { st with cipherstate := cs } ciphertext))
  | none => pure none

/-- `get_hash()`. -/
def get_hash (st : SymmetricState) : Bytes := st.h

/-- Modelled from the spec: `Split()`, the two transport ciphers. -/
def split (st : SymmetricState) : CipherState × CipherState :=
  let (k1, k2) := H.hkdf st.ck []
  (CipherState.initialize_key (H.truncate k1), CipherState.initialize_key (H.truncate k2))

/-- `MixHash` over a list of fields, in order: the transcript of a message. -/
def mix_all (h : Bytes) (fields : List Bytes) : Bytes := fields.foldl (fun h f => H.hash (h ++ f)) h

@[simp] theorem mix_all_nil (h : Bytes) : mix_all H h [] = h := rfl

@[simp] theorem mix_all_cons (h f : Bytes) (fs : List Bytes) :
    mix_all H h (f :: fs) = mix_all H (H.hash (h ++ f)) fs := rfl

@[simp] theorem mix_all_append (h : Bytes) (fs gs : List Bytes) :
    mix_all H h (fs ++ gs) = mix_all H (mix_all H h fs) gs := List.foldl_append _ _ _ _

/-! ## One lemma per operation -/

@[simp] theorem new_has_key (name : Bytes) : (new H name).has_key = false := rfl

@[simp] theorem mix_hash_has_key (st : SymmetricState) (data : Bytes) :
    (mix_hash H st data).has_key = st.has_key := rfl

@[simp] theorem mix_hash_h (st : SymmetricState) (data : Bytes) :
    (mix_hash H st data).h = H.hash (st.h ++ data) := rfl

@[simp] theorem mix_key_has_key (st : SymmetricState) (ikm : Bytes) :
    (mix_key H st ikm).has_key = true := rfl

@[simp] theorem mix_key_h (st : SymmetricState) (ikm : Bytes) : (mix_key H st ikm).h = st.h := rfl

/-- `EncryptAndHash` in one equation: the ciphertext is the AEAD output once keyed and the
plaintext before, the key stays, and the ciphertext is what is hashed. -/
theorem encrypt_and_hash_vec_spec (st : SymmetricState) (p : Bytes) :
    (encrypt_and_hash_vec C H st p).1.length = p.length + tag_len st.has_key ∧
    (encrypt_and_hash_vec C H st p).2.has_key = st.has_key ∧
    (encrypt_and_hash_vec C H st p).2.h = H.hash (st.h ++ (encrypt_and_hash_vec C H st p).1) := by
  rcases st with ⟨⟨_ | k, n⟩, ck, h⟩ <;>
    simp [encrypt_and_hash_vec, CipherState.encrypt_with_ad, has_key, CipherState.has_key,
      C.encrypt_length, mix_hash]

/-- `DecryptAndHash` on success: the key stays and the ciphertext is hashed. -/
theorem decrypt_and_hash_vec_some {st st' : SymmetricState} {c p : Bytes}
    (h : decrypt_and_hash_vec C H st c = .ok (some (p, st'))) :
    st'.has_key = st.has_key ∧ st'.h = H.hash (st.h ++ c) := by
  rcases st with ⟨⟨_ | k, n⟩, ck, h0⟩
  · simp only [decrypt_and_hash_vec, CipherState.decrypt_with_ad, pure_eq_ok, ok_bind,
      Except.ok.injEq, Option.some.injEq, Prod.mk.injEq] at h
    obtain ⟨-, rfl⟩ := h
    exact ⟨rfl, rfl⟩
  · simp only [decrypt_and_hash_vec, CipherState.decrypt_with_ad] at h
    rcases hd : C.decrypt k n h0 c with _ | _ | q <;> simp [hd] at h
    obtain ⟨-, rfl⟩ := h
    exact ⟨rfl, rfl⟩

/-- `DecryptAndHash` does not panic on a ciphertext that holds a tag, or before a key is
installed. -/
theorem decrypt_and_hash_vec_total (st : SymmetricState) {c : Bytes}
    (hc : st.has_key = true → 16 ≤ c.length) :
    ∃ r, decrypt_and_hash_vec C H st c = .ok r := by
  rcases st with ⟨⟨_ | k, n⟩, ck, h0⟩
  · exact ⟨_, rfl⟩
  · obtain ⟨r, hr⟩ := C.decrypt_total k n h0 c (hc rfl)
    simp only [decrypt_and_hash_vec, CipherState.decrypt_with_ad, hr, ok_bind]
    rcases r with _ | q <;> exact ⟨_, rfl⟩

/-- Once keyed, `DecryptAndHash` panics where the cipher's `decrypt` does: nothing checks
the ciphertext before it reaches the cipher. -/
theorem decrypt_and_hash_vec_error {st : SymmetricState} {c : Bytes} {e : Panic}
    (hk : st.has_key = true) (hC : ∀ k n ad, C.decrypt k n ad c = .error e) :
    decrypt_and_hash_vec C H st c = .error e := by
  rcases st with ⟨⟨_ | k, n⟩, ck, h0⟩
  · simp [has_key, CipherState.has_key] at hk
  · simp [decrypt_and_hash_vec, CipherState.decrypt_with_ad, hC]

/-- **`DecryptAndHash` inverts `EncryptAndHash`** from the same state (spec §8, law 2):
the plaintext comes back and both sides end in the same state. -/
theorem decrypt_and_hash_vec_encrypt (hC : C.Correct) (st : SymmetricState) (p : Bytes) :
    decrypt_and_hash_vec C H st (encrypt_and_hash_vec C H st p).1
      = .ok (some (p, (encrypt_and_hash_vec C H st p).2)) := by
  rcases st with ⟨⟨_ | k, n⟩, ck, h0⟩
  · rfl
  · simp [decrypt_and_hash_vec, encrypt_and_hash_vec, CipherState.decrypt_with_ad,
      CipherState.encrypt_with_ad, hC k n h0 p]

end SymmetricState

end NoiseRust
