/-
`noise-rust-crypto/src/lib.rs`: the crate's two `Cipher` implementations,
`ChaCha20Poly1305` and `Aes256Gcm`, over RustCrypto's AEADs. Each has four entry points:
`encrypt` and `decrypt` into a separate `out` buffer, and `encrypt_in_place` and
`decrypt_in_place` over one buffer and a length.

The two implementations are the same code but for the AEAD and the byte order of the
nonce in the 12-byte IV (`to_le_bytes` for ChaCha20-Poly1305, `to_be_bytes` for AES-GCM),
so each entry point is written once, over an abstract `AeadInPlace` and a
`NonceEncoding`, and each cipher's function is that definition at its own encoding. The
AEAD is RustCrypto's `AeadInPlace` interface: it encrypts a buffer in place and returns a
tag or an error (which every entry point `unwrap`s), and decrypts a buffer in place
against a tag. Every `&mut [u8]` argument is returned as it is after the call.

Each entry point has one equation (`encrypt_eq`, `encrypt_in_place_eq`, `decrypt_eq`,
`decrypt_in_place_eq`) that says which call of the AEAD it makes, on which part of which
buffer, under which IV. `entry_points_agree` is assembled from them: the in-place
functions compute what the out-of-place ones do, on the prefix of the buffer the length
argument names, and leave the rest of the buffer alone; and when the AEAD opens what it
sealed, either decrypt entry point recovers the plaintext from either encrypt entry
point's output.

The IV is pinned against the specification and not against the code's own helpers:
`chachapoly_iv` and `aesgcm_iv` write the counter's bytes from the byte formula, and
`crate_ciphers_agree` says that each cipher's `encrypt` and `decrypt` call the AEAD under
its IV (`CallsAead`), so that, through the agreement, all four entry points do.
-/
import NoiseRust.Rust

set_option autoImplicit false

namespace NoiseRust

namespace NoiseRustCrypto

/-- RustCrypto's `AeadInPlace` for 12-byte nonces and 16-byte tags:
`encrypt_in_place_detached(nonce, ad, buffer)` and
`decrypt_in_place_detached(nonce, ad, buffer, tag)` under a key, each with the buffer it
leaves. A buffer is a slice, so its length does not change; a tag is a
`GenericArray<u8, U16>`. -/
structure AeadInPlace where
  encrypt_in_place_detached : Bytes → Bytes → Bytes → Bytes → Except Unit Bytes × Bytes
  decrypt_in_place_detached : Bytes → Bytes → Bytes → Bytes → Bytes → Except Unit Unit × Bytes
  encrypt_length : ∀ k n ad b, (encrypt_in_place_detached k n ad b).2.length = b.length
  tag_length : ∀ k n ad b t, (encrypt_in_place_detached k n ad b).1 = .ok t → t.length = 16
  decrypt_length : ∀ k n ad b t, (decrypt_in_place_detached k n ad b t).2.length = b.length

/-- The AEAD opens what it sealed: a buffer it encrypted in place under tag `t` decrypts
in place, under the same key, nonce and authtext, back to the plaintext. -/
def AeadInPlace.Correct (A : AeadInPlace) : Prop :=
  ∀ k n ad p t c, A.encrypt_in_place_detached k n ad p = (.ok t, c) →
    A.decrypt_in_place_detached k n ad c t = (.ok (), p)

/-- How a cipher writes the 64-bit Noise nonce: as eight bytes. -/
structure NonceEncoding where
  to_bytes : UInt64 → Bytes
  length : ∀ n, (to_bytes n).length = 8

/-- `u64::to_le_bytes`, ChaCha20-Poly1305's. -/
def NonceEncoding.le : NonceEncoding := ⟨to_le_bytes, to_le_bytes_length⟩

/-- `u64::to_be_bytes`, AES-GCM's. -/
def NonceEncoding.be : NonceEncoding := ⟨to_be_bytes, to_be_bytes_length⟩

/-- `GenericArray::from_slice`, behind `tag.into()`: it asserts the slice's length. -/
def from_slice (n : Nat) (s : Bytes) : Except Panic Bytes :=
  if s.length = n then .ok s else .error .assert_failed

theorem from_slice_of_length {n : Nat} {s : Bytes} (h : s.length = n) : from_slice n s = .ok s :=
  if_pos h

/-- What the four entry points of one cipher owe each other, at one key, nonce and
authtext: `encrypt_in_place` and `decrypt_in_place` compute, on the buffer's prefix, what
`encrypt` and `decrypt` compute into `out`, and leave the rest of the buffer; and either
decrypt entry point recovers the plaintext from either encrypt entry point's output. -/
structure EntryPointsAgree (encrypt : Bytes → Bytes → Except Panic Bytes)
    (encrypt_in_place : Bytes → Nat → Except Panic (Nat × Bytes))
    (decrypt : Bytes → Bytes → Except Panic (Except Unit Unit × Bytes))
    (decrypt_in_place : Bytes → Nat → Except Panic (Except Unit Nat × Bytes)) : Prop where
  encrypt_in_place_eq : ∀ p b out, p.length + 16 ≤ b.length → b.take p.length = p →
    out.length = p.length + 16 →
    encrypt_in_place b p.length =
      (encrypt p out).map fun c => (p.length + 16, c ++ b.drop (p.length + 16))
  decrypt_in_place_eq : ∀ c b out, 16 ≤ c.length → c.length ≤ b.length → b.take c.length = c →
    out.length = c.length - 16 →
    ∃ r q, decrypt c out = .ok (r, q) ∧
      decrypt_in_place b c.length = .ok (r.map fun _ => c.length - 16, q ++ b.drop (c.length - 16))
  decrypt_encrypt : ∀ p out c out', encrypt p out = .ok c → out'.length = p.length →
    decrypt c out' = .ok (.ok (), p)
  decrypt_in_place_encrypt : ∀ p out c b, encrypt p out = .ok c → c.length ≤ b.length →
    b.take c.length = c → decrypt_in_place b c.length = .ok (.ok p.length, p ++ b.drop p.length)
  decrypt_encrypt_in_place : ∀ p b l b' out', p.length + 16 ≤ b.length → b.take p.length = p →
    encrypt_in_place b p.length = .ok (l, b') → out'.length = p.length →
    decrypt (b'.take l) out' = .ok (.ok (), p)
  decrypt_in_place_encrypt_in_place : ∀ p b l b', p.length + 16 ≤ b.length →
    b.take p.length = p → encrypt_in_place b p.length = .ok (l, b') →
    decrypt_in_place b' l = .ok (.ok p.length, p ++ b'.drop p.length)

/-- Which call of the AEAD a cipher's `encrypt` and `decrypt` make under the IV `iv`:
`encrypt` seals the plaintext and writes ciphertext and tag into `out` (it panics where
the AEAD fails), and `decrypt` opens the ciphertext's body against its last 16 bytes. -/
structure CallsAead (A : AeadInPlace) (k ad iv : Bytes)
    (encrypt : Bytes → Bytes → Except Panic Bytes)
    (decrypt : Bytes → Bytes → Except Panic (Except Unit Unit × Bytes)) : Prop where
  encrypt_eq : ∀ p out, p.length + 16 < Nat.pow 2 64 → out.length = p.length + 16 →
    encrypt p out = (result_unwrap (A.encrypt_in_place_detached k iv ad p).1).map
      fun t => (A.encrypt_in_place_detached k iv ad p).2 ++ t
  decrypt_eq : ∀ c out, 16 ≤ c.length → out.length = c.length - 16 →
    decrypt c out = .ok (A.decrypt_in_place_detached k iv ad (c.take (c.length - 16))
      (c.drop (c.length - 16)))

/-- Modelled from the spec: the 96-bit IV of ChaCha20-Poly1305 for the counter `n`, 32
zero bits and then the counter's eight bytes, the least significant first. -/
def chachapoly_iv (n : UInt64) : Bytes :=
  zeros 4 ++ (List.range 8).map fun i => UInt8.ofNat (n.toNat / Nat.pow 256 i % 256)

/-- Modelled from the spec: the 96-bit IV of AES-GCM for the counter `n`, 32 zero bits and
then the counter's eight bytes, the most significant first. -/
def aesgcm_iv (n : UInt64) : Bytes :=
  zeros 4 ++ (List.range 8).map fun i => UInt8.ofNat (n.toNat / Nat.pow 256 (7 - i) % 256)

example : chachapoly_iv 258 = [0, 0, 0, 0, 2, 1, 0, 0, 0, 0, 0, 0] ∧
    aesgcm_iv 258 = [0, 0, 0, 0, 0, 0, 0, 0, 0, 0, 1, 2] := by decide

/-! ## The four entry points, once for both ciphers -/

namespace AeadCipher

variable (A : AeadInPlace) (E : NonceEncoding)

/-- `let mut full_nonce = [0u8; 12]; full_nonce[4..].copy_from_slice(&nonce.to_xx_bytes());` -/
def full_nonce (nonce : UInt64) : Except Panic Bytes := do
  let full_nonce := zeros 12
  let tail ← copy_from_slice (← slice_from full_nonce 4) (E.to_bytes nonce)
  pure (full_nonce.take 4 ++ tail)

/-- `encrypt(k, nonce, ad, plaintext, out)`: the `out` it leaves. -/
def encrypt (k : Bytes) (nonce : UInt64) (ad plaintext out : Bytes) : Except Panic Bytes := do
  assert (checked_add plaintext.length 16 == some out.length)
  let full_nonce ← full_nonce E nonce
  let (in_out, tag_out) ← split_at out plaintext.length
  let in_out ← copy_from_slice in_out plaintext
  let (tag, in_out) := A.encrypt_in_place_detached k full_nonce ad in_out
  let tag ← result_unwrap tag
  let tag_out ← copy_from_slice tag_out tag
  pure (in_out ++ tag_out)

/-- `encrypt_in_place(k, nonce, ad, in_out, plaintext_len)`: the length it returns and the
buffer it leaves. -/
def encrypt_in_place (k : Bytes) (nonce : UInt64) (ad in_out : Bytes) (plaintext_len : Nat) :
    Except Panic (Nat × Bytes) := do
  assert ((checked_add plaintext_len 16).elim false fun l => l ≤ in_out.length)
  let full_nonce ← full_nonce E nonce
  let (body, tag_out) ← split_at (← slice_to in_out (plaintext_len + 16)) plaintext_len
  let (tag, body) := A.encrypt_in_place_detached k full_nonce ad body
  let tag ← result_unwrap tag
  let tag_out ← copy_from_slice tag_out tag
  pure (plaintext_len + 16, body ++ tag_out ++ in_out.drop (plaintext_len + 16))

/-- `decrypt(k, nonce, ad, ciphertext, out)`: its `Result` and the `out` it leaves. -/
def decrypt (k : Bytes) (nonce : UInt64) (ad ciphertext out : Bytes) :
    Except Panic (Except Unit Unit × Bytes) := do
  assert (checked_sub ciphertext.length 16 == some out.length)
  let full_nonce ← full_nonce E nonce
  let out ← copy_from_slice out (← slice_to ciphertext out.length)
  let tag ← slice_from ciphertext out.length
  pure (A.decrypt_in_place_detached k full_nonce ad out (← from_slice 16 tag))

/-- `decrypt_in_place(k, nonce, ad, in_out, ciphertext_len)`: its `Result` (the `?` returns
the `Err` early) and the buffer it leaves. -/
def decrypt_in_place (k : Bytes) (nonce : UInt64) (ad in_out : Bytes) (ciphertext_len : Nat) :
    Except Panic (Except Unit Nat × Bytes) := do
  assert (ciphertext_len ≤ in_out.length)
  assert (ciphertext_len ≥ 16)
  let full_nonce ← full_nonce E nonce
  let (body, tag) ←
    split_at (← slice_to in_out ciphertext_len) (← usize_sub ciphertext_len 16)
  let (r, body) := A.decrypt_in_place_detached k full_nonce ad body (← from_slice 16 tag)
  pure (r.map fun () => body.length, body ++ tag ++ in_out.drop ciphertext_len)

/-! ## One equation per entry point -/

/-- The 12-byte IV: four zero bytes, then the encoded nonce. -/
def iv (nonce : UInt64) : Bytes := zeros 4 ++ E.to_bytes nonce

theorem full_nonce_eq (nonce : UInt64) : full_nonce E nonce = .ok (iv E nonce) := by
  simp [full_nonce, slice_from_of_le, copy_from_slice_of_length, E.length, iv, zeros]

/-- `encrypt` hands the plaintext to the AEAD under the IV, and writes its ciphertext and
tag into `out`; it panics where the AEAD fails. -/
theorem encrypt_eq (k : Bytes) (nonce : UInt64) (ad p out : Bytes)
    (hov : p.length + 16 < Nat.pow 2 64) (hout : out.length = p.length + 16) :
    encrypt A E k nonce ad p out =
      (result_unwrap (A.encrypt_in_place_detached k (iv E nonce) ad p).1).map
        fun t => (A.encrypt_in_place_detached k (iv E nonce) ad p).2 ++ t := by
  have hc : (out.take p.length).length = p.length := by simp; omega
  have ht := A.tag_length k (iv E nonce) ad p
  rcases hr : A.encrypt_in_place_detached k (iv E nonce) ad p with ⟨_ | t, c⟩ <;>
    simp only [encrypt, checked_add_eq_some hov, hout, beq_self_eq_true, assert_true,
      full_nonce_eq, ok_bind, split_at_of_le (by omega : p.length ≤ out.length),
      copy_from_slice_of_length hc, hr, result_unwrap_error, result_unwrap_ok, error_bind]
  · rfl
  · have htl : (out.drop p.length).length = t.length := by rw [ht t (by rw [hr])]; simp; omega
    simp only [copy_from_slice_of_length htl]
    rfl

theorem encrypt_of_overflow (k : Bytes) (nonce : UInt64) (ad p out : Bytes)
    (hov : ¬p.length + 16 < Nat.pow 2 64) :
    encrypt A E k nonce ad p out = .error .assert_failed := by
  simp [encrypt, checked_add_eq_none hov, assert]

/-- `encrypt_in_place` hands `in_out[..plaintext_len]` to the AEAD under the IV, writes the
tag after it and leaves the rest of the buffer as it was. -/
theorem encrypt_in_place_eq (k : Bytes) (nonce : UInt64) (ad b : Bytes) (l : Nat)
    (hov : l + 16 < Nat.pow 2 64) (hb : l + 16 ≤ b.length) :
    encrypt_in_place A E k nonce ad b l =
      (result_unwrap (A.encrypt_in_place_detached k (iv E nonce) ad (b.take l)).1).map
        fun t => (l + 16, (A.encrypt_in_place_detached k (iv E nonce) ad (b.take l)).2 ++ t ++
          b.drop (l + 16)) := by
  have ht := A.tag_length k (iv E nonce) ad (b.take l)
  rcases hr : A.encrypt_in_place_detached k (iv E nonce) ad (b.take l) with ⟨_ | t, c⟩ <;>
    rw [hr] at ht
  · simp [encrypt_in_place, checked_add_eq_some hov, hb, full_nonce_eq, slice_to_of_le,
      split_at_of_le, List.take_take, hr, Except.map]
  · have htake : ((b.drop l).take 16).length = 16 := by simp; omega
    simp [encrypt_in_place, checked_add_eq_some hov, hb, full_nonce_eq, slice_to_of_le,
      split_at_of_le, List.take_take, List.drop_take, hr, Except.map,
      copy_from_slice_of_length (htake.trans (ht t rfl).symm)]

theorem encrypt_in_place_of_overflow (k : Bytes) (nonce : UInt64) (ad b : Bytes) (l : Nat)
    (hov : ¬l + 16 < Nat.pow 2 64) :
    encrypt_in_place A E k nonce ad b l = .error .assert_failed := by
  simp [encrypt_in_place, checked_add_eq_none hov, assert]

/-- `decrypt` hands the ciphertext's body and its last 16 bytes to the AEAD under the IV,
and returns what it does. -/
theorem decrypt_eq (k : Bytes) (nonce : UInt64) (ad c out : Bytes) (h16 : 16 ≤ c.length)
    (hout : out.length = c.length - 16) :
    decrypt A E k nonce ad c out =
      .ok (A.decrypt_in_place_detached k (iv E nonce) ad (c.take (c.length - 16))
        (c.drop (c.length - 16))) := by
  have ht : (c.drop (c.length - 16)).length = 16 := by simp; omega
  simp [decrypt, checked_sub, h16, hout, full_nonce_eq, slice_to_of_le, slice_from_of_le,
    copy_from_slice_of_length, from_slice_of_length ht]

/-- `decrypt_in_place` hands `in_out[..ciphertext_len - 16]` and the 16 bytes after it to
the AEAD under the IV; the buffer keeps what the AEAD leaves there, and the rest. -/
theorem decrypt_in_place_eq (k : Bytes) (nonce : UInt64) (ad b : Bytes) (l : Nat) (h16 : 16 ≤ l)
    (hl : l ≤ b.length) :
    decrypt_in_place A E k nonce ad b l =
      .ok ((A.decrypt_in_place_detached k (iv E nonce) ad (b.take (l - 16))
          ((b.drop (l - 16)).take 16)).1.map fun _ => l - 16,
        (A.decrypt_in_place_detached k (iv E nonce) ad (b.take (l - 16))
          ((b.drop (l - 16)).take 16)).2 ++ b.drop (l - 16)) := by
  have hs : l - (l - 16) = 16 := by omega
  have ht : ((b.drop (l - 16)).take 16).length = 16 := by simp; omega
  have hd : (A.decrypt_in_place_detached k (iv E nonce) ad (b.take (l - 16))
      ((b.drop (l - 16)).take 16)).2.length = l - 16 := by
    rw [A.decrypt_length]; simp; omega
  have hrest : (b.drop (l - 16)).take 16 ++ b.drop l = b.drop (l - 16) := by
    conv_rhs => rw [← List.take_append_drop 16 (b.drop (l - 16)), List.drop_drop]
    rw [show l - 16 + 16 = l by omega]
  simp [decrypt_in_place, hl, h16, full_nonce_eq, slice_to_of_le, usize_sub_of_le h16,
    split_at_of_le, List.take_take, List.drop_take, hs, from_slice_of_length ht, hd, hrest]

/-- What a returned `encrypt` computed: the AEAD returned a tag, and `out` is its
ciphertext followed by the tag. -/
theorem encrypt_ok_inv {k : Bytes} {nonce : UInt64} {ad p out c : Bytes}
    (h : encrypt A E k nonce ad p out = .ok c) :
    ∃ t c', A.encrypt_in_place_detached k (iv E nonce) ad p = (.ok t, c') ∧ c = c' ++ t := by
  by_cases hov : p.length + 16 < Nat.pow 2 64
  · by_cases hout : out.length = p.length + 16
    · rw [encrypt_eq A E k nonce ad p out hov hout] at h
      rcases hr : A.encrypt_in_place_detached k (iv E nonce) ad p with ⟨_ | t, c'⟩ <;>
        simp [hr, Except.map] at h
      exact ⟨t, c', rfl, h.symm⟩
    · simp [encrypt, checked_add_eq_some hov, assert, Ne.symm hout] at h
  · simp [encrypt_of_overflow A E k nonce ad p out hov] at h

theorem encrypt_ok_length {k : Bytes} {nonce : UInt64} {ad p out c : Bytes}
    (h : encrypt A E k nonce ad p out = .ok c) : c.length = p.length + 16 := by
  obtain ⟨t, c', hr, rfl⟩ := encrypt_ok_inv A E h
  have hc : c'.length = p.length := by simpa [hr] using A.encrypt_length k (iv E nonce) ad p
  simp [hc, A.tag_length k (iv E nonce) ad p t (by rw [hr])]

/-! ## The in-place entry points compute what the others do -/

/-- `encrypt_in_place` over a buffer that starts with the plaintext writes there what
`encrypt` writes into an `out` of its own, returns that length and leaves the rest of the
buffer; where one panics the other does. -/
theorem encrypt_in_place_agrees (k : Bytes) (nonce : UInt64) (ad p b out : Bytes)
    (hb : p.length + 16 ≤ b.length) (hp : b.take p.length = p)
    (hout : out.length = p.length + 16) :
    encrypt_in_place A E k nonce ad b p.length =
      (encrypt A E k nonce ad p out).map fun c => (p.length + 16, c ++ b.drop (p.length + 16)) := by
  by_cases hov : p.length + 16 < Nat.pow 2 64
  · rw [encrypt_in_place_eq A E k nonce ad b _ hov hb, encrypt_eq A E k nonce ad p out hov hout,
      hp]
    rcases A.encrypt_in_place_detached k (iv E nonce) ad p with ⟨_ | t, c⟩ <;> rfl
  · rw [encrypt_in_place_of_overflow A E k nonce ad b _ hov,
      encrypt_of_overflow A E k nonce ad p out hov]
    rfl

/-- `decrypt_in_place` over a buffer that starts with the ciphertext returns `Ok` with the
body's length exactly when `decrypt` returns `Ok`, and leaves in the buffer's first bytes
what `decrypt` leaves in `out`; the tag and what follows it stay. -/
theorem decrypt_in_place_agrees (k : Bytes) (nonce : UInt64) (ad c b out : Bytes)
    (h16 : 16 ≤ c.length) (hcb : c.length ≤ b.length) (hb : b.take c.length = c)
    (hout : out.length = c.length - 16) :
    ∃ r q, decrypt A E k nonce ad c out = .ok (r, q) ∧
      decrypt_in_place A E k nonce ad b c.length =
        .ok (r.map fun _ => c.length - 16, q ++ b.drop (c.length - 16)) := by
  have hbody : c.take (c.length - 16) = b.take (c.length - 16) :=
    calc c.take (c.length - 16) = (b.take c.length).take (c.length - 16) := by rw [hb]
      _ = b.take (c.length - 16) := by rw [List.take_take, Nat.min_eq_left (Nat.sub_le _ _)]
  have htag : c.drop (c.length - 16) = (b.drop (c.length - 16)).take 16 :=
    calc c.drop (c.length - 16) = (b.take c.length).drop (c.length - 16) := by rw [hb]
      _ = (b.drop (c.length - 16)).take 16 := by
        rw [List.drop_take, show c.length - (c.length - 16) = 16 by omega]
  rw [decrypt_eq A E k nonce ad c out h16 hout, decrypt_in_place_eq A E k nonce ad b _ h16 hcb,
    hbody, htag]
  exact ⟨_, _, rfl, rfl⟩

/-- What a returned `encrypt_in_place` computed, through `encrypt`. -/
theorem encrypt_in_place_ok_inv {k : Bytes} {nonce : UInt64} {ad p b b' : Bytes} {l : Nat}
    (hb : p.length + 16 ≤ b.length) (hp : b.take p.length = p)
    (h : encrypt_in_place A E k nonce ad b p.length = .ok (l, b')) :
    ∃ c, encrypt A E k nonce ad p (zeros (p.length + 16)) = .ok c ∧ l = c.length ∧
      b' = c ++ b.drop c.length := by
  rw [encrypt_in_place_agrees A E k nonce ad p b _ hb hp (zeros_length _)] at h
  rcases he : encrypt A E k nonce ad p (zeros (p.length + 16)) with _ | c <;>
    simp only [he, Except.map, reduceCtorEq, Except.ok.injEq, Prod.mk.injEq] at h
  have hc := encrypt_ok_length A E he
  exact ⟨c, rfl, by rw [← h.1, hc], by rw [← h.2, hc]⟩

/-! ## Round trips -/

section RoundTrip

variable {A} (hA : A.Correct)

include hA

/-- `decrypt` opens what `encrypt` wrote. -/
theorem decrypt_encrypt {k : Bytes} {nonce : UInt64} {ad p out c : Bytes}
    (h : encrypt A E k nonce ad p out = .ok c) (out' : Bytes) (hout' : out'.length = p.length) :
    decrypt A E k nonce ad c out' = .ok (.ok (), p) := by
  obtain ⟨t, c', hr, rfl⟩ := encrypt_ok_inv A E h
  have hc : c'.length = p.length := by simpa [hr] using A.encrypt_length k (iv E nonce) ad p
  have ht : t.length = 16 := A.tag_length k (iv E nonce) ad p t (by rw [hr])
  rw [decrypt_eq A E k nonce ad _ out' (by simp [ht]) (by simp [ht, hc, hout']),
    List.length_append, ht, Nat.add_sub_cancel, List.take_left' rfl, List.drop_left' rfl,
    hA _ _ _ _ _ _ hr]

/-- `decrypt_in_place` opens, in a buffer, what `encrypt` wrote, and leaves the plaintext
over the buffer's first bytes. -/
theorem decrypt_in_place_encrypt {k : Bytes} {nonce : UInt64} {ad p out c b : Bytes}
    (h : encrypt A E k nonce ad p out = .ok c) (hcb : c.length ≤ b.length)
    (hb : b.take c.length = c) :
    decrypt_in_place A E k nonce ad b c.length = .ok (.ok p.length, p ++ b.drop p.length) := by
  obtain ⟨t, c', hr, rfl⟩ := encrypt_ok_inv A E h
  have hc : c'.length = p.length := by simpa [hr] using A.encrypt_length k (iv E nonce) ad p
  have ht : t.length = 16 := A.tag_length k (iv E nonce) ad p t (by rw [hr])
  obtain ⟨rest, rfl⟩ : ∃ rest, b = c' ++ t ++ rest :=
    ⟨b.drop (c' ++ t).length,
      by conv_lhs => rw [← List.take_append_drop (c' ++ t).length b, hb]⟩
  have hl : (c' ++ t).length - 16 = c'.length := by simp [ht]
  rw [decrypt_in_place_eq A E k nonce ad _ _ (by simp [ht]) hcb, hl, List.append_assoc,
    List.take_left' rfl, List.drop_left' rfl, List.take_left' ht, hA _ _ _ _ _ _ hr]
  simp [hc, Except.map]

theorem decrypt_encrypt_in_place {k : Bytes} {nonce : UInt64} {ad p b b' : Bytes} {l : Nat}
    (hb : p.length + 16 ≤ b.length) (hp : b.take p.length = p)
    (h : encrypt_in_place A E k nonce ad b p.length = .ok (l, b')) (out' : Bytes)
    (hout' : out'.length = p.length) :
    decrypt A E k nonce ad (b'.take l) out' = .ok (.ok (), p) := by
  obtain ⟨c, he, rfl, rfl⟩ := encrypt_in_place_ok_inv A E hb hp h
  rw [List.take_left' rfl]
  exact decrypt_encrypt E hA he out' hout'

theorem decrypt_in_place_encrypt_in_place {k : Bytes} {nonce : UInt64} {ad p b b' : Bytes}
    {l : Nat} (hb : p.length + 16 ≤ b.length) (hp : b.take p.length = p)
    (h : encrypt_in_place A E k nonce ad b p.length = .ok (l, b')) :
    decrypt_in_place A E k nonce ad b' l = .ok (.ok p.length, p ++ b'.drop p.length) := by
  obtain ⟨c, he, rfl, rfl⟩ := encrypt_in_place_ok_inv A E hb hp h
  exact decrypt_in_place_encrypt E hA he (by simp) (List.take_left' rfl)

end RoundTrip

/-- **The four entry points agree**, for any AEAD that opens what it sealed and any nonce
encoding. -/
theorem entry_points_agree {A : AeadInPlace} (hA : A.Correct) (k : Bytes) (nonce : UInt64)
    (ad : Bytes) :
    EntryPointsAgree (encrypt A E k nonce ad) (encrypt_in_place A E k nonce ad)
      (decrypt A E k nonce ad) (decrypt_in_place A E k nonce ad) where
  encrypt_in_place_eq := encrypt_in_place_agrees A E k nonce ad
  decrypt_in_place_eq := decrypt_in_place_agrees A E k nonce ad
  decrypt_encrypt _ _ _ out' h := decrypt_encrypt E hA h out'
  decrypt_in_place_encrypt _ _ _ _ := decrypt_in_place_encrypt E hA
  decrypt_encrypt_in_place _ _ _ _ out' hb hp h := decrypt_encrypt_in_place E hA hb hp h out'
  decrypt_in_place_encrypt_in_place _ _ _ _ := decrypt_in_place_encrypt_in_place E hA

/-- `encrypt` and `decrypt` call the AEAD under the IV `full_nonce` builds. -/
theorem calls_aead (A : AeadInPlace) (k : Bytes) (nonce : UInt64) (ad : Bytes) :
    CallsAead A k ad (iv E nonce) (encrypt A E k nonce ad) (decrypt A E k nonce ad) :=
  ⟨encrypt_eq A E k nonce ad, decrypt_eq A E k nonce ad⟩

theorem iv_le (nonce : UInt64) : iv .le nonce = chachapoly_iv nonce :=
  congrArg (zeros 4 ++ ·) (to_le_bytes_eq nonce)

theorem iv_be (nonce : UInt64) : iv .be nonce = aesgcm_iv nonce :=
  congrArg (zeros 4 ++ ·) (to_be_bytes_eq nonce)

end AeadCipher

/-! ## The crate's two ciphers -/

namespace ChaCha20Poly1305

variable (A : AeadInPlace)

/-- `ChaCha20Poly1305::encrypt`. -/
def encrypt (k : Bytes) (nonce : UInt64) (ad plaintext out : Bytes) : Except Panic Bytes :=
  AeadCipher.encrypt A .le k nonce ad plaintext out

/-- `ChaCha20Poly1305::encrypt_in_place`. -/
def encrypt_in_place (k : Bytes) (nonce : UInt64) (ad in_out : Bytes) (plaintext_len : Nat) :
    Except Panic (Nat × Bytes) :=
  AeadCipher.encrypt_in_place A .le k nonce ad in_out plaintext_len

/-- `ChaCha20Poly1305::decrypt`. -/
def decrypt (k : Bytes) (nonce : UInt64) (ad ciphertext out : Bytes) :
    Except Panic (Except Unit Unit × Bytes) :=
  AeadCipher.decrypt A .le k nonce ad ciphertext out

/-- `ChaCha20Poly1305::decrypt_in_place`. -/
def decrypt_in_place (k : Bytes) (nonce : UInt64) (ad in_out : Bytes) (ciphertext_len : Nat) :
    Except Panic (Except Unit Nat × Bytes) :=
  AeadCipher.decrypt_in_place A .le k nonce ad in_out ciphertext_len

end ChaCha20Poly1305

namespace Aes256Gcm

variable (A : AeadInPlace)

/-- `Aes256Gcm::encrypt`. -/
def encrypt (k : Bytes) (nonce : UInt64) (ad plaintext out : Bytes) : Except Panic Bytes :=
  AeadCipher.encrypt A .be k nonce ad plaintext out

/-- `Aes256Gcm::encrypt_in_place`. -/
def encrypt_in_place (k : Bytes) (nonce : UInt64) (ad in_out : Bytes) (plaintext_len : Nat) :
    Except Panic (Nat × Bytes) :=
  AeadCipher.encrypt_in_place A .be k nonce ad in_out plaintext_len

/-- `Aes256Gcm::decrypt`. -/
def decrypt (k : Bytes) (nonce : UInt64) (ad ciphertext out : Bytes) :
    Except Panic (Except Unit Unit × Bytes) :=
  AeadCipher.decrypt A .be k nonce ad ciphertext out

/-- `Aes256Gcm::decrypt_in_place`. -/
def decrypt_in_place (k : Bytes) (nonce : UInt64) (ad in_out : Bytes) (ciphertext_len : Nat) :
    Except Panic (Except Unit Nat × Bytes) :=
  AeadCipher.decrypt_in_place A .be k nonce ad in_out ciphertext_len

end Aes256Gcm

/-- **Both ciphers' entry points agree.** For `ChaCha20Poly1305` over an AEAD `A` and
`Aes256Gcm` over an AEAD `B`, each opening what it sealed, at every key, nonce and
authtext: the in-place entry points compute what `encrypt` and `decrypt` do, on the
buffer's prefix, and leave the rest; either decrypt entry point recovers the plaintext
from either encrypt entry point's output; and `encrypt` and `decrypt`, hence all four,
call the AEAD under the specification's IV: four zero bytes and the nonce, little-endian
for ChaCha20-Poly1305 and big-endian for AES-GCM. -/
theorem crate_ciphers_agree (A B : AeadInPlace) (hA : A.Correct) (hB : B.Correct) (k : Bytes)
    (nonce : UInt64) (ad : Bytes) :
    EntryPointsAgree (ChaCha20Poly1305.encrypt A k nonce ad)
      (ChaCha20Poly1305.encrypt_in_place A k nonce ad) (ChaCha20Poly1305.decrypt A k nonce ad)
      (ChaCha20Poly1305.decrypt_in_place A k nonce ad) ∧
    CallsAead A k ad (chachapoly_iv nonce) (ChaCha20Poly1305.encrypt A k nonce ad)
      (ChaCha20Poly1305.decrypt A k nonce ad) ∧
    EntryPointsAgree (Aes256Gcm.encrypt B k nonce ad) (Aes256Gcm.encrypt_in_place B k nonce ad)
      (Aes256Gcm.decrypt B k nonce ad) (Aes256Gcm.decrypt_in_place B k nonce ad) ∧
    CallsAead B k ad (aesgcm_iv nonce) (Aes256Gcm.encrypt B k nonce ad)
      (Aes256Gcm.decrypt B k nonce ad) :=
  ⟨AeadCipher.entry_points_agree .le hA k nonce ad,
    AeadCipher.iv_le nonce ▸ AeadCipher.calls_aead .le A k nonce ad,
    AeadCipher.entry_points_agree .be hB k nonce ad,
    AeadCipher.iv_be nonce ▸ AeadCipher.calls_aead .be B k nonce ad⟩

/-- The buffer as it was, and a tag of sixteen zero bytes, which decryption checks. -/
def toy_aead : AeadInPlace where
  encrypt_in_place_detached _ _ _ b := (.ok (zeros 16), b)
  decrypt_in_place_detached _ _ _ b t := (if t = zeros 16 then .ok () else .error (), b)
  encrypt_length _ _ _ _ := rfl
  tag_length _ _ _ _ t h := by cases h; rfl
  decrypt_length _ _ _ _ _ := rfl

theorem toy_aead_correct : toy_aead.Correct := by
  intro k n ad p t c h
  simp only [toy_aead, Prod.mk.injEq, Except.ok.injEq] at h
  obtain ⟨rfl, rfl⟩ := h
  simp [toy_aead]

theorem crate_ciphers_agree_toy :
    EntryPointsAgree (ChaCha20Poly1305.encrypt toy_aead [] 1 [])
      (ChaCha20Poly1305.encrypt_in_place toy_aead [] 1 []) (ChaCha20Poly1305.decrypt toy_aead [] 1 [])
      (ChaCha20Poly1305.decrypt_in_place toy_aead [] 1 []) ∧
    CallsAead toy_aead [] [] (chachapoly_iv 1) (ChaCha20Poly1305.encrypt toy_aead [] 1 [])
      (ChaCha20Poly1305.decrypt toy_aead [] 1 []) ∧
    EntryPointsAgree (Aes256Gcm.encrypt toy_aead [] 1 []) (Aes256Gcm.encrypt_in_place toy_aead [] 1 [])
      (Aes256Gcm.decrypt toy_aead [] 1 []) (Aes256Gcm.decrypt_in_place toy_aead [] 1 []) ∧
    CallsAead toy_aead [] [] (aesgcm_iv 1) (Aes256Gcm.encrypt toy_aead [] 1 [])
      (Aes256Gcm.decrypt toy_aead [] 1 []) :=
  crate_ciphers_agree toy_aead toy_aead toy_aead_correct toy_aead_correct [] 1 []

end NoiseRustCrypto

end NoiseRust
