/-
`wrappers/crypto_wrapper.rs`: the two AEAD wrappers of the legacy tree,
`ChaCha20Poly1305` and `Aes256Gcm`, `encrypt` and `decrypt` line by line over
rust-crypto's primitives.

The primitives stay abstract. ChaCha20 is its keystream, byte `i` for a key and an
8-byte nonce; Poly1305 is its tag of a message under a one-time key; AES-GCM is a sealing
function and an opening function. rust-crypto's stateful objects are modelled over them:
a `ChaCha20` remembers how much keystream it has used, a `Poly1305` the message it has
been fed, and their methods keep the `assert!`s on buffer lengths. Every `&mut [u8]`
argument is passed in and returned as it is after the call, so that what a function
leaves in `out` (also when it returns `false`) is part of its result.

Over the faithful model stands the construction of RFC 8439 §2.8 with the 64-bit nonce
(`aead_seal`, `aead_tag`), and `chacha20poly1305_rfc8439` says that the wrapper computes
it. The last sections make each wrapper a `Cipher` for the handshake, called as the
cipher state calls it, on an output buffer of the size the trait prescribes, and model
`new` and `set`, which copy a key into the wrapper's `[u8; 32]`.
-/
import NoiseRust.Crypto

set_option autoImplicit false

namespace NoiseRust

/-! ## rust-crypto's primitives -/

/-- The two functions rust-crypto's `ChaCha20` and `Poly1305` compute: byte `i` of the
ChaCha20 keystream for a key and a nonce, and the 16-byte Poly1305 tag of a message under
a one-time key. -/
structure ChaChaPoly where
  keystream : Bytes → Bytes → Nat → UInt8
  poly1305 : Bytes → Bytes → Bytes
  poly1305_length : ∀ k m, (poly1305 k m).length = 16

/-- `n` keystream bytes from byte `off` on. -/
def ChaChaPoly.stream (P : ChaChaPoly) (key nonce : Bytes) (off n : Nat) : Bytes :=
  (List.range n).map fun i => P.keystream key nonce (off + i)

@[simp] theorem ChaChaPoly.stream_length (P : ChaChaPoly) (key nonce : Bytes) (off n : Nat) :
    (P.stream key nonce off n).length = n := by
  simp [ChaChaPoly.stream]

theorem ChaChaPoly.take_stream (P : ChaChaPoly) (key nonce : Bytes) {off m n : Nat}
    (h : m ≤ n) : (P.stream key nonce off n).take m = P.stream key nonce off m := by
  simp [ChaChaPoly.stream, ← List.map_take, List.take_range, Nat.min_eq_left h]

/-- `a` XOR `b`, byte by byte, as long as the shorter. -/
def xor_bytes (a b : Bytes) : Bytes := List.zipWith (· ^^^ ·) a b

theorem xor_bytes_length {a b : Bytes} (h : a.length ≤ b.length) :
    (xor_bytes a b).length = a.length := by
  simp [xor_bytes, Nat.min_eq_left h]

theorem u8_xor_xor_cancel (x y : UInt8) : x ^^^ y ^^^ y = x := by
  cases x; cases y
  show UInt8.mk (_ ^^^ _ ^^^ _) = _
  rw [BitVec.xor_assoc, BitVec.xor_self, BitVec.xor_zero]

theorem u8_zero_xor (y : UInt8) : 0 ^^^ y = y := by
  cases y
  show UInt8.mk (_ ^^^ _) = _
  congr 1
  exact BitVec.zero_xor

/-- XOR with the same keystream twice is the identity. -/
theorem xor_bytes_cancel {a s : Bytes} (h : a.length ≤ s.length) :
    xor_bytes (xor_bytes a s) s = a := by
  induction a generalizing s with
  | nil => rfl
  | cons x a ih =>
    cases s with
    | nil => simp at h
    | cons y s =>
      simp only [xor_bytes, List.zipWith_cons_cons] at ih ⊢
      rw [u8_xor_xor_cancel, ih (by simp at h; omega)]

theorem xor_bytes_zeros (s : Bytes) : xor_bytes (zeros s.length) s = s := by
  induction s with
  | nil => rfl
  | cons y s ih =>
    simp only [xor_bytes, zeros, List.length_cons, List.replicate_succ,
      List.zipWith_cons_cons] at ih ⊢
    rw [u8_zero_xor, ih]

/-- rust-crypto's `ChaCha20`: the key, the nonce, and how many keystream bytes it has
used. -/
structure ChaCha20 where
  key : Bytes
  nonce : Bytes
  offset : Nat

/-- `ChaCha20::new(key, nonce)`. -/
def ChaCha20.new (key nonce : Bytes) : ChaCha20 := ⟨key, nonce, 0⟩

/-- `process(input, output)`: `output`, as long as `input`, gets `input` XOR the next
keystream bytes. -/
def ChaCha20.process (P : ChaChaPoly) (c : ChaCha20) (input output : Bytes) :
    Except Panic (Bytes × ChaCha20) := do
  assert (input.length == output.length)
  pure (xor_bytes input (P.stream c.key c.nonce c.offset input.length),
    { c with offset := c.offset + input.length })

theorem ChaCha20.process_of_length (P : ChaChaPoly) (c : ChaCha20) {input output : Bytes}
    (h : input.length = output.length) :
    c.process P input output = .ok (xor_bytes input (P.stream c.key c.nonce c.offset
      input.length), { c with offset := c.offset + input.length }) := by
  simp [ChaCha20.process, h]

/-- rust-crypto's `Poly1305`: the one-time key and the message fed so far. -/
structure Poly1305 where
  key : Bytes
  data : Bytes

/-- `Poly1305::new(key)`. -/
def Poly1305.new (key : Bytes) : Poly1305 := ⟨key, []⟩

/-- `input(data)`. -/
def Poly1305.input (p : Poly1305) (data : Bytes) : Poly1305 := { p with data := p.data ++ data }

@[simp] theorem Poly1305.new_key (key : Bytes) : (Poly1305.new key).key = key := rfl

@[simp] theorem Poly1305.new_data (key : Bytes) : (Poly1305.new key).data = [] := rfl

@[simp] theorem Poly1305.input_key (p : Poly1305) (data : Bytes) : (p.input data).key = p.key := rfl

@[simp] theorem Poly1305.input_data (p : Poly1305) (data : Bytes) :
    (p.input data).data = p.data ++ data := rfl

/-- `raw_result(output)`: the tag over `output[..16]`. -/
def Poly1305.raw_result (P : ChaChaPoly) (p : Poly1305) (output : Bytes) : Except Panic Bytes := do
  assert (16 ≤ output.length)
  pure (P.poly1305 p.key p.data ++ output.drop 16)

theorem Poly1305.raw_result_of_le (P : ChaChaPoly) (p : Poly1305) {output : Bytes}
    (h : 16 ≤ output.length) :
    p.raw_result P output = .ok (P.poly1305 p.key p.data ++ output.drop 16) := by
  simp [Poly1305.raw_result, h]

/-- `LittleEndian::write_u64(buf, n)` and `BigEndian::write_u64(buf, n)`: the eight bytes
of `n`, in the order given, over `buf[..8]`. -/
def write_u64 (buf bytes : Bytes) : Except Panic Bytes := do
  assert (8 ≤ buf.length)
  pure (bytes ++ buf.drop 8)

theorem write_u64_of_le {buf : Bytes} (bytes : Bytes) (h : 8 ≤ buf.length) :
    write_u64 buf bytes = .ok (bytes ++ buf.drop 8) := by
  simp [write_u64, h]

theorem slice_to_zeros {k n : Nat} (h : n ≤ k) : slice_to (zeros k) n = .ok (zeros n) := by
  rw [slice_to_of_le (by simpa using h)]
  simp [zeros, List.take_replicate, Nat.min_eq_left h]

theorem slice_from_zeros {k n : Nat} (h : n ≤ k) : slice_from (zeros k) n = .ok (zeros (k - n)) := by
  rw [slice_from_of_le (by simpa using h)]
  simp [zeros, List.drop_replicate]

theorem write_u64_zeros {k : Nat} (bytes : Bytes) (hk : 8 ≤ k) :
    write_u64 (zeros k) bytes = .ok (bytes ++ zeros (k - 8)) := by
  rw [write_u64_of_le _ (by simpa using hk)]
  simp [zeros, List.drop_replicate]

theorem write_u64_append {a : Bytes} (z bytes : Bytes) (ha : a.length = 8) :
    write_u64 (a ++ z) bytes = .ok (bytes ++ z) := by
  rw [write_u64_of_le _ (by simp; omega)]
  simp [List.drop_append_of_le_length, ha]

/-- rust-crypto's `util::fixed_time_eq`: equal lengths and equal bytes. -/
def fixed_time_eq (a b : Bytes) : Bool := a == b

/-! ## `ChaCha20Poly1305` -/

namespace ChaCha20Poly1305

variable (P : ChaChaPoly)

/-- `ChaCha20Poly1305::encrypt`: `out[..plaintext.len()]` gets the ciphertext and
`out[plaintext.len()..]` the tag. -/
def encrypt (key : Bytes) (nonce : UInt64) (authtext plaintext out : Bytes) :
    Except Panic Bytes := do
  let nonce_bytes ← write_u64 (zeros 8) (to_le_bytes nonce)
  let cipher := ChaCha20.new key nonce_bytes
  let (poly_key, cipher) ← cipher.process P (zeros 64) (zeros 64)
  let (c, _) ← cipher.process P plaintext (← slice_to out plaintext.length)
  let out := c ++ out.drop plaintext.length
  let mut poly := Poly1305.new (← slice_to poly_key 32)
  poly := poly.input authtext
  let mut padding := zeros 16
  poly := poly.input (← slice_to padding ((16 - authtext.length % 16) % 16))
  poly := poly.input (← slice_to out plaintext.length)
  poly := poly.input (← slice_to padding ((16 - plaintext.length % 16) % 16))
  padding ← write_u64 padding (to_le_bytes (UInt64.ofNat authtext.length))
  poly := poly.input (← slice_to padding 8)
  padding ← write_u64 padding (to_le_bytes (UInt64.ofNat plaintext.length))
  poly := poly.input (← slice_to padding 8)
  let tag_out ← poly.raw_result P (← slice_from out plaintext.length)
  pure (out.take plaintext.length ++ tag_out)

/-- `ChaCha20Poly1305::decrypt`: the tag is checked first; on a mismatch `out` is left as
it was, otherwise `out[..text_len]` gets the plaintext. -/
def decrypt (key : Bytes) (nonce : UInt64) (authtext ciphertext out : Bytes) :
    Except Panic (Bool × Bytes) := do
  let nonce_bytes ← write_u64 (zeros 8) (to_le_bytes nonce)
  let cipher := ChaCha20.new key nonce_bytes
  let (poly_key, cipher) ← cipher.process P (zeros 64) (zeros 64)
  let mut poly := Poly1305.new (← slice_to poly_key 32)
  let mut padding := zeros 15
  let text_len ← usize_sub ciphertext.length 16
  poly := poly.input authtext
  poly := poly.input (← slice_to padding ((16 - authtext.length % 16) % 16))
  poly := poly.input (← slice_to ciphertext text_len)
  poly := poly.input (← slice_to padding ((16 - text_len % 16) % 16))
  padding ← write_u64 padding (to_le_bytes (UInt64.ofNat authtext.length))
  poly := poly.input (← slice_to padding 8)
  padding ← write_u64 padding (to_le_bytes (UInt64.ofNat text_len))
  poly := poly.input (← slice_to padding 8)
  let tag ← poly.raw_result P (zeros 16)
  if !fixed_time_eq tag (← slice_from ciphertext text_len) then
    return (false, out)
  let (body, _) ← cipher.process P (← slice_to ciphertext text_len) (← slice_to out text_len)
  pure (true, body ++ out.drop text_len)

/-! ### RFC 8439 §2.8, with the 64-bit nonce -/

/-- Zero bytes up to the next multiple of 16. -/
def pad16 (x : Bytes) : Bytes := zeros ((16 - x.length % 16) % 16)

/-- The message Poly1305 authenticates: the authtext and the ciphertext, each padded, then
their lengths. -/
def mac_data (ad c : Bytes) : Bytes :=
  ad ++ pad16 ad ++ c ++ pad16 c ++ to_le_bytes (UInt64.ofNat ad.length) ++
    to_le_bytes (UInt64.ofNat c.length)

/-- The tag of a ciphertext body: Poly1305 under the first 32 keystream bytes. -/
def aead_tag (key : Bytes) (nonce : UInt64) (ad c : Bytes) : Bytes :=
  P.poly1305 (P.stream key (to_le_bytes nonce) 0 32) (mac_data ad c)

/-- The body of a ciphertext: the text XOR the keystream from byte 64 on. -/
def aead_body (key : Bytes) (nonce : UInt64) (x : Bytes) : Bytes :=
  xor_bytes x (P.stream key (to_le_bytes nonce) 64 x.length)

/-- The AEAD output: the body, then its tag. -/
def aead_seal (key : Bytes) (nonce : UInt64) (ad p : Bytes) : Bytes :=
  aead_body P key nonce p ++ aead_tag P key nonce ad (aead_body P key nonce p)

@[simp] theorem aead_body_length (key : Bytes) (nonce : UInt64) (x : Bytes) :
    (aead_body P key nonce x).length = x.length :=
  xor_bytes_length (by simp)

theorem aead_body_aead_body (key : Bytes) (nonce : UInt64) (x : Bytes) :
    aead_body P key nonce (aead_body P key nonce x) = x := by
  rw [aead_body, aead_body_length]
  exact xor_bytes_cancel (by simp)

@[simp] theorem aead_tag_length (key : Bytes) (nonce : UInt64) (ad c : Bytes) :
    (aead_tag P key nonce ad c).length = 16 :=
  P.poly1305_length _ _

@[simp] theorem aead_seal_length (key : Bytes) (nonce : UInt64) (ad p : Bytes) :
    (aead_seal P key nonce ad p).length = p.length + 16 := by
  simp [aead_seal]

/-! ### The wrapper computes the construction -/

theorem nonce_bytes_eq (nonce : UInt64) :
    write_u64 (zeros 8) (to_le_bytes nonce) = .ok (to_le_bytes nonce) := by
  rw [write_u64_of_le _ (by simp)]
  simp

/-- The first 64 keystream bytes, whose first 32 are the Poly1305 key. -/
theorem poly_key_eq (key nonce : Bytes) :
    (ChaCha20.new key nonce).process P (zeros 64) (zeros 64) =
      .ok (P.stream key nonce 0 64, ⟨key, nonce, 64⟩) := by
  have h := xor_bytes_zeros (P.stream key nonce 0 64)
  rw [ChaChaPoly.stream_length] at h
  rw [ChaCha20.process_of_length P _ rfl]
  simp only [ChaCha20.new, zeros_length, h]

theorem slice_to_stream (key nonce : Bytes) (off : Nat) :
    slice_to (P.stream key nonce off 64) 32 = .ok (P.stream key nonce off 32) := by
  rw [slice_to_of_le (by simp), P.take_stream key nonce (by omega)]

theorem pad_le (n : Nat) : (16 - n % 16) % 16 ≤ 15 := by omega

/-- The message the wrapper feeds Poly1305, once its pieces are computed, is `mac_data`. -/
theorem poly1305_eq_aead_tag (key : Bytes) (nonce : UInt64) (ad x : Bytes) :
    P.poly1305 (P.stream key (to_le_bytes nonce) 0 32) (ad ++ zeros ((16 - ad.length % 16) % 16) ++
      x ++ zeros ((16 - x.length % 16) % 16) ++ to_le_bytes (UInt64.ofNat ad.length) ++
      to_le_bytes (UInt64.ofNat x.length)) = aead_tag P key nonce ad x := rfl

/-- `encrypt` into a buffer with room for the tag: the sealed text, and the rest of the
buffer as it was. -/
theorem encrypt_eq (key : Bytes) (nonce : UInt64) (ad p out : Bytes)
    (h : p.length + 16 ≤ out.length) :
    encrypt P key nonce ad p out = .ok (aead_seal P key nonce ad p ++ out.drop (p.length + 16)) := by
  have hc : (xor_bytes p (P.stream key (to_le_bytes nonce) 64 p.length)).length = p.length :=
    aead_body_length P key nonce p
  have h2 : p.length = (out.take p.length).length := by simp; omega
  simp only [encrypt, nonce_bytes_eq, ok_bind, poly_key_eq, slice_to_of_le (by omega : p.length ≤ out.length),
    ChaCha20.process_of_length P _ h2, slice_to_stream, slice_to_zeros (Nat.le_succ_of_le (pad_le _)),
    slice_to_append _ hc, slice_from_append _ hc, write_u64_zeros _ (by omega : 8 ≤ 16),
    slice_to_append _ (to_le_bytes_length _), write_u64_append _ _ (to_le_bytes_length _),
    Poly1305.raw_result_of_le P _ (by simp; omega : 16 ≤ (out.drop p.length).length)]
  simp [aead_seal, aead_tag, aead_body, mac_data, pad16, hc]

/-- `decrypt` of a body and a 16-byte tag: `false` with `out` untouched when the tag is not
the body's; otherwise the plaintext over `out[..body.len()]`, which must exist. -/
theorem decrypt_eq (key : Bytes) (nonce : UInt64) (ad body t out : Bytes) (ht : t.length = 16) :
    decrypt P key nonce ad (body ++ t) out =
      if t = aead_tag P key nonce ad body then
        (if body.length ≤ out.length then
          .ok (true, aead_body P key nonce body ++ out.drop body.length)
        else .error .index_out_of_bounds)
      else .ok (false, out) := by
  have hn : (body ++ t).length - 16 = body.length := by simp [ht]
  have hz : (zeros 16).drop 16 = [] := rfl
  simp only [decrypt, nonce_bytes_eq, ok_bind, poly_key_eq, slice_to_stream,
    usize_sub_of_le (by simp [ht] : 16 ≤ (body ++ t).length), hn,
    slice_to_zeros (pad_le _), slice_to_append _ rfl, slice_from_append _ rfl,
    write_u64_zeros _ (by omega : 8 ≤ 15),
    slice_to_append _ (to_le_bytes_length _), write_u64_append _ _ (to_le_bytes_length _),
    Poly1305.raw_result_of_le P _ (by simp : 16 ≤ (zeros 16).length), Poly1305.new_key,
    Poly1305.input_key, Poly1305.new_data, Poly1305.input_data, List.nil_append,
    poly1305_eq_aead_tag, hz, List.append_nil]
  by_cases heq : t = aead_tag P key nonce ad body
  · subst heq
    by_cases ho : body.length ≤ out.length
    · simp [fixed_time_eq, ho, slice_to_of_le ho,
        ChaCha20.process_of_length P _ (List.length_take_of_le ho).symm, aead_body]
    · simp [fixed_time_eq, ho, slice_to_of_lt (not_le.1 ho)]
  · simp [fixed_time_eq, heq, Ne.symm heq]

/-- **`ChaCha20Poly1305` is the AEAD of RFC 8439.** `encrypt` writes the plaintext XOR the
keystream from byte 64, then the Poly1305 tag under the first 32 keystream bytes of the
padded authtext, the padded ciphertext and both lengths; `decrypt` of a body and a
16-byte tag returns `true` exactly when the tag is the body's recomputed one, writing
the body XOR the same keystream over `out`, and otherwise returns `false` and leaves
`out` as it was; so `decrypt` opens what `encrypt` sealed. -/
theorem chacha20poly1305_rfc8439 (key : Bytes) (nonce : UInt64) (ad : Bytes) :
    (∀ p out, p.length + 16 ≤ out.length →
      encrypt P key nonce ad p out = .ok (aead_seal P key nonce ad p ++ out.drop (p.length + 16))) ∧
    (∀ body t out, t.length = 16 →
      decrypt P key nonce ad (body ++ t) out =
        if t = aead_tag P key nonce ad body then
          (if body.length ≤ out.length then
            .ok (true, aead_body P key nonce body ++ out.drop body.length)
          else .error .index_out_of_bounds)
        else .ok (false, out)) ∧
    (∀ p out, p.length ≤ out.length →
      decrypt P key nonce ad (aead_seal P key nonce ad p) out = .ok (true, p ++ out.drop p.length)) := by
  refine ⟨encrypt_eq P key nonce ad, decrypt_eq P key nonce ad, fun p out h => ?_⟩
  rw [aead_seal, decrypt_eq P key nonce ad _ _ out (aead_tag_length P _ _ _ _), if_pos rfl,
    aead_body_length, if_pos h, aead_body_aead_body]

/-- A cipher the wrappers' ciphertexts too short for a tag make panic: `decrypt` computes
`ciphertext.len() - 16` first. -/
theorem decrypt_of_lt (key : Bytes) (nonce : UInt64) (ad c out : Bytes) (h : c.length < 16) :
    decrypt P key nonce ad c out = .error .sub_overflow := by
  simp [decrypt, nonce_bytes_eq, poly_key_eq, slice_to_stream, usize_sub_of_lt h]

end ChaCha20Poly1305

/-! ## `Aes256Gcm` -/

/-- rust-crypto's `AesGcm` for a key, a 12-byte IV and an authtext: `enc` gives the
ciphertext, as long as the plaintext, and a 16-byte tag; `dec` gives a plaintext as long
as the ciphertext when the tag checks. -/
structure AesGcm where
  enc : Bytes → Bytes → Bytes → Bytes → Bytes × Bytes
  dec : Bytes → Bytes → Bytes → Bytes → Bytes → Option Bytes
  enc_length : ∀ k iv ad p, (enc k iv ad p).1.length = p.length ∧ (enc k iv ad p).2.length = 16
  dec_length : ∀ k iv ad c t q, dec k iv ad c t = some q → q.length = c.length

/-- AES-GCM opens what it sealed. -/
def AesGcm.Correct (A : AesGcm) : Prop :=
  ∀ k iv ad p, A.dec k iv ad (A.enc k iv ad p).1 (A.enc k iv ad p).2 = some p

namespace AesGcm

variable (A : AesGcm)

/-- `encrypt(input, output, tag)`: `output` as long as `input`, the tag over `tag[..16]`. -/
def encrypt (key iv aad input output tag : Bytes) : Except Panic (Bytes × Bytes) := do
  assert (input.length == output.length)
  assert (16 ≤ tag.length)
  pure ((A.enc key iv aad input).1, (A.enc key iv aad input).2 ++ tag.drop 16)

/-- `decrypt(input, output, tag)`: the plaintext over `output` when the tag checks. -/
def decrypt (key iv aad input output tag : Bytes) : Except Panic (Bool × Bytes) := do
  assert (input.length == output.length)
  match A.dec key iv aad input tag with
  | some q => pure (true, q)
  | none => pure (false, output)

end AesGcm

namespace Aes256Gcm

variable (A : AesGcm)

/-- `Aes256Gcm::encrypt`: `out` is split after the plaintext into ciphertext and tag. -/
def encrypt (key : Bytes) (nonce : UInt64) (authtext plaintext out : Bytes) :
    Except Panic Bytes := do
  let nonce_bytes := zeros 12
  let nonce_bytes := nonce_bytes.take 4 ++
    (← write_u64 (← slice_from nonce_bytes 4) (to_be_bytes nonce))
  let (c, t) ← split_at out plaintext.length
  let (c, t) ← A.encrypt key nonce_bytes authtext plaintext c t
  pure (c ++ t)

/-- `Aes256Gcm::decrypt`: `out[..text_len]` is passed to the primitive, which writes it only
when the tag checks. -/
def decrypt (key : Bytes) (nonce : UInt64) (authtext ciphertext out : Bytes) :
    Except Panic (Bool × Bytes) := do
  let nonce_bytes := zeros 12
  let nonce_bytes := nonce_bytes.take 4 ++
    (← write_u64 (← slice_from nonce_bytes 4) (to_be_bytes nonce))
  let text_len ← usize_sub ciphertext.length 16
  let (ok, o) ← A.decrypt key nonce_bytes authtext (← slice_to ciphertext text_len)
    (← slice_to out text_len) (← slice_from ciphertext text_len)
  pure (ok, o ++ out.drop text_len)

/-- The 12-byte IV: four zero bytes, then the nonce big-endian. -/
def iv (nonce : UInt64) : Bytes := zeros 4 ++ to_be_bytes nonce

theorem nonce_bytes_eq (nonce : UInt64) :
    (zeros 12).take 4 ++ (to_be_bytes nonce ++ zeros 0) = iv nonce := by
  simp [iv, zeros]

theorem encrypt_eq (key : Bytes) (nonce : UInt64) (ad p out : Bytes)
    (h : p.length + 16 ≤ out.length) :
    encrypt A key nonce ad p out = .ok ((A.enc key (iv nonce) ad p).1 ++
      (A.enc key (iv nonce) ad p).2 ++ out.drop (p.length + 16)) := by
  have hd : 16 ≤ out.length - p.length := by omega
  simp [encrypt, slice_from_zeros, write_u64_zeros, nonce_bytes_eq, AesGcm.encrypt, hd,
    split_at_of_le (by omega : p.length ≤ out.length),
    List.length_take_of_le (by omega : p.length ≤ out.length)]

/-- `decrypt` of a body and a 16-byte tag: `out[..body.len()]` must exist; it gets the
plaintext when the tag checks and is left as it was otherwise. -/
theorem decrypt_eq (key : Bytes) (nonce : UInt64) (ad body t out : Bytes) (ht : t.length = 16) :
    decrypt A key nonce ad (body ++ t) out =
      if body.length ≤ out.length then
        .ok (match A.dec key (iv nonce) ad body t with
          | some q => (true, q ++ out.drop body.length)
          | none => (false, out))
      else .error .index_out_of_bounds := by
  have hn : body.length + t.length - 16 = body.length := by omega
  simp only [decrypt, List.length_append, usize_sub_of_le (by omega : 16 ≤ body.length + t.length),
    hn, slice_to_append _ rfl, slice_from_append _ rfl, ok_bind]
  split_ifs with ho
  · cases hq : A.dec key (iv nonce) ad body t <;>
      simp [slice_from_zeros, write_u64_zeros, nonce_bytes_eq, slice_to_of_le ho, AesGcm.decrypt,
        List.length_take_of_le ho, hq]
  · simp [slice_from_zeros, write_u64_zeros, slice_to_of_lt (not_le.1 ho)]

theorem decrypt_of_lt (key : Bytes) (nonce : UInt64) (ad c out : Bytes) (h : c.length < 16) :
    decrypt A key nonce ad c out = .error .sub_overflow := by
  simp [decrypt, slice_from_zeros, write_u64_zeros, usize_sub_of_lt h]

end Aes256Gcm

/-! ## The wrappers as the handshake's `Cipher`

The cipher state (not among the sources) hands `encrypt` an `out` of
`plaintext.len() + 16` bytes and `decrypt` one of `ciphertext.len() - 16`, and reads the
plaintext back from `out` when `decrypt` returns `true`. With those buffers `encrypt`
cannot panic, so its `Err` arm below is never taken. -/

namespace ChaCha20Poly1305

variable (P : ChaChaPoly)

theorem decrypt_total_of_le (key : Bytes) (nonce : UInt64) (ad c out : Bytes)
    (hc : 16 ≤ c.length) (ho : c.length - 16 ≤ out.length) :
    ∃ r, decrypt P key nonce ad c out = .ok r := by
  have h := decrypt_eq P key nonce ad (c.take (c.length - 16)) _ out
    (by simp; omega : (c.drop (c.length - 16)).length = 16)
  rw [List.take_append_drop] at h
  rw [h]
  split_ifs with h1 h2
  · exact ⟨_, rfl⟩
  · simp at h2; omega
  · exact ⟨_, rfl⟩

/-- Modelled from the spec: `ChaCha20Poly1305` as the cipher state calls it. -/
def cipher : Cipher where
  name := "ChaChaPoly"
  encrypt k n ad p := match encrypt P k n ad p (zeros (p.length + 16)) with
    | .ok out => out
    | .error _ => zeros (p.length + 16)
  decrypt k n ad c := do
    let (ok, out) ← decrypt P k n ad c (zeros (c.length - 16))
    pure (if ok then some out else none)
  encrypt_length k n ad p := by simp [encrypt_eq P k n ad p (zeros (p.length + 16)) (by simp)]
  decrypt_total k n ad c h := by
    obtain ⟨r, hr⟩ := decrypt_total_of_le P k n ad c (zeros (c.length - 16)) h (by simp)
    exact ⟨_, by simp only [hr]; rfl⟩

theorem cipher_encrypt (k : Bytes) (n : UInt64) (ad p : Bytes) :
    (cipher P).encrypt k n ad p = aead_seal P k n ad p := by
  simp [cipher, encrypt_eq P k n ad p (zeros (p.length + 16)) (by simp)]

/-- The round trip of `chacha20poly1305_rfc8439`, through the cipher state's buffers. -/
theorem cipher_correct : (cipher P).Correct := fun k n ad p => by
  have h := (chacha20poly1305_rfc8439 P k n ad).2.2 p (zeros p.length) (by simp)
  rw [cipher_encrypt]
  simp [cipher, h]

theorem cipher_decrypt_of_lt (k : Bytes) (n : UInt64) (ad c : Bytes) (h : c.length < 16) :
    (cipher P).decrypt k n ad c = .error .sub_overflow := by
  simp [cipher, decrypt_of_lt P k n ad c _ h]

end ChaCha20Poly1305

namespace Aes256Gcm

variable (A : AesGcm)

theorem decrypt_total_of_le (key : Bytes) (nonce : UInt64) (ad c out : Bytes)
    (hc : 16 ≤ c.length) (ho : c.length - 16 ≤ out.length) :
    ∃ r, decrypt A key nonce ad c out = .ok r := by
  have h := decrypt_eq A key nonce ad (c.take (c.length - 16)) _ out
    (by simp; omega : (c.drop (c.length - 16)).length = 16)
  rw [List.take_append_drop, if_pos (by simp; omega)] at h
  exact ⟨_, h⟩

/-- Modelled from the spec: `Aes256Gcm` as the cipher state calls it. -/
def cipher : Cipher where
  name := "AESGCM"
  encrypt k n ad p := match encrypt A k n ad p (zeros (p.length + 16)) with
    | .ok out => out
    | .error _ => zeros (p.length + 16)
  decrypt k n ad c := do
    let (ok, out) ← decrypt A k n ad c (zeros (c.length - 16))
    pure (if ok then some out else none)
  encrypt_length k n ad p := by
    simp [encrypt_eq A k n ad p (zeros (p.length + 16)) (by simp), (A.enc_length k (iv n) ad p).1,
      (A.enc_length k (iv n) ad p).2]
  decrypt_total k n ad c h := by
    obtain ⟨r, hr⟩ := decrypt_total_of_le A k n ad c (zeros (c.length - 16)) h (by simp)
    exact ⟨_, by simp only [hr]; rfl⟩

theorem cipher_encrypt (k : Bytes) (n : UInt64) (ad p : Bytes) :
    (cipher A).encrypt k n ad p = (A.enc k (iv n) ad p).1 ++ (A.enc k (iv n) ad p).2 := by
  simp only [cipher, encrypt_eq A k n ad p (zeros (p.length + 16)) (by simp)]
  simp [zeros]

theorem cipher_correct (hA : A.Correct) : (cipher A).Correct := fun k n ad p => by
  obtain ⟨h1, h2⟩ := A.enc_length k (iv n) ad p
  rw [cipher_encrypt]
  simp only [cipher]
  rw [decrypt_eq A k n ad _ _ _ h2, if_pos (by simp [h1]; omega), hA]
  simp [h1, h2]

theorem cipher_decrypt_of_lt (k : Bytes) (n : UInt64) (ad c : Bytes) (h : c.length < 16) :
    (cipher A).decrypt k n ad c = .error .sub_overflow := by
  simp [cipher, decrypt_of_lt A k n ad c _ h]

end Aes256Gcm

/-! ## `Cipher::new` and `Cipher::set`

Both wrappers hold their key as a `[u8; 32]`: `new` copies the key into a fresh array and
`set` over the one held, so each panics on a key of any other length. The two bodies are
the same in both wrappers. -/

/-- `Cipher::new(key)` of the wrappers: `let mut k = [0; 32]; k.copy_from_slice(key);`, the
key the wrapper then holds. -/
def new_key (key : Bytes) : Except Panic Bytes := copy_from_slice (zeros 32) key

/-- `Cipher::set(key)` of the wrappers: `self.key.copy_from_slice(key)` over the key held. -/
def set_key (held key : Bytes) : Except Panic Bytes := copy_from_slice held key

/-- `ChaCha20Poly1305::new`. -/
def ChaCha20Poly1305.new (key : Bytes) : Except Panic Bytes := new_key key

/-- `ChaCha20Poly1305::set`. -/
def ChaCha20Poly1305.set (held key : Bytes) : Except Panic Bytes := set_key held key

/-- `Aes256Gcm::new`. -/
def Aes256Gcm.new (key : Bytes) : Except Panic Bytes := new_key key

/-- `Aes256Gcm::set`. -/
def Aes256Gcm.set (held key : Bytes) : Except Panic Bytes := set_key held key

/-- **The wrappers meet the handshake's cipher contract.** Called as the cipher state
calls them, the `ChaCha20Poly1305` wrapper opens what it sealed for every ChaCha20 and
Poly1305, and the `Aes256Gcm` wrapper does whenever rust-crypto's AES-GCM does: so
`Cipher.Correct`, which the agreement of honest parties assumes, holds of both. -/
theorem wrapper_ciphers_correct (P : ChaChaPoly) (A : AesGcm) (hA : A.Correct) :
    (ChaCha20Poly1305.cipher P).Correct ∧ (Aes256Gcm.cipher A).Correct :=
  ⟨ChaCha20Poly1305.cipher_correct P, Aes256Gcm.cipher_correct A hA⟩

/-- Keystream byte `i` is `i`, and every tag is sixteen zero bytes. -/
def toy_chachapoly : ChaChaPoly := ⟨fun _ _ i => UInt8.ofNat i, fun _ _ => zeros 16, fun _ _ => rfl⟩

theorem chacha20poly1305_rfc8439_toy :
    (∀ p out, p.length + 16 ≤ out.length →
      ChaCha20Poly1305.encrypt toy_chachapoly [] 0 [] p out =
        .ok (ChaCha20Poly1305.aead_seal toy_chachapoly [] 0 [] p ++ out.drop (p.length + 16))) ∧
    (∀ body t out, t.length = 16 →
      ChaCha20Poly1305.decrypt toy_chachapoly [] 0 [] (body ++ t) out =
        if t = ChaCha20Poly1305.aead_tag toy_chachapoly [] 0 [] body then
          (if body.length ≤ out.length then
            .ok (true, ChaCha20Poly1305.aead_body toy_chachapoly [] 0 body ++ out.drop body.length)
          else .error .index_out_of_bounds)
        else .ok (false, out)) ∧
    (∀ p out, p.length ≤ out.length →
      ChaCha20Poly1305.decrypt toy_chachapoly [] 0 [] (ChaCha20Poly1305.aead_seal toy_chachapoly [] 0 [] p) out =
        .ok (true, p ++ out.drop p.length)) :=
  ChaCha20Poly1305.chacha20poly1305_rfc8439 toy_chachapoly [] 0 []

/-- The ciphertext is the plaintext and the tag sixteen zero bytes. -/
def toy_aesgcm : AesGcm where
  enc _ _ _ p := (p, zeros 16)
  dec _ _ _ c t := if t = zeros 16 then some c else none
  enc_length _ _ _ p := ⟨rfl, rfl⟩
  dec_length _ _ _ c t q h := by
    by_cases ht : t = zeros 16 <;> simp_all

theorem toy_aesgcm_correct : toy_aesgcm.Correct := fun _ _ _ _ => by simp [toy_aesgcm]

theorem wrapper_ciphers_correct_toy :
    (ChaCha20Poly1305.cipher toy_chachapoly).Correct ∧ (Aes256Gcm.cipher toy_aesgcm).Correct :=
  wrapper_ciphers_correct toy_chachapoly toy_aesgcm toy_aesgcm_correct

end NoiseRust
