/-
The Diffie-Hellman and hash implementations of both crates: the legacy `X25519` and hash
wrappers of `src/wrappers/crypto_wrapper.rs` over rust-crypto, and `noise-rust-crypto`'s
`X25519` over curve25519-dalek with its Elligator option.

The curve arithmetic and the digests are the underlying libraries', which are not among
the sources, so they stay abstract (`Curve25519`, `Montgomery`, a digest function); what
the wrappers add is modelled as they compute it. For the legacy `X25519` that is the key
handling: `new` copies the key into a `[u8; 32]`, which panics on any other length, and
both `new` and `generate` clamp it (`k[0] &= 248; k[31] &= 127; k[31] |= 64`). The
private field and the two clamping constructors make every `X25519` a clamped scalar, so
here the structure carries that as a field. `x25519_new_clamps` says what `new` keeps
and what it changes, that storing a key is a round trip, and that `generate` is `new` on
the generator's bytes. Called as the trait's `get_pubkey_vec` and `dh_vec` call it, into
a `pub_len()`-byte buffer, the wrapper is the handshake's `DH` (`X25519.contract`): on
the key an `X25519` holds, `curve25519_base` and `curve25519`.

The crate's `X25519` either draws 32 bytes from `OsRng` or draws an Elligator key pair,
whose public half is the representative of the point; `dh` decodes a representative
when told the peer's key is one. `x25519_elligator_agree` checks that wiring: under the
curve's laws, both sides agree in each of the four combinations.

The hash wrappers of both crates are one family: a name, a block length, a digest length
and the digest (`hash_wrapper`). `Sha256` and `Blake2s` have 32-byte digests, `Sha512` and
`Blake2b` 64-byte ones, the two lengths the key schedule of `KeySchedule` allows.
-/
import NoiseRust.Crypto

set_option autoImplicit false

namespace NoiseRust

/-! ## Bytes -/

/-- A byte fact checked at all 256 bytes. -/
theorem u8_forall {P : UInt8 → Prop} (h : ∀ n : Fin 256, P (UInt8.ofNat n)) (b : UInt8) : P b := by
  have hb : UInt8.ofNat b.toNat = b := UInt8.eq_of_toBitVec_eq (by simp [UInt8.ofNat, UInt8.toNat])
  exact hb ▸ h ⟨b.toNat, b.toBitVec.isLt⟩

/-- A `RandomGen` as the wrappers use it: the bytes the generator produces, in order, and
how many it has used. `fill_bytes` overwrites a buffer with the next ones. -/
structure RandomGen where
  stream : Nat → UInt8
  pos : Nat

/-- `rng.fill_bytes(buf)`: the buffer as the generator leaves it, and the generator. -/
def RandomGen.fill_bytes (rng : RandomGen) (buf : Bytes) : Bytes × RandomGen :=
  ((List.range buf.length).map fun j => rng.stream (rng.pos + j), ⟨rng.stream, rng.pos + buf.length⟩)

@[simp] theorem RandomGen.fill_bytes_length (rng : RandomGen) (buf : Bytes) :
    (rng.fill_bytes buf).1.length = buf.length := by
  simp [RandomGen.fill_bytes]

/-! ## The legacy `X25519` wrapper -/

/-- rust-crypto's Curve25519 as the wrapper calls it: `curve25519(n, p)` and
`curve25519_base(n)`, each returning a `[u8; 32]`. -/
structure Curve25519 where
  curve25519 : Bytes → Bytes → Bytes
  curve25519_base : Bytes → Bytes
  curve25519_length : ∀ n p, (curve25519 n p).length = 32
  curve25519_base_length : ∀ n, (curve25519_base n).length = 32

namespace X25519

/-- `k[0] &= 248; k[31] &= 127; k[31] |= 64;`, the clamping of `new` and `generate`. -/
def clamp (k : Bytes) : Bytes :=
  ((k.modify (· &&& 248) 0).modify (· &&& 127) 31).modify (· ||| 64) 31

/-- What clamping does to byte `j`. -/
def clamp_byte (j : Nat) (b : UInt8) : UInt8 :=
  if j = 0 then b &&& 248 else if j = 31 then b &&& 127 ||| 64 else b

/-- A clamped scalar: 32 bytes, the low three bits of the first clear, the top bit of the
last clear and the bit below it set. -/
def is_clamped (k : Bytes) : Bool :=
  k.length == 32 && (k.getD 0 0 &&& 7) == 0 && (k.getD 31 0 &&& 192) == 64

@[simp] theorem clamp_length (k : Bytes) : (clamp k).length = k.length := by
  simp [clamp]

theorem getElem?_clamp (k : Bytes) (j : Nat) : (clamp k)[j]? = clamp_byte j <$> k[j]? := by
  simp only [clamp, List.getElem?_modify, clamp_byte]
  rcases k[j]? with _ | b
  · rfl
  · by_cases h0 : j = 0 <;> by_cases h31 : j = 31 <;> simp_all [eq_comm, clamp_byte]

set_option maxRecDepth 2000 in
theorem clamp_byte_zero (b : UInt8) : b &&& 248 &&& 7 = 0 ∧ b &&& 248 &&& 248 = b &&& 248 ∧
    (b &&& 7 = 0 → b &&& 248 = b) :=
  u8_forall (P := fun b => b &&& 248 &&& 7 = 0 ∧ b &&& 248 &&& 248 = b &&& 248 ∧
    (b &&& 7 = 0 → b &&& 248 = b)) (by decide) b

set_option maxRecDepth 2000 in
theorem clamp_byte_last (b : UInt8) : (b &&& 127 ||| 64) &&& 192 = 64 ∧
    (b &&& 127 ||| 64) &&& 63 = b &&& 63 ∧ (b &&& 192 = 64 → b &&& 127 ||| 64 = b) :=
  u8_forall (P := fun b => (b &&& 127 ||| 64) &&& 192 = 64 ∧
    (b &&& 127 ||| 64) &&& 63 = b &&& 63 ∧ (b &&& 192 = 64 → b &&& 127 ||| 64 = b)) (by decide) b

theorem getD_clamp (k : Bytes) (j : Nat) (hj : j < k.length) :
    (clamp k).getD j 0 = clamp_byte j (k.getD j 0) := by
  simp [getElem?_clamp, List.getElem?_eq_getElem hj]

/-- A 32-byte key clamps to a clamped scalar. -/
theorem clamped_clamp {k : Bytes} (hk : k.length = 32) : is_clamped (clamp k) = true := by
  rw [is_clamped, getD_clamp k 0 (by omega), getD_clamp k 31 (by omega)]
  simp [hk, clamp_byte, (clamp_byte_zero _).1, (clamp_byte_last _).1]

/-- Clamping leaves a clamped scalar as it is. -/
theorem clamp_of_clamped {k : Bytes} (hk : is_clamped k = true) : clamp k = k := by
  simp only [is_clamped, Bool.and_eq_true, beq_iff_eq] at hk
  obtain ⟨⟨hl, h0⟩, h31⟩ := hk
  apply List.ext_getElem?
  intro j
  rw [getElem?_clamp]
  rcases hb : k[j]? with _ | b
  · rfl
  have hbj : k.getD j 0 = b := by simp [hb]
  simp only [Option.map_eq_map, Option.map_some', Option.some.injEq, clamp_byte]
  split_ifs with hj0 hj31
  · subst hj0; exact (clamp_byte_zero b).2.2 (hbj ▸ h0)
  · subst hj31; exact (clamp_byte_last b).2.2 (hbj ▸ h31)
  · rfl

end X25519

/-- `X25519 { privkey: [u8; 32] }`. The field is private to the wrapper, and its only
constructors, `new` and `generate`, clamp the key. -/
@[ext]
structure X25519 where
  privkey : Bytes
  clamped : X25519.is_clamped privkey = true

namespace X25519

/-- `X25519::new`: the key copied into a `[u8; 32]` (the `copy_from_slice` panics unless it
has 32 bytes), then clamped. -/
def new (privkey : Bytes) : Except Panic X25519 :=
  match h : copy_from_slice (zeros 32) privkey with
  | .ok k => .ok ⟨clamp k, clamped_clamp (by rw [← (copy_from_slice_eq_ok.1 h).2,
      ← (copy_from_slice_eq_ok.1 h).1, zeros_length])⟩
  | .error e => .error e

/-- `X25519::generate`: 32 bytes from the generator, clamped. -/
def generate (rng : RandomGen) : X25519 × RandomGen :=
  let filled := rng.fill_bytes (zeros 32)
  (⟨clamp filled.1, clamped_clamp (show (rng.fill_bytes (zeros 32)).1.length = 32 by simp)⟩,
    filled.2)

/-- `get_pubkey`: `curve25519_base` of the private key, copied into `out`. -/
def get_pubkey (Cv : Curve25519) (x : X25519) (out : Bytes) : Except Panic Bytes :=
  let pk := Cv.curve25519_base x.privkey
  copy_from_slice out pk

/-- `dh`: `curve25519` of the private key and the peer's public key, copied into `out`. -/
def dh (Cv : Curve25519) (x : X25519) (pubkey out : Bytes) : Except Panic Bytes :=
  let result := Cv.curve25519 x.privkey pubkey
  copy_from_slice out result

theorem new_eq_ok {k : Bytes} {x : X25519} : new k = .ok x ↔ k.length = 32 ∧ x.privkey = clamp k := by
  unfold new
  split
  · next k' h =>
    obtain ⟨hl, rfl⟩ := copy_from_slice_eq_ok.1 h
    simp only [Except.ok.injEq, X25519.ext_iff]
    constructor
    · intro h; exact ⟨by simpa using hl.symm, h.symm⟩
    · rintro ⟨-, h⟩; exact h.symm
  · next e h =>
    simp only [reduceCtorEq, false_iff, not_and]
    intro hl
    exact absurd (copy_from_slice_eq_error.1 h).1 (by simp [hl])

theorem new_eq_error {k : Bytes} (hk : k.length ≠ 32) : new k = .error .len_mismatch := by
  unfold new
  split
  · next k' h => exact absurd (copy_from_slice_eq_ok.1 h).1 (by simp [Ne.symm hk])
  · next e h => rw [(copy_from_slice_eq_error.1 h).2]

/-- The wrapper as the handshake's `DH`: `name()` is `25519`, `pub_len()` 32, and the
trait's `get_pubkey_vec` and `dh_vec` call `get_pubkey` and `dh` into a fresh buffer of
`pub_len()` bytes, where they write `curve25519_base` and `curve25519` of the private key
the `X25519` holds. -/
def contract (Cv : Curve25519) : DH where
  name := "25519"
  pub_len := 32
  get_pubkey_vec k := Cv.curve25519_base k
  dh_vec k pk := Cv.curve25519 k pk
  get_pubkey_vec_length := Cv.curve25519_base_length

end X25519

/-- **The wrapper's keys are clamped, and storing one is a round trip.** `X25519::new`
panics on a key of any length but 32 (its `copy_from_slice`); on a 32-byte key it stores a
clamped scalar that differs from the key only in the five bits clamping sets: every byte
but the first and the last as given, the top five bits of the first and the low six of
the last as given. `new` of the key an `X25519` holds gives back that `X25519`, and
`generate` stores what `new` stores for the generator's next 32 bytes. -/
theorem x25519_new_clamps :
    (∀ k : Bytes, k.length ≠ 32 → X25519.new k = .error .len_mismatch) ∧
    (∀ k : Bytes, k.length = 32 → ∃ x, X25519.new k = .ok x ∧
      X25519.is_clamped x.privkey = true ∧ (∀ j, j ≠ 0 → j ≠ 31 → x.privkey[j]? = k[j]?) ∧
      x.privkey.getD 0 0 &&& 248 = k.getD 0 0 &&& 248 ∧
      x.privkey.getD 31 0 &&& 63 = k.getD 31 0 &&& 63) ∧
    (∀ x : X25519, X25519.new x.privkey = .ok x) ∧
    (∀ rng : RandomGen, X25519.new (rng.fill_bytes (zeros 32)).1 = .ok (X25519.generate rng).1) := by
  refine ⟨fun k hk => X25519.new_eq_error hk, fun k hk => ?_, fun x => ?_, fun rng => ?_⟩
  · refine ⟨⟨X25519.clamp k, X25519.clamped_clamp hk⟩, X25519.new_eq_ok.2 ⟨hk, rfl⟩,
      X25519.clamped_clamp hk, fun j h0 h31 => ?_, ?_, ?_⟩
    · rw [X25519.getElem?_clamp]
      rcases k[j]? <;> simp [X25519.clamp_byte, h0, h31]
    · rw [X25519.getD_clamp k 0 (by omega)]; exact (X25519.clamp_byte_zero _).2.1
    · rw [X25519.getD_clamp k 31 (by omega)]; exact (X25519.clamp_byte_last _).2.1
  · have hx := x.clamped
    simp only [X25519.is_clamped, Bool.and_eq_true, beq_iff_eq] at hx
    exact X25519.new_eq_ok.2 ⟨hx.1.1, (X25519.clamp_of_clamped x.clamped).symm⟩
  · exact X25519.new_eq_ok.2 ⟨by simp, rfl⟩

/-! ## `noise-rust-crypto`'s `X25519` -/

namespace NoiseRustCrypto

/-- curve25519-dalek's Montgomery-form operations the crate calls, on the 32-byte
encodings a `MontgomeryPoint` wraps: `mul_base_clamped(k)`, `P.mul_clamped(k)`,
`from_elligator_representative(r)`, and `generate_ephemeral_elligator_random(rng)`, which
draws a private key and the Elligator representative of its public point. -/
structure Montgomery where
  mul_base_clamped : Bytes → Bytes
  mul_clamped : Bytes → Bytes → Bytes
  from_elligator_representative : Bytes → Bytes
  generate_ephemeral_elligator_random : RandomGen → (Bytes × Bytes) × RandomGen

/-- What the crate relies on of the curve: clamped multiplication of the base point
commutes, and a generated representative decodes to the public point of the private key
drawn with it. -/
structure Montgomery.Laws (M : Montgomery) : Prop where
  comm : ∀ a b, M.mul_clamped (M.mul_base_clamped a) b = M.mul_clamped (M.mul_base_clamped b) a
  elligator : ∀ rng, M.from_elligator_representative (M.generate_ephemeral_elligator_random rng).1.2 =
    M.mul_base_clamped (M.generate_ephemeral_elligator_random rng).1.1

namespace X25519

variable (M : Montgomery)

/-- `genkey(elligator)`: an Elligator key pair, the public half its representative; or 32
bytes from `OsRng` and their public point. -/
def genkey (rng : RandomGen) (elligator : Bool) : (Bytes × Bytes) × RandomGen :=
  if elligator then M.generate_ephemeral_elligator_random rng
  else
    let filled := rng.fill_bytes (zeros 32)
    ((filled.1, M.mul_base_clamped filled.1), filled.2)

/-- `pubkey(k)`: the public point of a private key. -/
def pubkey (k : Bytes) : Bytes := M.mul_base_clamped k

/-- `dh(k, pk, is_elligator_encoded)`: the peer's point, decoded from its representative
when it is one, times the private key. -/
def dh (k pk : Bytes) (is_elligator_encoded : Bool) : Except Unit Bytes :=
  let pk := if is_elligator_encoded then M.from_elligator_representative pk else pk
  .ok (M.mul_clamped pk k)

/-- The point a published key stands for: the public point of the private key drawn with
it. -/
theorem genkey_point (hM : M.Laws) (rng : RandomGen) (elligator : Bool) :
    (if elligator then M.from_elligator_representative (genkey M rng elligator).1.2
      else (genkey M rng elligator).1.2) = pubkey M (genkey M rng elligator).1.1 := by
  cases elligator
  · rfl
  · exact hM.elligator rng

end X25519

/-- **The crate's X25519 agrees, with or without Elligator.** Under the curve's laws, for
two key pairs `genkey` draws, each with or without Elligator: when each side tells `dh`
whether the peer's public key is a representative, as the peer's `genkey` made it, both
sides compute the same shared secret, and neither gets `Err`; and `pubkey` of a drawn
private key is the point its published key stands for. -/
theorem x25519_elligator_agree (M : Montgomery) (hM : M.Laws) (ra rb : RandomGen)
    (ea eb : Bool) :
    X25519.dh M (X25519.genkey M ra ea).1.1 (X25519.genkey M rb eb).1.2 eb =
      X25519.dh M (X25519.genkey M rb eb).1.1 (X25519.genkey M ra ea).1.2 ea ∧
    (∃ s, X25519.dh M (X25519.genkey M ra ea).1.1 (X25519.genkey M rb eb).1.2 eb = .ok s) ∧
    X25519.pubkey M (X25519.genkey M ra ea).1.1 =
      (if ea then M.from_elligator_representative (X25519.genkey M ra ea).1.2
        else (X25519.genkey M ra ea).1.2) := by
  refine ⟨?_, ⟨_, rfl⟩, (X25519.genkey_point M hM ra ea).symm⟩
  simp only [X25519.dh, X25519.genkey_point M hM, X25519.pubkey]
  rw [hM.comm]

/-- A curve for tests: a point is one byte, multiplication by a key its byte product with
the key's sum, and the representative of a point the point itself. -/
def toy_montgomery : Montgomery where
  mul_base_clamped k := [k.sum]
  mul_clamped p k := [p.headD 0 * k.sum]
  from_elligator_representative r := r
  generate_ephemeral_elligator_random rng :=
    let filled := rng.fill_bytes (zeros 32)
    ((filled.1, [filled.1.sum]), filled.2)

theorem toy_montgomery_laws : toy_montgomery.Laws :=
  ⟨fun a b => by simp [toy_montgomery, mul_comm], fun _ => rfl⟩

theorem x25519_elligator_agree_toy :
    X25519.dh toy_montgomery (X25519.genkey toy_montgomery ⟨fun j => j.toUInt8, 0⟩ true).1.1
        (X25519.genkey toy_montgomery ⟨fun _ => 3, 0⟩ false).1.2 false =
      X25519.dh toy_montgomery (X25519.genkey toy_montgomery ⟨fun _ => 3, 0⟩ false).1.1
        (X25519.genkey toy_montgomery ⟨fun j => j.toUInt8, 0⟩ true).1.2 true ∧
    (∃ s, X25519.dh toy_montgomery (X25519.genkey toy_montgomery ⟨fun j => j.toUInt8, 0⟩ true).1.1
        (X25519.genkey toy_montgomery ⟨fun _ => 3, 0⟩ false).1.2 false = .ok s) ∧
    X25519.pubkey toy_montgomery (X25519.genkey toy_montgomery ⟨fun j => j.toUInt8, 0⟩ true).1.1 =
      (if true then toy_montgomery.from_elligator_representative
          (X25519.genkey toy_montgomery ⟨fun j => j.toUInt8, 0⟩ true).1.2
        else (X25519.genkey toy_montgomery ⟨fun j => j.toUInt8, 0⟩ true).1.2) :=
  x25519_elligator_agree toy_montgomery toy_montgomery_laws _ _ true false

end NoiseRustCrypto

/-! ## The hash wrappers -/

/-- A hash wrapper as the handshake's `Hash`: `name()`, `block_len()` (the crate's `Block`
length), `hash_len()` (the crate's `Output` length), and the digest of the hasher it
wraps, which `input` feeds and `result` reads out. -/
def hash_wrapper (name : String) (block_len hash_len : Nat) (digest : Bytes → Bytes) : Hash :=
  ⟨name, block_len, hash_len, digest⟩

/-- `Sha256`, in both crates. -/
def Sha256.hash (digest : Bytes → Bytes) : Hash := hash_wrapper "SHA256" 64 32 digest

/-- `Sha512`, in both crates. -/
def Sha512.hash (digest : Bytes → Bytes) : Hash := hash_wrapper "SHA512" 128 64 digest

/-- `Blake2b`, in both crates. -/
def Blake2b.hash (digest : Bytes → Bytes) : Hash := hash_wrapper "BLAKE2b" 128 64 digest

/-- `Blake2s`, in both crates. -/
def Blake2s.hash (digest : Bytes → Bytes) : Hash := hash_wrapper "BLAKE2s" 64 32 digest

end NoiseRust
