/-
The Rust layer under the model: byte strings, the ways a Rust function of this crate
can panic, the handful of standard-library operations that can panic (`Option::unwrap`,
`assert!`, indexing a `Vec`, slicing, `usize` subtraction), and the integer encodings
the ciphers write.

Every function of `handshakestate.rs` and of the two cipher wrappers is modelled in
`Except Panic`: `.error p` is the panic `p`, `.ok v` a normal return. A `&mut self`
method that returns a `Result` returns the `Result` *and* the state it leaves, because
the caller can see that state after an `Err`: what a failed `read_message` leaves behind
is part of its behaviour.
-/
import Mathlib.Data.List.Basic

set_option autoImplicit false

namespace NoiseRust

/-- A Rust `Vec<u8>` or `&[u8]`. -/
abbrev Bytes := List UInt8

/-- Why a Rust function panicked. -/
inductive Panic where
  /-- `Option::unwrap` on `None`. -/
  | unwrap_none
  /-- An `assert!` whose condition is false. -/
  | assert_failed
  /-- Indexing or slicing past the end of a `Vec` or slice. -/
  | index_out_of_bounds
  /-- A `usize` subtraction below zero. -/
  | sub_overflow
  /-- `panic!("Unexpected token in pre message")` in `HandshakeState::new`. -/
  | unexpected_pre_token
  /-- `unreachable!()` in `HandshakeState::perform_dh`. -/
  | unreachable
  /-- `Result::unwrap` on `Err`. -/
  | unwrap_err
  /-- `copy_from_slice` between slices of different lengths. -/
  | len_mismatch
  deriving DecidableEq, Repr

variable {α β ε : Type}

/-! ## `Except` as the panic monad -/

@[simp] theorem ok_bind (a : α) (f : α → Except ε β) : (Except.ok a >>= f) = f a := rfl

@[simp] theorem error_bind (e : ε) (f : α → Except ε β) :
    (Except.error e >>= f) = Except.error e := rfl

@[simp] theorem pure_eq_ok (a : α) : (pure a : Except ε α) = Except.ok a := rfl

/-- A bind returns exactly when both halves do. -/
theorem bind_eq_ok {x : Except ε α} {f : α → Except ε β} {b : β} :
    (x >>= f) = .ok b ↔ ∃ a, x = .ok a ∧ f a = .ok b := by
  cases x <;> simp

/-! ## Standard-library operations that can panic -/

/-- `Option::unwrap`. -/
def unwrap : Option α → Except Panic α
  | some a => .ok a
  | none => .error .unwrap_none

@[simp] theorem unwrap_some (a : α) : unwrap (some a) = .ok a := rfl

@[simp] theorem unwrap_none : unwrap (none : Option α) = .error .unwrap_none := rfl

theorem unwrap_eq_ok {o : Option α} {a : α} : unwrap o = .ok a ↔ o = some a := by
  cases o <;> simp

/-- `Result::unwrap`. -/
def result_unwrap : Except ε α → Except Panic α
  | .ok a => .ok a
  | .error _ => .error .unwrap_err

@[simp] theorem result_unwrap_ok (a : α) : result_unwrap (.ok a : Except ε α) = .ok a := rfl

@[simp] theorem result_unwrap_error (e : ε) :
    result_unwrap (.error e : Except ε α) = .error .unwrap_err := rfl

/-- `assert!(b)`. -/
def assert (b : Bool) : Except Panic Unit :=
  if b then .ok () else .error .assert_failed

@[simp] theorem assert_true : assert true = .ok () := rfl

theorem assert_eq_ok {b : Bool} {u : Unit} : assert b = .ok u ↔ b = true := by
  cases b <;> simp [assert]

/-- `v[i]` on a `Vec`. -/
def index (v : List α) (i : Nat) : Except Panic α :=
  match v[i]? with
  | some a => .ok a
  | none => .error .index_out_of_bounds

theorem index_eq_ok {v : List α} {i : Nat} {a : α} : index v i = .ok a ↔ v[i]? = some a := by
  cases h : v[i]? <;> simp [index, h]

/-- `&s[..n]`. -/
def slice_to (s : Bytes) (n : Nat) : Except Panic Bytes :=
  if n ≤ s.length then .ok (s.take n) else .error .index_out_of_bounds

/-- `&s[n..]`. -/
def slice_from (s : Bytes) (n : Nat) : Except Panic Bytes :=
  if n ≤ s.length then .ok (s.drop n) else .error .index_out_of_bounds

theorem slice_to_of_le {s : Bytes} {n : Nat} (h : n ≤ s.length) : slice_to s n = .ok (s.take n) :=
  if_pos h

theorem slice_from_of_le {s : Bytes} {n : Nat} (h : n ≤ s.length) :
    slice_from s n = .ok (s.drop n) :=
  if_pos h

theorem slice_to_of_lt {s : Bytes} {n : Nat} (h : s.length < n) :
    slice_to s n = .error .index_out_of_bounds :=
  if_neg (by omega)

theorem slice_to_append {a : Bytes} (b : Bytes) {n : Nat} (h : a.length = n) :
    slice_to (a ++ b) n = .ok a := by
  subst h
  simp [slice_to]

theorem slice_from_append {a : Bytes} (b : Bytes) {n : Nat} (h : a.length = n) :
    slice_from (a ++ b) n = .ok b := by
  subst h
  simp [slice_from]

/-- `s.split_at_mut(mid)`: the two halves; `mid` past the end panics. -/
def split_at (s : Bytes) (mid : Nat) : Except Panic (Bytes × Bytes) :=
  if mid ≤ s.length then .ok (s.take mid, s.drop mid) else .error .assert_failed

theorem split_at_of_le {s : Bytes} {mid : Nat} (h : mid ≤ s.length) :
    split_at s mid = .ok (s.take mid, s.drop mid) :=
  if_pos h

/-- `dst.copy_from_slice(src)`: what `dst` holds afterwards. -/
def copy_from_slice (dst src : Bytes) : Except Panic Bytes :=
  if dst.length = src.length then .ok src else .error .len_mismatch

theorem copy_from_slice_of_length {dst src : Bytes} (h : dst.length = src.length) :
    copy_from_slice dst src = .ok src :=
  if_pos h

theorem copy_from_slice_eq_ok {dst src out : Bytes} :
    copy_from_slice dst src = .ok out ↔ dst.length = src.length ∧ src = out := by
  unfold copy_from_slice
  split <;> simp [*]

theorem copy_from_slice_eq_error {dst src : Bytes} {e : Panic} :
    copy_from_slice dst src = .error e ↔ dst.length ≠ src.length ∧ e = .len_mismatch := by
  unfold copy_from_slice
  split <;> simp [*, eq_comm]

/-- `a - b` on `usize`: a panic below zero (`attempt to subtract with overflow` in a debug
build; a release build wraps, and the slice that follows panics instead). -/
def usize_sub (a b : Nat) : Except Panic Nat :=
  if b ≤ a then .ok (a - b) else .error .sub_overflow

theorem usize_sub_of_le {a b : Nat} (h : b ≤ a) : usize_sub a b = .ok (a - b) := if_pos h

theorem usize_sub_of_lt {a b : Nat} (h : a < b) : usize_sub a b = .error .sub_overflow :=
  if_neg (by omega)

/-- `usize::checked_add` on a 64-bit target. -/
def checked_add (a b : Nat) : Option Nat :=
  if a + b < Nat.pow 2 64 then some (a + b) else none

theorem checked_add_eq_some {a b : Nat} (h : a + b < Nat.pow 2 64) :
    checked_add a b = some (a + b) :=
  if_pos h

theorem checked_add_eq_none {a b : Nat} (h : ¬a + b < Nat.pow 2 64) : checked_add a b = none :=
  if_neg h

/-- `usize::checked_sub`. -/
def checked_sub (a b : Nat) : Option Nat :=
  if b ≤ a then some (a - b) else none

/-! ## Byte encodings -/

/-- The `w` low bytes of `n`, least significant first. -/
def le_bytes (n : Nat) : Nat → Bytes
  | 0 => []
  | w + 1 => UInt8.ofNat n :: le_bytes (n / 256) w

@[simp] theorem le_bytes_length (n w : Nat) : (le_bytes n w).length = w := by
  induction w generalizing n <;> simp [le_bytes, *]

/-- `u64::to_le_bytes`, and what `LittleEndian::write_u64` writes. -/
def to_le_bytes (x : UInt64) : Bytes := le_bytes x.toNat 8

/-- `u64::to_be_bytes`, and what `BigEndian::write_u64` writes. -/
def to_be_bytes (x : UInt64) : Bytes := (le_bytes x.toNat 8).reverse

@[simp] theorem to_le_bytes_length (x : UInt64) : (to_le_bytes x).length = 8 := by
  simp [to_le_bytes]

@[simp] theorem to_be_bytes_length (x : UInt64) : (to_be_bytes x).length = 8 := by
  simp [to_be_bytes]

theorem u8_ofNat_mod (n : Nat) : UInt8.ofNat (n % 256) = UInt8.ofNat n :=
  UInt8.eq_of_toBitVec_eq (BitVec.eq_of_toNat_eq (by simp [UInt8.ofNat]))

/-- `le_bytes n w` is the `w` low base-256 digits of `n`, the least significant first. -/
theorem le_bytes_eq (n w : Nat) :
    le_bytes n w = (List.range w).map fun i => UInt8.ofNat (n / Nat.pow 256 i % 256) := by
  induction w generalizing n with
  | zero => rfl
  | succ w ih =>
    rw [le_bytes, ih, List.range_succ_eq_map]
    simp [Nat.div_div_eq_div_mul, Nat.pow_succ, Nat.mul_comm, u8_ofNat_mod]

/-- The little-endian layout: byte `i` of `to_le_bytes x` is `x / 256^i % 256`. -/
theorem to_le_bytes_eq (x : UInt64) :
    to_le_bytes x = (List.range 8).map fun i => UInt8.ofNat (x.toNat / Nat.pow 256 i % 256) :=
  le_bytes_eq _ _

/-- The big-endian layout: byte `i` of `to_be_bytes x` is `x / 256^(7 - i) % 256`. -/
theorem to_be_bytes_eq (x : UInt64) :
    to_be_bytes x = (List.range 8).map fun i => UInt8.ofNat (x.toNat / Nat.pow 256 (7 - i) % 256) := by
  simp [to_be_bytes, le_bytes_eq, List.range_succ]

/-- `str::as_bytes`: the UTF-8 encoding. -/
def as_bytes (s : String) : Bytes := s.toUTF8.data.toList

/-- `[0u8; n]`. -/
def zeros (n : Nat) : Bytes := List.replicate n 0

@[simp] theorem zeros_length (n : Nat) : (zeros n).length = n := List.length_replicate n 0

end NoiseRust
