/-
`handshakestate.rs`: the handshake interpreter, function by function.

`new`, `write_message`, `read_message`, `perform_dh`, `completed`, `get_hash` and
`get_ciphers` keep their Rust names and bodies. The three `for` loops become the
structural recursions `mix_pre_message`, `write_tokens` and `read_tokens`, one call per
token, so that every proof about a message is an induction over its tokens whose step is
one token's lemma. `read_message` moves `data` through the `get` closure, and each
`?` returns the error together with the state as it is at that point: in Rust the
caller holds `&mut self` and sees every field assigned before the `Err`.

The lemmas after the definitions say, once per function, what it can do: which fields
it leaves alone (the frame), how it moves `has_key`, and what a DH token computes.
Everything later is proved from them without unfolding the functions again.
-/
import NoiseRust.SymmetricState
import NoiseRust.Pattern

set_option autoImplicit false

namespace NoiseRust

/-- The errors `read_message` returns (`error::NoiseError`, not among the sources; these
are the two `handshakestate.rs` uses). -/
inductive NoiseError where
  | TooShort
  | DecryptionFailed
  deriving DecidableEq, Repr

/-- `HandshakeState<D, C, H>`: the keys are private keys (`s`, `e`) and public keys
(`rs`, `re`) as byte strings. -/
structure HandshakeState where
  symmetric : SymmetricState
  s : Option Bytes
  e : Option Bytes
  rs : Option Bytes
  re : Option Bytes
  is_initiator : Bool
  pattern : HandshakePattern
  message_index : Nat
  deriving DecidableEq, Repr

namespace HandshakeState

variable (D : DH) (C : Cipher) (H : Hash)

/-- `get_name`: the protocol name, e.g. `Noise_IK_25519_ChaChaPoly_BLAKE2s`. -/
def get_name (pattern : HandshakePattern) : String :=
  "Noise_" ++ pattern.name ++ "_" ++ D.name ++ "_" ++ C.name ++ "_" ++ H.name

/-- One of the two pre-message loops of `new`. Each `S` mixes a static public key:
our own (`s`) when the pre-message is ours, the peer's (`rs`) when it is theirs. Any
other token is `panic!("Unexpected token in pre message")`. -/
def mix_pre_message (ours : Bool) (s rs : Option Bytes) :
    SymmetricState → List Token → Except Panic SymmetricState
  | symmetric, [] => pure symmetric
  | symmetric, .S :: ts => do
    let pk ← if ours then (do pure (D.get_pubkey_vec (← unwrap s))) else unwrap rs
    mix_pre_message ours s rs (symmetric.mix_hash H pk) ts
  | _, _ :: _ => .error .unexpected_pre_token

/-- `new`: the protocol name, then the prologue, then the initiator's and the responder's
pre-messages are mixed into the hash. -/
def new (pattern : HandshakePattern) (is_initiator : Bool) (prologue : Bytes)
    (s e rs re : Option Bytes) : Except Panic HandshakeState := do
  let symmetric := (SymmetricState.new H (as_bytes (get_name D C H pattern))).mix_hash H prologue
  let symmetric ← mix_pre_message D H is_initiator s rs symmetric pattern.pre_i
  let symmetric ← mix_pre_message D H (!is_initiator) s rs symmetric pattern.pre_r
  pure ⟨symmetric, s, e, rs, re, is_initiator, pattern, 0⟩

/-- `self.x.as_ref().unwrap().dh_vec(self.y.as_ref().unwrap())`. -/
def dh_with (k pk : Option Bytes) : Except Panic Bytes := do
  let k ← unwrap k
  pure (D.dh_vec k (← unwrap pk))

/-- `perform_dh`: the role decides which local key meets which remote one. -/
def perform_dh (st : HandshakeState) (t : Token) : Except Panic HandshakeState := do
  let k ← match t with
    | .EE => dh_with D st.e st.re
    | .ES => if st.is_initiator then dh_with D st.e st.rs else dh_with D st.s st.re
    | .SE => if st.is_initiator then dh_with D st.s st.re else dh_with D st.e st.rs
    | .SS => dh_with D st.s st.rs
    | _ => .error .unreachable
  pure { st with symmetric := st.symmetric.mix_key H k }

/-- One pass of `write_message`'s token loop: the bytes appended to `out`, and the state. -/
def write_token (st : HandshakeState) : Token → Except Panic (Bytes × HandshakeState)
  | .E => do
    let e_pk := D.get_pubkey_vec (← unwrap st.e)
    pure (e_pk, { st with symmetric := st.symmetric.mix_hash H e_pk })
  | .S => do
    let s_pk := D.get_pubkey_vec (← unwrap st.s)
    let (encrypted_s, symmetric) := st.symmetric.encrypt_and_hash_vec C H s_pk
    pure (encrypted_s, { st with symmetric })
  | t => do pure ([], ← perform_dh D H st t)

/-- `write_message`'s token loop. -/
def write_tokens (st : HandshakeState) : List Token → Except Panic (Bytes × HandshakeState)
  | [] => pure ([], st)
  | t :: m => do
    let (field, st) ← write_token D C H st t
    let (rest, st) ← write_tokens st m
    pure (field ++ rest, st)

/-- `write_message`: check the turn, take the message pattern, count it sent, process its
tokens, then encrypt and hash the payload. -/
def write_message (st : HandshakeState) (payload : Bytes) :
    Except Panic (Bytes × HandshakeState) := do
  assert (st.message_index % 2 == if st.is_initiator then 0 else 1)
  let m ← index st.pattern.message_patterns st.message_index
  let (out, st) ← write_tokens D C H { st with message_index := st.message_index + 1 } m
  let (encrypted_payload, symmetric) := st.symmetric.encrypt_and_hash_vec C H payload
  pure (out ++ encrypted_payload, { st with symmetric })

/-- The `get` closure of `read_message`: the next `n` bytes and the rest, or `TooShort`. -/
def get (data : Bytes) (n : Nat) : Except NoiseError (Bytes × Bytes) :=
  if data.length ≥ n then .ok (data.take n, data.drop n) else .error .TooShort

/-- One pass of `read_message`'s token loop: the rest of `data` and the state after, or
the error it returns. An error leaves the state as it was before the token (`get` fails
before `re` or `rs` is assigned, and a failed `decrypt_and_hash_vec` changes nothing). The
`unwrap` after `self.re = Some(..)` reads back the `Some` just stored. -/
def read_token (st : HandshakeState) (data : Bytes) :
    Token → Except Panic (Except NoiseError (Bytes × HandshakeState))
  | .E => pure <| match get data D.pub_len with
    | .ok (re, data) => .ok (data, { st with re := some re, symmetric := st.symmetric.mix_hash H re })
    | .error err => .error err
  | .S => match get data (if st.symmetric.has_key then D.pub_len + 16 else D.pub_len) with
    | .ok (temp, data) => do
      match ← st.symmetric.decrypt_and_hash_vec C H temp with
      | some (rs, symmetric) => pure (.ok (data, { st with rs := some rs, symmetric }))
      | none => pure (.error .DecryptionFailed)
    | .error err => pure (.error err)
  | t => do pure (.ok (data, ← perform_dh D H st t))

/-- `read_message`'s token loop: the unread rest of `data`, or the error, with the state
at that point. -/
def read_tokens (st : HandshakeState) (data : Bytes) :
    List Token → Except Panic (Except NoiseError Bytes × HandshakeState)
  | [] => pure (.ok data, st)
  | t :: m => do
    match ← read_token D C H st data t with
    | .ok (data, st) => read_tokens st data m
    | .error err => pure (.error err, st)

/-- `read_message`: check the turn, take the message pattern, count it received, process
its tokens, then decrypt and hash what remains of `data` as the payload. -/
def read_message (st : HandshakeState) (data : Bytes) :
    Except Panic (Except NoiseError Bytes × HandshakeState) := do
  assert (st.message_index % 2 == if st.is_initiator then 1 else 0)
  let m ← index st.pattern.message_patterns st.message_index
  match ← read_tokens D C H { st with message_index := st.message_index + 1 } data m with
  | (.ok data, st) => do
    match ← st.symmetric.decrypt_and_hash_vec C H data with
    | some (payload, symmetric) => pure (.ok payload, { st with symmetric })
    | none => pure (.error .DecryptionFailed, st)
  | (.error err, st) => pure (.error err, st)

/-- `completed()`. -/
def completed (st : HandshakeState) : Bool :=
  st.message_index == st.pattern.message_patterns.length

/-- `get_hash()`. -/
def get_hash (st : HandshakeState) : Bytes := st.symmetric.get_hash

/-- `get_ciphers()`. -/
def get_ciphers (st : HandshakeState) : CipherState × CipherState := st.symmetric.split H

/-! ## What each function can do -/

/-- The fields that only `new` sets and the message functions' index: the local keys, the
role, the pattern and the message index. -/
def frame (st : HandshakeState) : Option Bytes × Option Bytes × Bool × HandshakePattern × Nat :=
  (st.s, st.e, st.is_initiator, st.pattern, st.message_index)

/-- Two states have the same frame exactly when they agree on each of its fields. -/
theorem frame_eq_iff {st st' : HandshakeState} :
    st'.frame = st.frame ↔ st'.s = st.s ∧ st'.e = st.e ∧ st'.is_initiator = st.is_initiator ∧
      st'.pattern = st.pattern ∧ st'.message_index = st.message_index := by
  simp [frame]

theorem get_of_le {data : Bytes} {n : Nat} (h : n ≤ data.length) :
    get data n = .ok (data.take n, data.drop n) := if_pos h

theorem get_eq_ok {data a b : Bytes} {n : Nat} (h : get data n = .ok (a, b)) :
    n ≤ data.length ∧ a = data.take n ∧ b = data.drop n := by
  by_cases hn : n ≤ data.length
  · simp only [get_of_le hn, Except.ok.injEq, Prod.mk.injEq] at h
    exact ⟨hn, h.1.symm, h.2.symm⟩
  · simp [get, hn] at h

theorem get_of_lt {data : Bytes} {n : Nat} (h : data.length < n) : get data n = .error .TooShort :=
  if_neg (by omega)

/-- A DH token mixes one shared secret into the key; nothing else changes. -/
theorem perform_dh_ok {st st' : HandshakeState} {t : Token} (h : perform_dh D H st t = .ok st') :
    t.is_dh = true ∧ ∃ k, st' = { st with symmetric := st.symmetric.mix_key H k } := by
  cases t <;> simp only [perform_dh] at h <;> (try split at h) <;>
    simp only [error_bind, reduceCtorEq, bind_eq_ok, pure_eq_ok, Except.ok.injEq] at h <;>
    obtain ⟨k, -, rfl⟩ := h <;> exact ⟨rfl, k, rfl⟩

theorem write_token_of_is_dh {t : Token} (ht : t.is_dh = true) (st : HandshakeState) :
    write_token D C H st t = perform_dh D H st t >>= fun st' => pure ([], st') := by
  cases t <;> first | rfl | simp [Token.is_dh] at ht

theorem read_token_of_is_dh {t : Token} (ht : t.is_dh = true) (st : HandshakeState) (d : Bytes) :
    read_token D C H st d t = perform_dh D H st t >>= fun st' => pure (.ok (d, st')) := by
  cases t <;> first | rfl | simp [Token.is_dh] at ht

theorem token_field_widths_of_is_dh {t : Token} (ht : t.is_dh = true) (pub_len : Nat)
    (keyed : Bool) : token_field_widths pub_len keyed t = [] := by
  cases t <;> first | rfl | simp [Token.is_dh] at ht

/-- A DH token seen by either message function: no field, the hash kept, the key set. -/
theorem dh_token_spec {st st' : HandshakeState} {t : Token} (h : perform_dh D H st t = .ok st') :
    token_field_widths D.pub_len st.symmetric.has_key t = [] ∧
      st'.symmetric.h = st.symmetric.h ∧ st'.symmetric.has_key = true ∧ st'.frame = st.frame := by
  obtain ⟨ht, k, rfl⟩ := perform_dh_ok D H h
  simp [token_field_widths_of_is_dh ht, frame]

/-- **One written token.** Its output is its fields, of the widths the wire format gives,
and each field is mixed into the hash; a DH token keys the cipher. -/
theorem write_token_spec {st st' : HandshakeState} {t : Token} {f : Bytes}
    (h : write_token D C H st t = .ok (f, st')) :
    ∃ fs : List Bytes, f = fs.flatten ∧
      fs.map List.length = token_field_widths D.pub_len st.symmetric.has_key t ∧
      st'.symmetric.h = SymmetricState.mix_all H st.symmetric.h fs ∧
      st'.symmetric.has_key = (st.symmetric.has_key || t.is_dh) ∧ st'.frame = st.frame := by
  cases ht : t.is_dh
  · cases t <;> simp [Token.is_dh] at ht
    · rcases he : st.e with _ | k <;> simp [write_token, he] at h
      obtain ⟨rfl, rfl⟩ := h
      exact ⟨[D.get_pubkey_vec k], by simp, by simp [token_field_widths, D.get_pubkey_vec_length],
        rfl, by simp [Token.is_dh], by simp [frame, he]⟩
    · rcases hs : st.s with _ | k <;> simp [write_token, hs] at h
      obtain ⟨rfl, rfl⟩ := h
      obtain ⟨hl, hk, hh⟩ := SymmetricState.encrypt_and_hash_vec_spec C H st.symmetric
        (D.get_pubkey_vec k)
      exact ⟨[_], by simp, by simp [token_field_widths, hl, D.get_pubkey_vec_length], hh,
        by simp [hk, Token.is_dh], by simp [frame, hs]⟩
  · rw [write_token_of_is_dh D C H ht] at h
    obtain ⟨st'', hdh, h⟩ := bind_eq_ok.1 h
    simp only [pure_eq_ok, Except.ok.injEq, Prod.mk.injEq] at h
    obtain ⟨rfl, rfl⟩ := h
    obtain ⟨hw, hh, hk, hf⟩ := dh_token_spec D H hdh
    exact ⟨[], rfl, hw.symm, hh, by simp [hk], hf⟩

/-- **One read token.** It consumes fields of the widths the wire format gives from the
front of `data` and mixes each into the hash; a DH token keys the cipher. -/
theorem read_token_spec {st st' : HandshakeState} {t : Token} {d d' : Bytes}
    (h : read_token D C H st d t = .ok (.ok (d', st'))) :
    ∃ fs : List Bytes, d = fs.flatten ++ d' ∧
      fs.map List.length = token_field_widths D.pub_len st.symmetric.has_key t ∧
      st'.symmetric.h = SymmetricState.mix_all H st.symmetric.h fs ∧
      st'.symmetric.has_key = (st.symmetric.has_key || t.is_dh) ∧ st'.frame = st.frame := by
  cases ht : t.is_dh
  · cases t <;> simp [Token.is_dh] at ht
    · by_cases hl : D.pub_len ≤ d.length
      · simp only [read_token, get_of_le hl, pure_eq_ok, Except.ok.injEq, Prod.mk.injEq] at h
        obtain ⟨rfl, rfl⟩ := h
        exact ⟨[d.take D.pub_len], by simp, by simp [token_field_widths, hl], rfl,
          by simp [Token.is_dh], rfl⟩
      · simp [read_token, get_of_lt (not_le.1 hl)] at h
    · have hw : (if st.symmetric.has_key then D.pub_len + 16 else D.pub_len)
          = D.pub_len + tag_len st.symmetric.has_key := by cases st.symmetric.has_key <;> rfl
      by_cases hl : D.pub_len + tag_len st.symmetric.has_key ≤ d.length
      · simp only [read_token, hw, get_of_le hl] at h
        rcases hd : SymmetricState.decrypt_and_hash_vec C H st.symmetric
          (d.take (D.pub_len + tag_len st.symmetric.has_key)) with _ | _ | ⟨rs, sym⟩ <;>
          simp [hd] at h
        obtain ⟨rfl, rfl⟩ := h
        obtain ⟨hk, hh⟩ := SymmetricState.decrypt_and_hash_vec_some C H hd
        exact ⟨[_], by simp, by simp [token_field_widths, hl], hh, by simp [hk, Token.is_dh], rfl⟩
      · simp [read_token, hw, get_of_lt (not_le.1 hl)] at h
  · rw [read_token_of_is_dh D C H ht] at h
    obtain ⟨st'', hdh, h⟩ := bind_eq_ok.1 h
    simp only [pure_eq_ok, Except.ok.injEq, Prod.mk.injEq] at h
    obtain ⟨rfl, rfl⟩ := h
    obtain ⟨hw, hh, hk, hf⟩ := dh_token_spec D H hdh
    exact ⟨[], rfl, hw.symm, hh, by simp [hk], hf⟩

end HandshakeState

end NoiseRust
