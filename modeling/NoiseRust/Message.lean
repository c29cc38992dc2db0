/-
One message at a time: what `write_message` emits and what `read_message` consumes,
and what the transcript hash records of it.

The token loops are inductions whose step is `write_token_spec` or `read_token_spec`.
Both sides cut a message into the same fields, of the widths `token_widths` gives from
the cipher's keyed state, followed by the payload ciphertext; the hash after the message
is the hash before it with `MixHash` applied to exactly those fields in order. For a
failed read the loop gives the other half of the picture: the state an `Err` leaves is
the state after the tokens read before the failure, with the message already counted.
-/
import NoiseRust.HandshakeState

set_option autoImplicit false

namespace NoiseRust

namespace HandshakeState

variable (D : DH) (C : Cipher) (H : Hash)

/-! ## The token loops -/

theorem write_tokens_cons {st st' : HandshakeState} {t : Token} {m : List Token} {out : Bytes}
    (h : write_tokens D C H st (t :: m) = .ok (out, st')) :
    ∃ f st1 rest, write_token D C H st t = .ok (f, st1) ∧
      write_tokens D C H st1 m = .ok (rest, st') ∧ out = f ++ rest := by
  simp only [write_tokens, bind_eq_ok, pure_eq_ok, Except.ok.injEq, Prod.mk.injEq] at h
  obtain ⟨⟨f, st1⟩, h1, ⟨rest, st2⟩, h2, rfl, rfl⟩ := h
  exact ⟨f, st1, rest, h1, h2, rfl⟩

/-- `write_message`'s loop emits the message's token fields and mixes each of them. -/
theorem write_tokens_spec {st st' : HandshakeState} {m : List Token} {out : Bytes}
    (h : write_tokens D C H st m = .ok (out, st')) :
    ∃ fs : List Bytes, out = fs.flatten ∧
      fs.map List.length = token_widths D.pub_len st.symmetric.has_key m ∧
      st'.symmetric.h = SymmetricState.mix_all H st.symmetric.h fs ∧
      st'.symmetric.has_key = keyed_after st.symmetric.has_key m ∧ st'.frame = st.frame := by
  induction m generalizing st out with
  | nil =>
    simp only [write_tokens, pure_eq_ok, Except.ok.injEq, Prod.mk.injEq] at h
    obtain ⟨rfl, rfl⟩ := h
    exact ⟨[], rfl, rfl, rfl, by simp, rfl⟩
  | cons t m ih =>
    obtain ⟨f, st1, rest, h1, h2, rfl⟩ := write_tokens_cons D C H h
    obtain ⟨fs1, rfl, hw1, hh1, hk1, hf1⟩ := write_token_spec D C H h1
    obtain ⟨fs2, rfl, hw2, hh2, hk2, hf2⟩ := ih h2
    refine ⟨fs1 ++ fs2, by simp, ?_, ?_, ?_, hf2.trans hf1⟩
    · simp [token_widths, hw1, hw2, hk1]
    · rw [hh2, hh1, SymmetricState.mix_all_append]
    · rw [hk2, hk1, keyed_after_cons]

theorem read_tokens_cons {st st' : HandshakeState} {t : Token} {m : List Token} {d d' : Bytes}
    (h : read_tokens D C H st d (t :: m) = .ok (.ok d', st')) :
    ∃ d1 st1, read_token D C H st d t = .ok (.ok (d1, st1)) ∧
      read_tokens D C H st1 d1 m = .ok (.ok d', st') := by
  simp only [read_tokens, bind_eq_ok] at h
  obtain ⟨r, h1, h2⟩ := h
  rcases r with err | ⟨d1, st1⟩
  · simp at h2
  exact ⟨d1, st1, h1, h2⟩

/-- `read_message`'s loop consumes the message's token fields from the front of `data`
and mixes each of them. -/
theorem read_tokens_spec {st st' : HandshakeState} {m : List Token} {d d' : Bytes}
    (h : read_tokens D C H st d m = .ok (.ok d', st')) :
    ∃ fs : List Bytes, d = fs.flatten ++ d' ∧
      fs.map List.length = token_widths D.pub_len st.symmetric.has_key m ∧
      st'.symmetric.h = SymmetricState.mix_all H st.symmetric.h fs ∧
      st'.symmetric.has_key = keyed_after st.symmetric.has_key m ∧ st'.frame = st.frame := by
  induction m generalizing st d with
  | nil =>
    simp only [read_tokens, pure_eq_ok, Except.ok.injEq, Prod.mk.injEq] at h
    obtain ⟨⟨⟩, rfl⟩ := h
    exact ⟨[], rfl, rfl, rfl, by simp, rfl⟩
  | cons t m ih =>
    obtain ⟨d1, st1, h1, h2⟩ := read_tokens_cons D C H h
    obtain ⟨fs1, rfl, hw1, hh1, hk1, hf1⟩ := read_token_spec D C H h1
    obtain ⟨fs2, rfl, hw2, hh2, hk2, hf2⟩ := ih h2
    refine ⟨fs1 ++ fs2, by simp, ?_, ?_, ?_, hf2.trans hf1⟩
    · simp [token_widths, hw1, hw2, hk1]
    · rw [hh2, hh1, SymmetricState.mix_all_append]
    · rw [hk2, hk1, keyed_after_cons]

/-- A read that fails inside the token loop leaves the state the tokens before the
failing one left: the failing token changes nothing. -/
theorem read_tokens_error {st st' : HandshakeState} {m : List Token} {d : Bytes}
    {err : NoiseError} (h : read_tokens D C H st d m = .ok (.error err, st')) :
    ∃ n ≤ m.length, ∃ d', read_tokens D C H st d (m.take n) = .ok (.ok d', st') := by
  induction m generalizing st d with
  | nil => simp [read_tokens] at h
  | cons t m ih =>
    simp only [read_tokens, bind_eq_ok] at h
    obtain ⟨r, h1, h2⟩ := h
    rcases r with err' | ⟨d1, st1⟩
    · simp only [pure_eq_ok, Except.ok.injEq, Prod.mk.injEq] at h2
      obtain ⟨-, rfl⟩ := h2
      exact ⟨0, by simp, d, rfl⟩
    · obtain ⟨n, hn, d', h3⟩ := ih h2
      exact ⟨n + 1, by simpa using hn, d', by simp [read_tokens, h1, h3]⟩

/-! ## Whole messages -/

/-- What `write_message` did, when it returned: the turn was the writer's, and the payload
ciphertext follows what the token loop wrote. -/
theorem write_message_inv {st st' : HandshakeState} {p msg : Bytes}
    (h : write_message D C H st p = .ok (msg, st')) :
    initiator_sends st.message_index = st.is_initiator ∧
    ∃ m, st.pattern.message_patterns[st.message_index]? = some m ∧ ∃ out st1,
      write_tokens D C H { st with message_index := st.message_index + 1 } m = .ok (out, st1) ∧
      msg = out ++ (st1.symmetric.encrypt_and_hash_vec C H p).1 ∧
      st' = { st1 with symmetric := (st1.symmetric.encrypt_and_hash_vec C H p).2 } := by
  simp only [write_message, bind_eq_ok] at h
  obtain ⟨_, ha, m, hm, ⟨out, st1⟩, h1, h2⟩ := h
  refine ⟨?_, m, index_eq_ok.1 hm, out, st1, h1, ?_⟩
  · have := assert_eq_ok.1 ha
    cases hi : st.is_initiator <;> simp [initiator_sends, hi] at this ⊢ <;> omega
  rcases he : SymmetricState.encrypt_and_hash_vec C H st1.symmetric p with ⟨ct, sym⟩
  simp only [he, pure_eq_ok, Except.ok.injEq, Prod.mk.injEq] at h2 ⊢
  exact ⟨h2.1.symm, h2.2.symm⟩

/-- The turn `read_message` checks: the reader receives the messages the peer sends. -/
theorem read_message_turn {st st' : HandshakeState} {data : Bytes} {r : Except NoiseError Bytes}
    (h : read_message D C H st data = .ok (r, st')) :
    initiator_sends st.message_index = !st.is_initiator := by
  simp only [read_message, bind_eq_ok] at h
  obtain ⟨_, ha, -⟩ := h
  have := assert_eq_ok.1 ha
  cases hi : st.is_initiator <;> simp [initiator_sends, hi] at this ⊢ <;> omega

/-- What `read_message` did, when it returned `Ok`: the token loop consumed its fields and
the rest of `data` decrypted as the payload. -/
theorem read_message_ok_inv {st st' : HandshakeState} {data q : Bytes}
    (h : read_message D C H st data = .ok (.ok q, st')) :
    ∃ m, st.pattern.message_patterns[st.message_index]? = some m ∧ ∃ d st1 sym,
      read_tokens D C H { st with message_index := st.message_index + 1 } data m
        = .ok (.ok d, st1) ∧
      st1.symmetric.decrypt_and_hash_vec C H d = .ok (some (q, sym)) ∧
      st' = { st1 with symmetric := sym } := by
  simp only [read_message, bind_eq_ok] at h
  obtain ⟨_, -, m, hm, ⟨r, st1⟩, h1, h2⟩ := h
  rcases r with err | d
  · simp at h2
  obtain ⟨o, h3, h4⟩ := bind_eq_ok.1 h2
  rcases o with _ | ⟨q', sym⟩
  · simp at h4
  simp only [pure_eq_ok, Except.ok.injEq, Prod.mk.injEq] at h4
  obtain ⟨rfl, rfl⟩ := h4
  exact ⟨m, index_eq_ok.1 hm, d, st1, sym, h1, h3, rfl⟩

/-- **`read_message`**, when it returns `Err`: the state is the one the message's tokens
up to the failing one left, the message already counted. -/
theorem read_message_error {st st' : HandshakeState} {data : Bytes} {err : NoiseError}
    (h : read_message D C H st data = .ok (.error err, st')) :
    ∃ m, st.pattern.message_patterns[st.message_index]? = some m ∧ ∃ n ≤ m.length, ∃ d',
      read_tokens D C H { st with message_index := st.message_index + 1 } data (m.take n)
        = .ok (.ok d', st') := by
  simp only [read_message, bind_eq_ok] at h
  obtain ⟨_, -, m, hm, ⟨r, st1⟩, h1, h2⟩ := h
  refine ⟨m, index_eq_ok.1 hm, ?_⟩
  rcases r with err' | ct
  · simp only [pure_eq_ok, Except.ok.injEq, Prod.mk.injEq] at h2
    obtain ⟨-, rfl⟩ := h2
    exact read_tokens_error D C H h1
  · obtain ⟨o, -, h4⟩ := bind_eq_ok.1 h2
    rcases o with _ | ⟨p', sym⟩ <;> simp only [pure_eq_ok, Except.ok.injEq, Prod.mk.injEq,
      reduceCtorEq, false_and] at h4
    obtain ⟨-, rfl⟩ := h4
    exact ⟨m.length, le_rfl, ct, by rw [List.take_length]; exact h1⟩

/-- **`write_message`**: the message is its token fields, of the widths the wire format
gives, then the payload ciphertext; the hash mixes exactly those fields, in order. -/
theorem write_message_spec {st st' : HandshakeState} {p msg : Bytes}
    (h : write_message D C H st p = .ok (msg, st')) :
    ∃ m, st.pattern.message_patterns[st.message_index]? = some m ∧
    ∃ (fs : List Bytes) (ct : Bytes), msg = fs.flatten ++ ct ∧
      fs.map List.length = token_widths D.pub_len st.symmetric.has_key m ∧
      ct.length = p.length + tag_len (keyed_after st.symmetric.has_key m) ∧
      st'.symmetric.h = SymmetricState.mix_all H st.symmetric.h (fs ++ [ct]) ∧
      st'.symmetric.has_key = keyed_after st.symmetric.has_key m ∧
      st'.frame = { st with message_index := st.message_index + 1 }.frame := by
  obtain ⟨-, m, hm, out, st1, h1, rfl, rfl⟩ := write_message_inv D C H h
  obtain ⟨fs, rfl, hw, hh, hk, hf⟩ := write_tokens_spec D C H h1
  obtain ⟨hl, hk', hh'⟩ := SymmetricState.encrypt_and_hash_vec_spec C H st1.symmetric p
  refine ⟨m, hm, fs, _, rfl, hw, by rw [hl, hk], ?_, hk'.trans hk, hf⟩
  rw [SymmetricState.mix_all_append, ← hh, hh']
  rfl

/-- **`read_message`**, when it returns `Ok`: `data` is the token fields, of the widths the
wire format gives, then the payload ciphertext; the hash mixes exactly those fields. -/
theorem read_message_spec {st st' : HandshakeState} {data p : Bytes}
    (h : read_message D C H st data = .ok (.ok p, st')) :
    ∃ m, st.pattern.message_patterns[st.message_index]? = some m ∧
    ∃ (fs : List Bytes) (ct : Bytes), data = fs.flatten ++ ct ∧
      fs.map List.length = token_widths D.pub_len st.symmetric.has_key m ∧
      st'.symmetric.h = SymmetricState.mix_all H st.symmetric.h (fs ++ [ct]) ∧
      st'.symmetric.has_key = keyed_after st.symmetric.has_key m ∧
      st'.frame = { st with message_index := st.message_index + 1 }.frame := by
  obtain ⟨m, hm, ct, st1, sym, h1, h3, rfl⟩ := read_message_ok_inv D C H h
  obtain ⟨fs, rfl, hw, hh, hk, hf⟩ := read_tokens_spec D C H h1
  obtain ⟨hk', hh'⟩ := SymmetricState.decrypt_and_hash_vec_some C H h3
  refine ⟨m, hm, fs, ct, rfl, hw, ?_, hk'.trans hk, hf⟩
  simp only [SymmetricState.mix_all_append, ← hh, hh']
  rfl

/-- What a returned write or read keeps of a party: its keys, role and pattern; and its
message index moves on by one. -/
theorem message_frame {st st' : HandshakeState}
    (h : st'.frame = { st with message_index := st.message_index + 1 }.frame) :
    st'.s = st.s ∧ st'.e = st.e ∧ st'.is_initiator = st.is_initiator ∧ st'.pattern = st.pattern ∧
      st'.message_index = st.message_index + 1 := by
  simpa [frame] using h

theorem write_message_frame {st st' : HandshakeState} {p msg : Bytes}
    (h : write_message D C H st p = .ok (msg, st')) :
    st'.s = st.s ∧ st'.e = st.e ∧ st'.is_initiator = st.is_initiator ∧ st'.pattern = st.pattern ∧
      st'.message_index = st.message_index + 1 := by
  obtain ⟨-, -, -, -, -, -, -, -, -, hf⟩ := write_message_spec D C H h
  exact message_frame hf

/-- A returned read, `Ok` or `Err`, keeps the reader's keys, role and pattern and moves its
message index on by one. -/
theorem read_message_frame {st st' : HandshakeState} {data : Bytes} {r : Except NoiseError Bytes}
    (h : read_message D C H st data = .ok (r, st')) :
    st'.s = st.s ∧ st'.e = st.e ∧ st'.is_initiator = st.is_initiator ∧ st'.pattern = st.pattern ∧
      st'.message_index = st.message_index + 1 := by
  rcases r with err | p
  · obtain ⟨_, -, _, -, _, hr⟩ := read_message_error D C H h
    obtain ⟨-, -, -, -, -, hf⟩ := read_tokens_spec D C H hr
    exact message_frame hf
  · obtain ⟨-, -, -, -, -, -, -, -, hf⟩ := read_message_spec D C H h
    exact message_frame hf

/-! ## The transcript -/

/-- **The transcript mixes exactly the wire.** `write_message` mixes into `h` the fields
of the message it returns, in order: each token field at the width the wire format gives
(the public key itself for `E`, the ciphertext for `S`), then the payload ciphertext, and
nothing else. `read_message`, when it returns `Ok`, mixes the fields it consumed and the
payload ciphertext, which together are exactly `data`. -/
theorem transcript_mixes_message_fields :
    (∀ (st st' : HandshakeState) (p msg : Bytes), write_message D C H st p = .ok (msg, st') →
      ∃ m, st.pattern.message_patterns[st.message_index]? = some m ∧
      ∃ (fs : List Bytes) (ct : Bytes), msg = fs.flatten ++ ct ∧
        fs.map List.length = token_widths D.pub_len st.symmetric.has_key m ∧
        ct.length = p.length + tag_len (keyed_after st.symmetric.has_key m) ∧
        st'.symmetric.h = SymmetricState.mix_all H st.symmetric.h (fs ++ [ct])) ∧
    (∀ (st st' : HandshakeState) (data p : Bytes), read_message D C H st data = .ok (.ok p, st') →
      ∃ m, st.pattern.message_patterns[st.message_index]? = some m ∧
      ∃ (fs : List Bytes) (ct : Bytes), data = fs.flatten ++ ct ∧
        fs.map List.length = token_widths D.pub_len st.symmetric.has_key m ∧
        st'.symmetric.h = SymmetricState.mix_all H st.symmetric.h (fs ++ [ct])) := by
  refine ⟨fun st st' p msg h => ?_, fun st st' data p h => ?_⟩
  · obtain ⟨m, hm, fs, ct, hmsg, hw, hl, hh, -⟩ := write_message_spec D C H h
    exact ⟨m, hm, fs, ct, hmsg, hw, hl, hh⟩
  · obtain ⟨m, hm, fs, ct, hd, hw, hh, -⟩ := read_message_spec D C H h
    exact ⟨m, hm, fs, ct, hd, hw, hh⟩

/-! ## A failed read -/

/-- **A failed read.** When `read_message` returns `Err`, the message is counted all the
same (`message_index` moves on, so the turn passes and, after the last message,
`completed()` holds), the local keys, the role and the pattern are kept, and `re`, `rs`
and the symmetric state are those that reading the message's first `n` tokens left:
the token that failed, or a payload that did not decrypt, changed nothing. -/
theorem failed_read_leaves_prefix_state {st st' : HandshakeState} {data : Bytes}
    {err : NoiseError} (h : read_message D C H st data = .ok (.error err, st')) :
    st'.message_index = st.message_index + 1 ∧ st'.s = st.s ∧ st'.e = st.e ∧
      st'.is_initiator = st.is_initiator ∧ st'.pattern = st.pattern ∧
      ∃ m, st.pattern.message_patterns[st.message_index]? = some m ∧ ∃ n ≤ m.length, ∃ d',
        read_tokens D C H { st with message_index := st.message_index + 1 } data (m.take n)
          = .ok (.ok d', st') := by
  obtain ⟨m, hm, n, hn, d', hr⟩ := read_message_error D C H h
  obtain ⟨-, -, -, -, -, hf⟩ := read_tokens_spec D C H hr
  obtain ⟨hs, he, hi, hp, hidx⟩ := frame_eq_iff.1 hf
  exact ⟨hidx, hs, he, hi, hp, m, hm, n, hn, d', hr⟩

/-- The responder of `Noise_N`, just constructed, reads an empty message: `TooShort` at
the first token. And a `Noise_XX` initiator, after its first message, reads a reply whose
`E` field is whole but whose `S` field, encrypted under the key `EE` installed, does not
decrypt: `DecryptionFailed` after two tokens. -/
theorem failed_read_leaves_prefix_state_n_xx :
    (∃ r r' : HandshakeState,
      new toy_dh toy_cipher toy_hash HandshakePattern.noise_n false [] (some [1]) none none none
        = .ok r ∧
      read_message toy_dh toy_cipher toy_hash r [] = .ok (.error .TooShort, r') ∧
      r'.message_index = r.message_index + 1 ∧ r'.s = r.s ∧ r'.e = r.e ∧
      r'.is_initiator = r.is_initiator ∧ r'.pattern = r.pattern ∧
      ∃ m, r.pattern.message_patterns[r.message_index]? = some m ∧ ∃ n ≤ m.length, ∃ d',
        read_tokens toy_dh toy_cipher toy_hash { r with message_index := r.message_index + 1 }
          [] (m.take n) = .ok (.ok d', r')) ∧
    (∃ (i i1 i2 : HandshakeState) (msg : Bytes),
      new toy_dh toy_cipher toy_hash HandshakePattern.noise_xx true [] (some [2]) (some [3]) none
        none = .ok i ∧
      write_message toy_dh toy_cipher toy_hash i [] = .ok (msg, i1) ∧
      read_message toy_dh toy_cipher toy_hash i1 (5 :: List.replicate 17 1)
        = .ok (.error .DecryptionFailed, i2) ∧
      i2.symmetric.has_key = true ∧
      i2.message_index = i1.message_index + 1 ∧ i2.s = i1.s ∧ i2.e = i1.e ∧
      i2.is_initiator = i1.is_initiator ∧ i2.pattern = i1.pattern ∧
      ∃ m, i1.pattern.message_patterns[i1.message_index]? = some m ∧ ∃ n ≤ m.length, ∃ d',
        read_tokens toy_dh toy_cipher toy_hash { i1 with message_index := i1.message_index + 1 }
          (5 :: List.replicate 17 1) (m.take n) = .ok (.ok d', i2)) :=
  ⟨⟨_, _, rfl, rfl, failed_read_leaves_prefix_state toy_dh toy_cipher toy_hash rfl⟩,
    ⟨_, _, _, _, rfl, rfl, rfl, rfl, failed_read_leaves_prefix_state toy_dh toy_cipher toy_hash rfl⟩⟩

/-- A failed read is not without effect: the responder of `Noise_N`, just constructed,
reads an empty message, gets `TooShort`, and is left `completed()`. -/
theorem failed_read_completes_n :
    ∃ r r' : HandshakeState,
      new toy_dh toy_cipher toy_hash HandshakePattern.noise_n false [] (some [1]) none none none
        = .ok r ∧
      read_message toy_dh toy_cipher toy_hash r [] = .ok (.error .TooShort, r') ∧
      r'.message_index ≠ r.message_index ∧ r.completed = false ∧ r'.completed = true :=
  ⟨_, _, rfl, rfl, by decide, rfl, rfl⟩

end HandshakeState

end NoiseRust
