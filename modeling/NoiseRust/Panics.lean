/-
Where one party's handshake can panic.

`handshakestate.rs` panics through `Option::unwrap` (a missing key), the pre-message
`panic!`, `unreachable!()` in `perform_dh`, the turn `assert!`, indexing past the last
message pattern, and whatever the cipher's `decrypt` does with its input. For a party in
a reachable state of a valid pattern, the run invariants of `Reachable` rule out all but
the last: every DH token finds both keys, and a tokenised `S` field holds its tag.

`read_message_panics_only_on_short_payload` names the one input that reaches the cipher
unchecked. Once a DH token has keyed the cipher, the remainder after the token fields is
passed whole to `decrypt_and_hash_vec`, and from there to `Cipher::decrypt`, whatever its
length. Both wrappers of `crypto_wrapper.rs` compute `ciphertext.len() - 16` first, so a
remainder shorter than a tag panics there (`short_payload_panics`).

The write side has no such input: `write_message_total` gives the conditions under which
a write returns, and `new_returns_iff` those under which a construction does. `new` takes
only `S` in a pre-message: the `E` of a Noise pre-message reaches its `panic!`.

The last section is about the panics the code means to have: the turn `assert!`s.
`turn_discipline` says that they enforce alternation, whatever the primitives. A party
that writes or reads out of turn panics, as does any message after the last one.
-/
import NoiseRust.Reachable
import NoiseRust.Wrapper

set_option autoImplicit false

namespace NoiseRust

namespace HandshakeState

variable (D : DH) (C : Cipher) (H : Hash)

/-! ## The turn and the pattern -/

theorem write_turn_assert {st : HandshakeState}
    (h : initiator_sends st.message_index = st.is_initiator) :
    assert (st.message_index % 2 == if st.is_initiator then 0 else 1) = .ok () := by
  rw [assert_eq_ok]
  cases hi : st.is_initiator <;> simp [initiator_sends, hi] at h ⊢ <;> omega

theorem read_turn_assert {st : HandshakeState}
    (h : initiator_sends st.message_index = !st.is_initiator) :
    assert (st.message_index % 2 == if st.is_initiator then 1 else 0) = .ok () := by
  rw [assert_eq_ok]
  cases hi : st.is_initiator <;> simp [initiator_sends, hi] at h ⊢ <;> omega

/-- `write_message` from the turn check, the message pattern and the token loop. -/
theorem write_message_of_write_tokens {st st1 : HandshakeState} {m : List Token} {out : Bytes}
    (p : Bytes) (hturn : initiator_sends st.message_index = st.is_initiator)
    (hm : st.pattern.message_patterns[st.message_index]? = some m)
    (hw : write_tokens D C H { st with message_index := st.message_index + 1 } m = .ok (out, st1)) :
    write_message D C H st p = .ok (out ++ (st1.symmetric.encrypt_and_hash_vec C H p).1,
      { st1 with symmetric := (st1.symmetric.encrypt_and_hash_vec C H p).2 }) := by
  simp only [write_message, write_turn_assert hturn, index_eq_ok.2 hm, hw, ok_bind]
  rfl

/-- `read_message` from the turn check, the message pattern and the token loop: the
payload step that follows. -/
theorem read_message_of_read_tokens {st st1 : HandshakeState} {m : List Token} {data : Bytes}
    {r : Except NoiseError Bytes} (hturn : initiator_sends st.message_index = !st.is_initiator)
    (hm : st.pattern.message_patterns[st.message_index]? = some m)
    (hr : read_tokens D C H { st with message_index := st.message_index + 1 } data m
      = .ok (r, st1)) :
    read_message D C H st data = (match r with
      | .ok ct => do
        match ← st1.symmetric.decrypt_and_hash_vec C H ct with
        | some (payload, symmetric) => pure (.ok payload, { st1 with symmetric })
        | none => pure (.error .DecryptionFailed, st1)
      | .error err => pure (.error err, st1)) := by
  simp only [read_message, read_turn_assert hturn, index_eq_ok.2 hm, hr, ok_bind]
  rcases r <;> rfl

/-- A valid pattern's message `j` has every DH token after the keys it combines. -/
theorem tokens_ready_of_valid {pat : HandshakePattern} (hv : pat.valid = true) {j : Nat}
    {m : List Token} (hm : pat.message_patterns[j]? = some m) :
    tokens_ready (initiator_sends j) (pat.known_at j) m = true := by
  have hj := (List.getElem?_eq_some_iff.1 hm).1
  simp only [HandshakePattern.valid, Bool.and_eq_true, List.all_eq_true, List.mem_range] at hv
  simpa [List.getD_eq_getElem?_getD, hm] using hv.2 j hj

/-! ## One token, then the loops -/

/-- A read token does not panic once the keys a DH token combines are held: a short field
is `TooShort`, and an `S` field read keyed holds its tag. -/
theorem read_token_total {K : Known} {st : HandshakeState} {t : Token} (d : Bytes)
    (hk : Knows K st) (ht : t.ready K = true) : ∃ r, read_token D C H st d t = .ok r := by
  cases hdh : t.is_dh
  · cases t <;> simp [Token.is_dh] at hdh
    · exact ⟨_, rfl⟩
    · simp only [read_token]
      split
      · next temp rest hget =>
        obtain ⟨hl, htemp, -⟩ := get_eq_ok hget
        have hlen : st.symmetric.has_key = true → 16 ≤ temp.length := fun hkey => by
          simp [htemp, hkey] at hl ⊢
          omega
        obtain ⟨r, hr⟩ := SymmetricState.decrypt_and_hash_vec_total C H st.symmetric hlen
        rw [hr]
        rcases r with _ | ⟨rs, sym⟩ <;> exact ⟨_, rfl⟩
      · exact ⟨_, rfl⟩
  · obtain ⟨st', h⟩ := perform_dh_total D H hk ht hdh
    rw [read_token_of_is_dh D C H hdh, h]
    exact ⟨_, rfl⟩

/-- A written token does not panic once the keys a DH token combines are held, the
ephemeral key is there for `E` and the static key for `S`. -/
theorem write_token_total {K : Known} {st : HandshakeState} {t : Token} (hk : Knows K st)
    (ht : t.ready K = true) (he : t = .E → st.e.isSome) (hs : t = .S → st.s.isSome) :
    ∃ r, write_token D C H st t = .ok r := by
  cases hdh : t.is_dh
  · cases t <;> simp [Token.is_dh] at hdh
    · obtain ⟨k, hk'⟩ := Option.isSome_iff_exists.1 (he rfl)
      simp [write_token, hk']
    · obtain ⟨k, hk'⟩ := Option.isSome_iff_exists.1 (hs rfl)
      simp [write_token, hk']
  · obtain ⟨st', h⟩ := perform_dh_total D H hk ht hdh
    rw [write_token_of_is_dh D C H hdh, h]
    exact ⟨_, rfl⟩

theorem read_tokens_total {K : Known} {st : HandshakeState} {m : List Token} (d : Bytes)
    (hk : Knows K st) (hm : tokens_ready (!st.is_initiator) K m = true) :
    ∃ r, read_tokens D C H st d m = .ok r := by
  induction m generalizing K st d with
  | nil => exact ⟨_, rfl⟩
  | cons t m ih =>
    simp only [tokens_ready, Bool.and_eq_true] at hm
    obtain ⟨r, hr⟩ := read_token_total D C H d hk hm.1
    rcases r with err | ⟨d1, st1⟩
    · exact ⟨(.error err, st), by simp [read_tokens, hr]⟩
    · obtain ⟨-, -, -, -, -, hf⟩ := read_token_spec D C H hr
      obtain ⟨-, -, hi, -⟩ := frame_eq_iff.1 hf
      obtain ⟨r', hr'⟩ := ih d1 (read_token_knows D C H hr hk) (hi ▸ hm.2)
      exact ⟨r', by simp [read_tokens, hr, hr']⟩

theorem write_tokens_total {K : Known} {st : HandshakeState} {m : List Token} (hk : Knows K st)
    (hm : tokens_ready st.is_initiator K m = true) (he : .E ∈ m → st.e.isSome)
    (hs : .S ∈ m → st.s.isSome) : ∃ r, write_tokens D C H st m = .ok r := by
  induction m generalizing K st with
  | nil => exact ⟨_, rfl⟩
  | cons t m ih =>
    simp only [tokens_ready, Bool.and_eq_true] at hm
    obtain ⟨⟨f, st1⟩, hr⟩ := write_token_total D C H hk hm.1 (fun h => he (h ▸ List.mem_cons_self _ _))
      (fun h => hs (h ▸ List.mem_cons_self _ _))
    obtain ⟨-, -, -, -, -, hf⟩ := write_token_spec D C H hr
    obtain ⟨hs1, he1, hi1, -⟩ := frame_eq_iff.1 hf
    obtain ⟨⟨rest, st2⟩, hr'⟩ := ih (write_token_knows D C H hr hk) (hi1 ▸ hm.2)
      (fun h => he1 ▸ he (List.mem_cons_of_mem _ h))
      (fun h => hs1 ▸ hs (List.mem_cons_of_mem _ h))
    exact ⟨(f ++ rest, st2), by simp [write_tokens, hr, hr']⟩

/-! ## Whole messages -/

/-- **Where a read can panic.** From a reachable state of a valid pattern, at the reader's
turn and before the last message, `read_message` returns for every `data`, except where
`data` is the message's token fields followed by fewer than 16 bytes while the cipher is
keyed: that remainder goes to `Cipher::decrypt` unchecked. -/
theorem read_message_panics_only_on_short_payload {st : HandshakeState} (hr : Reachable D C H st)
    (hv : st.pattern.valid = true) (hturn : initiator_sends st.message_index = !st.is_initiator)
    (hidx : st.message_index < st.pattern.message_patterns.length) (data : Bytes) :
    (∃ r, read_message D C H st data = .ok r) ∨
    ∃ m, st.pattern.message_patterns[st.message_index]? = some m ∧
      ∃ (fs : List Bytes) (ct : Bytes), data = fs.flatten ++ ct ∧
        fs.map List.length = token_widths D.pub_len st.symmetric.has_key m ∧
        keyed_after st.symmetric.has_key m = true ∧ ct.length < 16 := by
  obtain ⟨m, hm⟩ : ∃ m, st.pattern.message_patterns[st.message_index]? = some m :=
    ⟨_, List.getElem?_eq_getElem hidx⟩
  have hk : Knows (st.pattern.known_at st.message_index)
      { st with message_index := st.message_index + 1 } :=
    have hk0 := Reachable.knows D C H hr
    ⟨hk0.1, hk0.2, hk0.3, hk0.4⟩
  obtain ⟨⟨r, st1⟩, hrt⟩ := read_tokens_total D C H data hk (hturn ▸ tokens_ready_of_valid hv hm)
  have hread := read_message_of_read_tokens D C H hturn hm hrt
  rcases r with err | ct
  · exact .inl ⟨_, hread⟩
  obtain ⟨fs, rfl, hw, -, hk', -⟩ := read_tokens_spec D C H hrt
  by_cases hshort : keyed_after st.symmetric.has_key m = true ∧ ct.length < 16
  · exact .inr ⟨m, hm, fs, ct, rfl, hw, hshort⟩
  · have hlen : st1.symmetric.has_key = true → 16 ≤ ct.length := fun h1 => by
      rw [hk'] at h1
      by_contra hc
      exact hshort ⟨h1, by omega⟩
    obtain ⟨o, ho⟩ := SymmetricState.decrypt_and_hash_vec_total C H st1.symmetric hlen
    rw [hread]
    rcases o with _ | ⟨q, sym⟩
    · exact .inl ⟨(.error .DecryptionFailed, st1), by simp [ho]⟩
    · exact .inl ⟨(.ok q, { st1 with symmetric := sym }), by simp [ho]⟩

/-- A write does not panic from a reachable state of a valid pattern at the writer's turn,
when the writer holds the ephemeral key if the message has `E` and the static key if it
has `S`. -/
theorem write_message_total {st : HandshakeState} (hr : Reachable D C H st)
    (hv : st.pattern.valid = true) (hturn : initiator_sends st.message_index = st.is_initiator)
    {m : List Token} (hm : st.pattern.message_patterns[st.message_index]? = some m)
    (he : .E ∈ m → st.e.isSome) (hs : .S ∈ m → st.s.isSome) (p : Bytes) :
    ∃ r, write_message D C H st p = .ok r := by
  have hk : Knows (st.pattern.known_at st.message_index)
      { st with message_index := st.message_index + 1 } :=
    have hk0 := Reachable.knows D C H hr
    ⟨hk0.1, hk0.2, hk0.3, hk0.4⟩
  obtain ⟨⟨out, st1⟩, hw⟩ := write_tokens_total D C H hk (hturn ▸ tokens_ready_of_valid hv hm) he hs
  exact ⟨_, write_message_of_write_tokens D C H p hturn hm hw⟩

theorem mix_pre_message_total {ours : Bool} {s rs : Option Bytes} (sym : SymmetricState)
    {l : List Token} (hl : l.all (· == .S) = true)
    (hk : l.contains .S = true → (if ours then s else rs).isSome) :
    ∃ sym', mix_pre_message D H ours s rs sym l = .ok sym' := by
  induction l generalizing sym with
  | nil => exact ⟨_, rfl⟩
  | cons t l ih =>
    simp only [List.all_cons, Bool.and_eq_true, beq_iff_eq] at hl
    obtain ⟨rfl, hl⟩ := hl
    obtain ⟨k, hk'⟩ := Option.isSome_iff_exists.1 (hk (by simp))
    obtain ⟨sym', h⟩ := ih (sym.mix_hash H (if ours then D.get_pubkey_vec k else k)) hl
      (fun h => hk (by simp [h]))
    refine ⟨sym', ?_⟩
    cases ours <;> simp only [if_true, if_false, Bool.false_eq_true] at hk' h <;> subst hk' <;>
      simp only [mix_pre_message, if_true, if_false, Bool.false_eq_true, unwrap_some, ok_bind,
        pure_eq_ok, h]

/-- `new` returns when both pre-messages hold `S` tokens alone and the static key of each
pre-message that has one is supplied: our own as `s`, the peer's as `rs`. -/
theorem new_total_of_pre {pattern : HandshakePattern} (is_initiator : Bool) (prologue : Bytes)
    (s e rs re : Option Bytes) (hi : pattern.pre_i.all (· == .S) = true)
    (hr : pattern.pre_r.all (· == .S) = true)
    (hs : (pattern.pre_message is_initiator).contains .S = true → s.isSome)
    (hrs : (pattern.pre_message (!is_initiator)).contains .S = true → rs.isSome) :
    ∃ st, new D C H pattern is_initiator prologue s e rs re = .ok st := by
  have hk1 : pattern.pre_i.contains .S = true → (if is_initiator then s else rs).isSome := by
    cases is_initiator <;> simp_all [HandshakePattern.pre_message]
  have hk2 : pattern.pre_r.contains .S = true → (if !is_initiator then s else rs).isSome := by
    cases is_initiator <;> simp_all [HandshakePattern.pre_message]
  obtain ⟨sym1, h1⟩ := mix_pre_message_total D H ((SymmetricState.new H
    (as_bytes (get_name D C H pattern))).mix_hash H prologue) hi hk1
  obtain ⟨sym2, h2⟩ := mix_pre_message_total D H sym1 hr hk2
  exact ⟨_, by simp only [new, h1, h2, ok_bind]; rfl⟩

/-- `new` does not panic on a valid pattern when the static key of each pre-message that
has one is supplied. -/
theorem new_total {pattern : HandshakePattern} (is_initiator : Bool) (prologue : Bytes)
    (s e rs re : Option Bytes) (hv : pattern.valid = true)
    (hs : (pattern.pre_message is_initiator).contains .S = true → s.isSome)
    (hrs : (pattern.pre_message (!is_initiator)).contains .S = true → rs.isSome) :
    ∃ st, new D C H pattern is_initiator prologue s e rs re = .ok st := by
  simp only [HandshakePattern.valid, Bool.and_eq_true] at hv
  exact new_total_of_pre D C H is_initiator prologue s e rs re hv.1.1 hv.1.2 hs hrs

example : new toy_dh toy_cipher toy_hash ⟨"E", [.E], [], [[.S]]⟩ true [] none (some [1])
    none none = .error .unexpected_pre_token := rfl

/-! ## The unchecked remainder -/

/-- Noise_NN: after the initiator's first message, a reply that is the responder's
ephemeral public key and nothing after it keys the cipher on `EE` and reaches
`Cipher::decrypt` with an empty ciphertext. -/
theorem nn_reply_without_tag {e : Panic} (hC : ∀ k n ad, C.decrypt k n ad [] = .error e)
    (prologue e_key p re : Bytes) :
    ∃ st msg st', new D C H HandshakePattern.noise_nn true prologue none (some e_key) none none
        = .ok st ∧ write_message D C H st p = .ok (msg, st') ∧
      read_message D C H st' (D.get_pubkey_vec re) = .error e := by
  have hv : HandshakePattern.noise_nn.valid = true := by decide
  obtain ⟨st, hst⟩ := new_total D C H true prologue none (some e_key) none none hv (by decide)
    (by decide)
  obtain ⟨-, hi0, hp0, hr0, -, he0, -⟩ := new_spec D C H hst
  have hm0 : st.pattern.message_patterns[st.message_index]? = some [.E] := by rw [hi0, hp0]; rfl
  obtain ⟨⟨msg, st'⟩, hw⟩ := write_message_total D C H (Reachable.new hst) (hp0 ▸ hv)
    (by rw [hi0, hr0]; rfl) hm0 (fun _ => by simp [he0]) (by simp) p
  obtain ⟨-, he1, hr1, hp1, hi1⟩ := write_message_frame D C H hw
  refine ⟨st, msg, st', hst, hw, ?_⟩
  have hl : (D.get_pubkey_vec re).length = D.pub_len := D.get_pubkey_vec_length re
  have ht : (D.get_pubkey_vec re).take D.pub_len = D.get_pubkey_vec re := by
    rw [← hl, List.take_length]
  have hd : (D.get_pubkey_vec re).drop D.pub_len = [] := by rw [← hl, List.drop_length]
  simp [read_message, hi1, hr1, hp1, he1, hi0, hr0, hp0, he0, HandshakePattern.noise_nn, index,
    read_tokens, read_token, HandshakeState.get, hl, ht, hd, perform_dh, dh_with,
    SymmetricState.decrypt_and_hash_vec_error C H (SymmetricState.mix_key_has_key H _ _) hC]

/-- **A keyed payload shorter than a tag panics.** With either wrapper of
`crypto_wrapper.rs` as the cipher, for every DH, hash, prologue, key and payload: the
Noise_NN initiator, after its first message, given a reply that is the responder's
ephemeral public key and nothing more, keys the cipher on `EE` and hands the empty
remainder to `decrypt`, which panics computing `0 - 16`. -/
theorem short_payload_panics (P : ChaChaPoly) (A : AesGcm) (prologue e p re : Bytes) :
    (∃ st msg st', new D (ChaCha20Poly1305.cipher P) H HandshakePattern.noise_nn true prologue
        none (some e) none none = .ok st ∧
      write_message D (ChaCha20Poly1305.cipher P) H st p = .ok (msg, st') ∧
      read_message D (ChaCha20Poly1305.cipher P) H st' (D.get_pubkey_vec re) = .error .sub_overflow) ∧
    (∃ st msg st', new D (Aes256Gcm.cipher A) H HandshakePattern.noise_nn true prologue
        none (some e) none none = .ok st ∧
      write_message D (Aes256Gcm.cipher A) H st p = .ok (msg, st') ∧
      read_message D (Aes256Gcm.cipher A) H st' (D.get_pubkey_vec re) = .error .sub_overflow) :=
  ⟨nn_reply_without_tag D _ H (fun k n ad => ChaCha20Poly1305.cipher_decrypt_of_lt P k n ad []
      (by decide)) prologue e p re,
    nn_reply_without_tag D _ H (fun k n ad => Aes256Gcm.cipher_decrypt_of_lt A k n ad []
      (by decide)) prologue e p re⟩

/-! ## The turn -/

/-- Writing out of turn is the turn `assert!` failing. -/
theorem write_message_out_of_turn {st : HandshakeState}
    (h : initiator_sends st.message_index ≠ st.is_initiator) (p : Bytes) :
    write_message D C H st p = .error .assert_failed := by
  have ha : (st.message_index % 2 == if st.is_initiator then 0 else 1) = false := by
    cases hi : st.is_initiator <;> simp [initiator_sends, hi] at h ⊢ <;> omega
  simp [write_message, ha, assert]

/-- Reading out of turn is the turn `assert!` failing. -/
theorem read_message_out_of_turn {st : HandshakeState}
    (h : initiator_sends st.message_index = st.is_initiator) (data : Bytes) :
    read_message D C H st data = .error .assert_failed := by
  have ha : (st.message_index % 2 == if st.is_initiator then 1 else 0) = false := by
    cases hi : st.is_initiator <;> simp [initiator_sends, hi] at h ⊢ <;> omega
  simp [read_message, ha, assert]

theorem initiator_sends_succ (j : Nat) : initiator_sends (j + 1) = !initiator_sends j := by
  simp only [initiator_sends, beq_iff_eq]
  cases Nat.mod_two_eq_zero_or_one j <;> simp [Nat.add_mod, *]

theorem index_of_completed {st : HandshakeState} (hc : st.completed = true) :
    st.message_index = st.pattern.message_patterns.length := by
  simpa [completed] using hc

/-- Past the last message, in turn or not, a write panics. -/
theorem write_message_past_end {st : HandshakeState}
    (h : st.pattern.message_patterns.length ≤ st.message_index) (p : Bytes) :
    ∃ e, write_message D C H st p = .error e := by
  by_cases ht : initiator_sends st.message_index = st.is_initiator
  · refine ⟨.index_out_of_bounds, ?_⟩
    simp [write_message, write_turn_assert ht, index, List.getElem?_eq_none h]
  · exact ⟨_, write_message_out_of_turn D C H ht p⟩

/-- Past the last message, in turn or not, a read panics. -/
theorem read_message_past_end {st : HandshakeState}
    (h : st.pattern.message_patterns.length ≤ st.message_index) (data : Bytes) :
    ∃ e, read_message D C H st data = .error e := by
  by_cases ht : initiator_sends st.message_index = st.is_initiator
  · exact ⟨_, read_message_out_of_turn D C H ht data⟩
  · refine ⟨.index_out_of_bounds, ?_⟩
    have ht' : initiator_sends st.message_index = !st.is_initiator := by
      cases hi : st.is_initiator <;> simp_all
    simp [read_message, read_turn_assert ht', index, List.getElem?_eq_none h]

/-- After a returned write, the same party's next write is out of turn. -/
theorem write_message_then_write {st st' : HandshakeState} {p msg : Bytes}
    (hw : write_message D C H st p = .ok (msg, st')) (p' : Bytes) :
    write_message D C H st' p' = .error .assert_failed := by
  obtain ⟨-, -, hi, -, hidx⟩ := write_message_frame D C H hw
  apply write_message_out_of_turn
  rw [hidx, hi, initiator_sends_succ, (write_message_inv D C H hw).1]
  cases st.is_initiator <;> decide

/-- After a returned read, `Ok` or `Err`, the same party's next read is out of turn. -/
theorem read_message_then_read {st st' : HandshakeState} {data : Bytes}
    {r : Except NoiseError Bytes} (hr : read_message D C H st data = .ok (r, st'))
    (data' : Bytes) : read_message D C H st' data' = .error .assert_failed := by
  obtain ⟨-, -, hi, -, hidx⟩ := read_message_frame D C H hr
  apply read_message_out_of_turn
  rw [hidx, hi, initiator_sends_succ, read_message_turn D C H hr, Bool.not_not]

/-- Of two parties at the same message with opposite roles, once one side's write returns
the other side's write is out of turn. -/
theorem write_message_excludes_peer {a b a' : HandshakeState} {p msg : Bytes}
    (hidx : b.message_index = a.message_index) (hrole : b.is_initiator = !a.is_initiator)
    (hw : write_message D C H a p = .ok (msg, a')) (p' : Bytes) :
    write_message D C H b p' = .error .assert_failed := by
  apply write_message_out_of_turn
  rw [hidx, (write_message_inv D C H hw).1, hrole]
  cases a.is_initiator <;> decide

/-- **The turn is enforced.** Whatever the primitives: a party that writes out of turn, or
reads out of turn, panics on the turn `assert!`; so after a returned write the same party
cannot write again, and after a returned read (an `Ok` or an `Err`) it cannot read again,
before the other operation; and once `completed()` holds, every write and every read
panics. -/
theorem turn_discipline :
    (∀ st p, initiator_sends st.message_index ≠ st.is_initiator →
      write_message D C H st p = .error .assert_failed) ∧
    (∀ st data, initiator_sends st.message_index = st.is_initiator →
      read_message D C H st data = .error .assert_failed) ∧
    (∀ st p msg st', write_message D C H st p = .ok (msg, st') →
      ∀ p', write_message D C H st' p' = .error .assert_failed) ∧
    (∀ st data r st', read_message D C H st data = .ok (r, st') →
      ∀ data', read_message D C H st' data' = .error .assert_failed) ∧
    (∀ st, st.completed = true →
      (∀ p, ∃ e, write_message D C H st p = .error e) ∧
      (∀ data, ∃ e, read_message D C H st data = .error e)) := by
  refine ⟨fun st p h => write_message_out_of_turn D C H h p,
    fun st data h => read_message_out_of_turn D C H h data,
    fun st p msg st' hw p' => write_message_then_write D C H hw p',
    fun st data r st' hr data' => read_message_then_read D C H hr data', fun st hc => ?_⟩
  have hle := (index_of_completed hc).ge
  exact ⟨write_message_past_end D C H hle, read_message_past_end D C H hle⟩

end HandshakeState

end NoiseRust
