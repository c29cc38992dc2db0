/-
The states one party can reach, and the two invariants every such state keeps.

A party is `Reachable` from a state `new` returned by calls that all returned: writes,
and reads that returned `Ok` (after an `Err` the spec says the state must not be used
again). Over every such run:

* `has_key_reachable`: the cipher is keyed exactly when a DH token occurs in a message
  already processed, since `new` installs no key and only a DH token installs one;
* `knows_reachable`: every public key the run has introduced is held, by its owner as a
  private key (`e`, `s`) and by the peer as a remote key (`re`, `rs`). This is what keeps
  the `unwrap`s of `perform_dh` from failing.

Both are proved by the same induction over the run, each step one of the message lemmas.
The first gives the wire-length formula of a message (`message_length_formula`).
-/
import NoiseRust.Message

set_option autoImplicit false

namespace NoiseRust

namespace HandshakeState

variable (D : DH) (C : Cipher) (H : Hash)

/-- The states a party reaches: `new` returned it, then every write and every read it made
returned, the reads with `Ok`. -/
inductive Reachable : HandshakeState → Prop
  | new {pattern : HandshakePattern} {is_initiator : Bool} {prologue : Bytes}
      {s e rs re : Option Bytes} {st : HandshakeState} :
      HandshakeState.new D C H pattern is_initiator prologue s e rs re = .ok st → Reachable st
  | write {st st' : HandshakeState} {p msg : Bytes} :
      Reachable st → write_message D C H st p = .ok (msg, st') → Reachable st'
  | read {st st' : HandshakeState} {data p : Bytes} :
      Reachable st → read_message D C H st data = .ok (.ok p, st') → Reachable st'

/-- What a party holds of the keys `K` introduced: its own as private keys, the peer's as
remote public keys. -/
structure Knows (K : Known) (st : HandshakeState) : Prop where
  e : K.ephemeral st.is_initiator = true → st.e.isSome
  s : K.static st.is_initiator = true → st.s.isSome
  re : K.ephemeral (!st.is_initiator) = true → st.re.isSome
  rs : K.static (!st.is_initiator) = true → st.rs.isSome

/-! ## `new` -/

/-- A pre-message loop that returns keeps the key absent and has found the static key it
mixed. -/
theorem mix_pre_message_spec {ours : Bool} {s rs : Option Bytes} {sym sym' : SymmetricState}
    {l : List Token} (h : mix_pre_message D H ours s rs sym l = .ok sym') :
    sym'.has_key = sym.has_key ∧ (l.contains .S = true → (if ours then s else rs).isSome) := by
  induction l generalizing sym with
  | nil =>
    simp only [mix_pre_message, pure_eq_ok, Except.ok.injEq] at h
    exact ⟨h ▸ rfl, by simp⟩
  | cons t l ih =>
    cases t <;> simp only [mix_pre_message, reduceCtorEq] at h
    cases ours <;> simp only [Bool.false_eq_true, if_false, if_true] at h <;>
      obtain ⟨pk, hpk, h⟩ := bind_eq_ok.1 h <;> refine ⟨by simp [(ih h).1], fun _ => ?_⟩
    · simp [unwrap_eq_ok.1 hpk]
    · obtain ⟨k, hk, -⟩ := bind_eq_ok.1 hpk
      simp [unwrap_eq_ok.1 hk]

/-- `new`: no key yet, message `0`, the arguments stored, and the static keys of both
pre-messages held. -/
theorem new_spec {pattern : HandshakePattern} {is_initiator : Bool} {prologue : Bytes}
    {s e rs re : Option Bytes} {st : HandshakeState}
    (h : new D C H pattern is_initiator prologue s e rs re = .ok st) :
    st.symmetric.has_key = false ∧ st.message_index = 0 ∧ st.pattern = pattern ∧
      st.is_initiator = is_initiator ∧ st.s = s ∧ st.e = e ∧ Knows pattern.pre_known st := by
  simp only [new, bind_eq_ok, pure_eq_ok, Except.ok.injEq] at h
  obtain ⟨sym1, h1, sym2, h2, rfl⟩ := h
  obtain ⟨hk1, hs1⟩ := mix_pre_message_spec D H h1
  obtain ⟨hk2, hs2⟩ := mix_pre_message_spec D H h2
  refine ⟨by simp [hk2, hk1], rfl, rfl, rfl, rfl, rfl, ?_⟩
  constructor <;> cases is_initiator <;>
    simp_all [HandshakePattern.pre_known, Known.ephemeral, Known.static]

/-! ## One token at a time -/

/-- The private key and the remote public key `perform_dh` combines for a DH token. -/
def dh_operands (st : HandshakeState) : Token → Option Bytes × Option Bytes
  | .EE => (st.e, st.re)
  | .ES => if st.is_initiator then (st.e, st.rs) else (st.s, st.re)
  | .SE => if st.is_initiator then (st.s, st.re) else (st.e, st.rs)
  | .SS => (st.s, st.rs)
  | _ => (none, none)

/-- `perform_dh` on a DH token is `dh_vec` of its operands, mixed into the key. -/
theorem perform_dh_eq {t : Token} (ht : t.is_dh = true) (st : HandshakeState) :
    perform_dh D H st t = dh_with D (dh_operands st t).1 (dh_operands st t).2 >>=
      fun k => pure { st with symmetric := st.symmetric.mix_key H k } := by
  cases t <;> simp [Token.is_dh] at ht <;> simp only [perform_dh, dh_operands] <;>
    cases st.is_initiator <;> rfl

/-- A DH token whose keys have been introduced finds both its operands. -/
theorem dh_operands_some {K : Known} {st : HandshakeState} {t : Token} (hk : Knows K st)
    (ht : t.ready K = true) (hdh : t.is_dh = true) :
    ∃ k pk, dh_operands st t = (some k, some pk) := by
  suffices h : (dh_operands st t).1.isSome ∧ (dh_operands st t).2.isSome by
    obtain ⟨k, hk⟩ := Option.isSome_iff_exists.1 h.1
    obtain ⟨pk, hpk⟩ := Option.isSome_iff_exists.1 h.2
    exact ⟨k, pk, Prod.ext hk hpk⟩
  obtain ⟨he, hs, hre, hrs⟩ := hk
  cases t <;> simp [Token.is_dh] at hdh <;> cases hi : st.is_initiator <;>
    simp_all [Token.ready, dh_operands, Known.ephemeral, Known.static]

theorem perform_dh_total {K : Known} {st : HandshakeState} {t : Token} (hk : Knows K st)
    (ht : t.ready K = true) (hdh : t.is_dh = true) : ∃ st', perform_dh D H st t = .ok st' := by
  obtain ⟨k, pk, hkp⟩ := dh_operands_some hk ht hdh
  exact ⟨_, by rw [perform_dh_eq D H hdh, hkp]; rfl⟩

theorem Known.add_of_is_dh {t : Token} (ht : t.is_dh = true) (K : Known) (sender : Bool) :
    K.add sender t = K := by
  cases t <;> first | rfl | simp [Token.is_dh] at ht

/-- Sending a token keeps what a party holds and adds the party's own key the token
introduces. -/
theorem Knows.add_own {K : Known} {st st' : HandshakeState} {t : Token} (hk : Knows K st)
    (hf : (st'.is_initiator, st'.s, st'.e, st'.rs, st'.re) =
      (st.is_initiator, st.s, st.e, st.rs, st.re))
    (hE : t = .E → st.e.isSome) (hS : t = .S → st.s.isSome) :
    Knows (K.add st.is_initiator t) st' := by
  simp only [Prod.mk.injEq] at hf
  obtain ⟨hi, hs, he, hrs, hre⟩ := hf
  refine ⟨fun h => ?_, fun h => ?_, fun h => ?_, fun h => ?_⟩ <;>
    simp only [hi, hs, he, hrs, hre, Known.ephemeral_add, Known.static_add, Bool.or_eq_true,
      Bool.and_eq_true, beq_iff_eq] at h ⊢
  · exact h.elim hk.e fun h => hE h.1
  · exact h.elim hk.s fun h => hS h.1
  · exact h.elim hk.re fun h => by cases st.is_initiator <;> simp at h
  · exact h.elim hk.rs fun h => by cases st.is_initiator <;> simp at h

/-- Receiving a token keeps what a party holds and adds the peer's key the token
introduces. -/
theorem Knows.add_peer {K : Known} {st st' : HandshakeState} {t : Token} (hk : Knows K st)
    (hf : (st'.is_initiator, st'.s, st'.e) = (st.is_initiator, st.s, st.e))
    (hre : st.re.isSome → st'.re.isSome) (hrs : st.rs.isSome → st'.rs.isSome)
    (hE : t = .E → st'.re.isSome) (hS : t = .S → st'.rs.isSome) :
    Knows (K.add (!st.is_initiator) t) st' := by
  simp only [Prod.mk.injEq] at hf
  obtain ⟨hi, hs, he⟩ := hf
  refine ⟨fun h => ?_, fun h => ?_, fun h => ?_, fun h => ?_⟩ <;>
    simp only [hi, hs, he, Known.ephemeral_add, Known.static_add, Bool.or_eq_true,
      Bool.and_eq_true, beq_iff_eq] at h ⊢
  · exact h.elim hk.e fun h => by cases st.is_initiator <;> simp at h
  · exact h.elim hk.s fun h => by cases st.is_initiator <;> simp at h
  · exact h.elim (hre ∘ hk.re) fun h => hE h.1
  · exact h.elim (hrs ∘ hk.rs) fun h => hS h.1

/-- A written token adds what it introduces to what the writer holds. -/
theorem write_token_knows {K : Known} {st st' : HandshakeState} {t : Token} {f : Bytes}
    (h : write_token D C H st t = .ok (f, st')) (hk : Knows K st) :
    Knows (K.add st.is_initiator t) st' := by
  cases ht : t.is_dh
  · cases t <;> simp [Token.is_dh] at ht
    · rcases hse : st.e with _ | k <;> simp [write_token, hse] at h
      obtain ⟨-, rfl⟩ := h
      exact hk.add_own (by simp [hse]) (fun _ => by simp [hse]) (by simp)
    · rcases hss : st.s with _ | k <;> simp [write_token, hss] at h
      obtain ⟨-, rfl⟩ := h
      exact hk.add_own (by simp [hss]) (by simp) (fun _ => by simp [hss])
  · rw [write_token_of_is_dh D C H ht] at h
    obtain ⟨st'', hdh, h⟩ := bind_eq_ok.1 h
    simp only [pure_eq_ok, Except.ok.injEq, Prod.mk.injEq] at h
    obtain ⟨-, rfl⟩ := h
    obtain ⟨-, k, rfl⟩ := perform_dh_ok D H hdh
    rw [Known.add_of_is_dh ht]
    exact ⟨hk.1, hk.2, hk.3, hk.4⟩

/-- A read token adds what it introduces, the peer's key, to what the reader holds. -/
theorem read_token_knows {K : Known} {st st' : HandshakeState} {t : Token} {d d' : Bytes}
    (h : read_token D C H st d t = .ok (.ok (d', st'))) (hk : Knows K st) :
    Knows (K.add (!st.is_initiator) t) st' := by
  cases ht : t.is_dh
  · cases t <;> simp [Token.is_dh] at ht
    · by_cases hl : D.pub_len ≤ d.length
      · simp only [read_token, get_of_le hl, pure_eq_ok, Except.ok.injEq, Prod.mk.injEq] at h
        obtain ⟨-, rfl⟩ := h
        exact hk.add_peer rfl (by simp) id (by simp) (by simp)
      · simp [read_token, get_of_lt (not_le.1 hl)] at h
    · simp only [read_token] at h
      split at h
      · obtain ⟨o, -, h⟩ := bind_eq_ok.1 h
        rcases o with _ | ⟨rs, sym⟩ <;> simp only [pure_eq_ok, Except.ok.injEq, reduceCtorEq,
          Prod.mk.injEq] at h
        obtain ⟨-, rfl⟩ := h
        exact hk.add_peer rfl id (by simp) (by simp) (by simp)
      · simp at h
  · rw [read_token_of_is_dh D C H ht] at h
    obtain ⟨st'', hdh, h⟩ := bind_eq_ok.1 h
    simp only [pure_eq_ok, Except.ok.injEq, Prod.mk.injEq] at h
    obtain ⟨-, rfl⟩ := h
    obtain ⟨-, k, rfl⟩ := perform_dh_ok D H hdh
    rw [Known.add_of_is_dh ht]
    exact ⟨hk.1, hk.2, hk.3, hk.4⟩

/-! ## The token loops and whole messages -/

theorem write_tokens_knows {K : Known} {st st' : HandshakeState} {m : List Token} {out : Bytes}
    (h : write_tokens D C H st m = .ok (out, st')) (hk : Knows K st) :
    Knows (K.add_all st.is_initiator m) st' := by
  induction m generalizing st K out with
  | nil =>
    simp only [write_tokens, pure_eq_ok, Except.ok.injEq, Prod.mk.injEq] at h
    exact h.2 ▸ hk
  | cons t m ih =>
    obtain ⟨f, st1, rest, h1, h2, -⟩ := write_tokens_cons D C H h
    obtain ⟨-, -, -, -, -, hf⟩ := write_token_spec D C H h1
    obtain ⟨-, -, hi, -⟩ := frame_eq_iff.1 hf
    have := ih h2 (write_token_knows D C H h1 hk)
    rwa [hi] at this

theorem read_tokens_knows {K : Known} {st st' : HandshakeState} {m : List Token} {d d' : Bytes}
    (h : read_tokens D C H st d m = .ok (.ok d', st')) (hk : Knows K st) :
    Knows (K.add_all (!st.is_initiator) m) st' := by
  induction m generalizing st K d with
  | nil =>
    simp only [read_tokens, pure_eq_ok, Except.ok.injEq, Prod.mk.injEq] at h
    exact h.2 ▸ hk
  | cons t m ih =>
    obtain ⟨d1, st1, h1, h2⟩ := read_tokens_cons D C H h
    obtain ⟨-, -, -, -, -, hf⟩ := read_token_spec D C H h1
    obtain ⟨-, -, hi, -⟩ := frame_eq_iff.1 hf
    have := ih h2 (read_token_knows D C H h1 hk)
    rwa [hi] at this

/-- After a written message the writer holds what the pattern has introduced up to the
next message. -/
theorem write_message_knows {st st' : HandshakeState} {p msg : Bytes}
    (h : write_message D C H st p = .ok (msg, st'))
    (hk : Knows (st.pattern.known_at st.message_index) st) :
    Knows (st'.pattern.known_at st'.message_index) st' := by
  obtain ⟨hturn, m, hm, out, st1, h1, -, rfl⟩ := write_message_inv D C H h
  obtain ⟨-, -, -, -, -, hf⟩ := write_tokens_spec D C H h1
  have := write_tokens_knows D C H h1 (K := st.pattern.known_at st.message_index)
    ⟨hk.1, hk.2, hk.3, hk.4⟩
  simp only [frame_eq_iff] at hf
  obtain ⟨-, -, -, hp, hi⟩ := hf
  rw [← hturn, ← st.pattern.known_at_succ hm, ← hp, ← hi] at this
  exact ⟨this.1, this.2, this.3, this.4⟩

/-- After a message read with `Ok` the reader holds what the pattern has introduced up to
the next message. -/
theorem read_message_knows {st st' : HandshakeState} {data p : Bytes}
    (h : read_message D C H st data = .ok (.ok p, st'))
    (hk : Knows (st.pattern.known_at st.message_index) st) :
    Knows (st'.pattern.known_at st'.message_index) st' := by
  have hturn := read_message_turn D C H h
  obtain ⟨m, hm, d, st1, sym, h1, -, rfl⟩ := read_message_ok_inv D C H h
  obtain ⟨-, -, -, -, -, hf⟩ := read_tokens_spec D C H h1
  have := read_tokens_knows D C H h1 (K := st.pattern.known_at st.message_index)
    ⟨hk.1, hk.2, hk.3, hk.4⟩
  simp only [frame_eq_iff] at hf
  obtain ⟨-, -, -, hp, hi⟩ := hf
  rw [← hturn, ← st.pattern.known_at_succ hm, ← hp, ← hi] at this
  exact ⟨this.1, this.2, this.3, this.4⟩

theorem message_has_key {st st' : HandshakeState} {m : List Token}
    (hm : st.pattern.message_patterns[st.message_index]? = some m)
    (hk' : st'.symmetric.has_key = keyed_after st.symmetric.has_key m)
    (hf : st'.frame = { st with message_index := st.message_index + 1 }.frame)
    (hk : st.symmetric.has_key = st.pattern.dh_before st.message_index) :
    st'.symmetric.has_key = st'.pattern.dh_before st'.message_index := by
  simp only [frame_eq_iff] at hf
  rw [hk', hf.2.2.2.1, hf.2.2.2.2, st.pattern.dh_before_succ hm, hk, keyed_after]

/-! ## Over a whole run -/

/-- **The cipher is keyed exactly after a DH token.** In every reachable state `has_key`
holds exactly when some message already processed holds a DH token. -/
theorem Reachable.has_key_eq {st : HandshakeState} (h : Reachable D C H st) :
    st.symmetric.has_key = st.pattern.dh_before st.message_index := by
  induction h with
  | new h =>
    obtain ⟨hk, hi, -⟩ := new_spec D C H h
    simp [hk, hi, HandshakePattern.dh_before]
  | write _ h ih =>
    obtain ⟨m, hm, -, -, -, -, -, -, hk', hf⟩ := write_message_spec D C H h
    exact message_has_key hm hk' hf ih
  | read _ h ih =>
    obtain ⟨m, hm, -, -, -, -, -, hk', hf⟩ := read_message_spec D C H h
    exact message_has_key hm hk' hf ih

/-- **Every introduced key is held.** In every reachable state the party holds the private
keys of its own introduced public keys, and the peer's introduced public keys. -/
theorem Reachable.knows {st : HandshakeState} (h : Reachable D C H st) :
    Knows (st.pattern.known_at st.message_index) st := by
  induction h with
  | new h =>
    obtain ⟨-, hi, hp, -, -, -, hk⟩ := new_spec D C H h
    rwa [hi, hp, HandshakePattern.known_at_zero]
  | write _ h ih => exact write_message_knows D C H h ih
  | read _ h ih => exact read_message_knows D C H h ih

/-- **The wire length of a message.** In every reachable state, the cipher is keyed exactly
when a DH token came before; a written message is its token fields, `tokens_len` bytes
from that keyed state, then the payload and a tag if keyed after the message's tokens;
and a read that returns `Ok` consumes fields of the same widths. -/
theorem message_length_formula {st : HandshakeState} (hr : Reachable D C H st) :
    st.symmetric.has_key = st.pattern.dh_before st.message_index ∧
    ∀ m, st.pattern.message_patterns[st.message_index]? = some m →
      (∀ p msg st', write_message D C H st p = .ok (msg, st') →
        msg.length = tokens_len D.pub_len (st.pattern.dh_before st.message_index) m +
          p.length + tag_len (keyed_after (st.pattern.dh_before st.message_index) m)) ∧
      (∀ data p st', read_message D C H st data = .ok (.ok p, st') →
        ∃ (fs : List Bytes) (ct : Bytes), data = fs.flatten ++ ct ∧
          fs.map List.length = token_widths D.pub_len (st.pattern.dh_before st.message_index) m) := by
  have hk := hr.has_key_eq
  refine ⟨hk, fun m hm => ⟨fun p msg st' h => ?_, fun data p st' h => ?_⟩⟩
  · obtain ⟨m', hm', fs, ct, rfl, hw, hl, -⟩ := write_message_spec D C H h
    obtain rfl : m' = m := Option.some.inj (hm'.symm.trans hm)
    rw [List.length_append, length_flatten_of_widths hw, hl, hk, Nat.add_assoc]
  · obtain ⟨m', hm', fs, ct, rfl, hw, -⟩ := read_message_spec D C H h
    obtain rfl : m' = m := Option.some.inj (hm'.symm.trans hm)
    exact ⟨fs, ct, rfl, hk ▸ hw⟩

/-- A `Noise_NN` initiator right after `new`; and a `Noise_IK` initiator right after `new`,
holding its static key and the responder's, whose first message `E, ES, S, SS` switches
the cipher on at `ES`, so that its `S` field and the payload carry tags. -/
theorem message_length_formula_nn_ik :
    (∃ st, new toy_dh toy_cipher toy_hash HandshakePattern.noise_nn true [] none (some [3]) none
        none = .ok st ∧
      (st.symmetric.has_key = st.pattern.dh_before st.message_index ∧
      ∀ m, st.pattern.message_patterns[st.message_index]? = some m →
        (∀ p msg st', write_message toy_dh toy_cipher toy_hash st p = .ok (msg, st') →
          msg.length = tokens_len toy_dh.pub_len (st.pattern.dh_before st.message_index) m +
            p.length + tag_len (keyed_after (st.pattern.dh_before st.message_index) m)) ∧
        (∀ data p st', read_message toy_dh toy_cipher toy_hash st data = .ok (.ok p, st') →
          ∃ (fs : List Bytes) (ct : Bytes), data = fs.flatten ++ ct ∧
            fs.map List.length = token_widths toy_dh.pub_len (st.pattern.dh_before st.message_index) m))) ∧
    (∃ st, new toy_dh toy_cipher toy_hash HandshakePattern.noise_ik true [] (some [2]) (some [3])
        (some [7]) none = .ok st ∧
      st.pattern.message_patterns[st.message_index]? = some [.E, .ES, .S, .SS] ∧
      (st.symmetric.has_key = st.pattern.dh_before st.message_index ∧
      ∀ m, st.pattern.message_patterns[st.message_index]? = some m →
        (∀ p msg st', write_message toy_dh toy_cipher toy_hash st p = .ok (msg, st') →
          msg.length = tokens_len toy_dh.pub_len (st.pattern.dh_before st.message_index) m +
            p.length + tag_len (keyed_after (st.pattern.dh_before st.message_index) m)) ∧
        (∀ data p st', read_message toy_dh toy_cipher toy_hash st data = .ok (.ok p, st') →
          ∃ (fs : List Bytes) (ct : Bytes), data = fs.flatten ++ ct ∧
            fs.map List.length = token_widths toy_dh.pub_len (st.pattern.dh_before st.message_index) m))) :=
  ⟨⟨_, rfl, message_length_formula toy_dh toy_cipher toy_hash
      (@Reachable.new toy_dh toy_cipher toy_hash HandshakePattern.noise_nn true [] none (some [3])
        none none _ rfl)⟩,
    ⟨_, rfl, rfl, message_length_formula toy_dh toy_cipher toy_hash
      (@Reachable.new toy_dh toy_cipher toy_hash HandshakePattern.noise_ik true [] (some [2])
        (some [3]) (some [7]) none _ rfl)⟩⟩

end HandshakeState

end NoiseRust
