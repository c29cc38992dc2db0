/-
Two honest parties agree.

`Agree K a b` is the correspondence an honest run keeps between the two sides, given the
keys `K` the run has introduced: the symmetric states are equal (hash, chaining key,
cipher key and nonce), the roles are opposite, and each introduced public key is held
by its owner as a private key and by the other side as the matching remote key.

It is established by `new` (the pre-messages, when the sides are built with matching
keys) and kept by every exchange, under the two assumptions the spec makes of the
primitives: Diffie-Hellman commutes (`DH.Commutes`) and the AEAD opens what it sealed
(`Cipher.Correct`). The step is one token at a time (`token_agree`): an `E` or `S` field
written by one side is read back by the other into the same state, and a DH token
computes the same shared secret on both sides, the roles in `perform_dh` pairing each
private key with the other's public key. The loop lemma and the message lemma follow by
induction, and `honest_parties_agree` is the invariant over every honest run, with its
consequences: every honest read returns the payload written, and the two sides end
with the same handshake hash and the same transport ciphers.

The last section joins this to `Honest.exchange_returns`: when each side also holds the
keys its role uses, every exchange can be made, so `honest_handshake_completes` gives an
honest run that reaches `completed()` on both sides, in agreement.
-/
import NoiseRust.Honest

set_option autoImplicit false

namespace NoiseRust

/-- The two sides' keys match wherever both are supplied: each side's remote static key is
the other side's static public key. -/
def Keys.matches (D : DH) (ki kr : Keys) : Prop :=
  (∀ k, ki.s = some k → ∀ pk, kr.rs = some pk → pk = D.get_pubkey_vec k) ∧
  (∀ k, kr.s = some k → ∀ pk, ki.rs = some pk → pk = D.get_pubkey_vec k)

namespace HandshakeState

variable (D : DH) (C : Cipher) (H : Hash)

/-- Side `a`'s introduced keys are held by `a` and seen by `b`. -/
structure Shows (K : Known) (a b : HandshakeState) : Prop where
  e : K.ephemeral a.is_initiator = true → ∃ k, a.e = some k ∧ b.re = some (D.get_pubkey_vec k)
  s : K.static a.is_initiator = true → ∃ k, a.s = some k ∧ b.rs = some (D.get_pubkey_vec k)

/-- The correspondence between two honest sides after the keys `K` were introduced. -/
structure Agree (K : Known) (a b : HandshakeState) : Prop where
  symmetric : a.symmetric = b.symmetric
  roles : b.is_initiator = !a.is_initiator
  shows : Shows D K a b
  sees : Shows D K b a

variable {D}

theorem Agree.symm {K : Known} {a b : HandshakeState} (h : Agree D K a b) : Agree D K b a :=
  ⟨h.symmetric.symm, by rw [h.roles, Bool.not_not], h.sees, h.shows⟩

/-- `Agree` reads the symmetric states, the roles and the keys only. -/
theorem Agree.of_eq {K : Known} {a b a' b' : HandshakeState} (h : Agree D K a b)
    (hsym : a'.symmetric = b'.symmetric) (ha : (a'.is_initiator, a'.s, a'.e, a'.rs, a'.re) =
      (a.is_initiator, a.s, a.e, a.rs, a.re))
    (hb : (b'.is_initiator, b'.s, b'.e, b'.rs, b'.re) = (b.is_initiator, b.s, b.e, b.rs, b.re)) :
    Agree D K a' b' := by
  simp only [Prod.mk.injEq] at ha hb
  obtain ⟨hai, has, hae, hars, hare⟩ := ha
  obtain ⟨hbi, hbs, hbe, hbrs, hbre⟩ := hb
  exact ⟨hsym, by rw [hai, hbi, h.roles], ⟨by rw [hai, hae, hbre]; exact h.shows.e,
    by rw [hai, has, hbrs]; exact h.shows.s⟩, ⟨by rw [hbi, hbe, hare]; exact h.sees.e,
    by rw [hbi, hbs, hars]; exact h.sees.s⟩⟩

/-! ## One token -/

/-- Two operand pairs match when each side's private key is seen by the other. -/
theorem operands_match {ka ra kb rb : Option Bytes}
    (h1 : ∃ x, ka = some x ∧ rb = some (D.get_pubkey_vec x))
    (h2 : ∃ y, kb = some y ∧ ra = some (D.get_pubkey_vec y)) :
    ∃ x y, (ka, ra) = (some x, some (D.get_pubkey_vec y)) ∧
      (kb, rb) = (some y, some (D.get_pubkey_vec x)) := by
  obtain ⟨x, rfl, rfl⟩ := h1
  obtain ⟨y, rfl, rfl⟩ := h2
  exact ⟨x, y, rfl, rfl⟩

theorem dh_operands_agree_of_initiator {K : Known} {a b : HandshakeState} {t : Token}
    (ha : Agree D K a b) (hi : a.is_initiator = true) (ht : t.ready K = true)
    (hdh : t.is_dh = true) :
    ∃ x y, dh_operands a t = (some x, some (D.get_pubkey_vec y)) ∧
      dh_operands b t = (some y, some (D.get_pubkey_vec x)) := by
  have hr : b.is_initiator = false := by rw [ha.roles, hi]; rfl
  have hae := ha.shows.e
  have has := ha.shows.s
  have hbe := ha.sees.e
  have hbs := ha.sees.s
  rw [hi] at hae has
  rw [hr] at hbe hbs
  simp only [Known.ephemeral, Known.static, if_true, if_false, Bool.false_eq_true]
    at hae has hbe hbs
  cases t <;> simp only [Token.is_dh, Token.ready, Bool.and_eq_true, Bool.false_eq_true]
    at hdh ht <;> simp only [dh_operands, hi, hr, if_true, if_false, Bool.false_eq_true]
  case EE => exact operands_match (hae ht.1) (hbe ht.2)
  case ES => exact operands_match (hae ht.1) (hbs ht.2)
  case SE => exact operands_match (has ht.1) (hbe ht.2)
  case SS => exact operands_match (has ht.1) (hbs ht.2)

/-- Both sides find the operands of a DH token whose keys were introduced, each its own
private key and the other's public key. -/
theorem dh_operands_agree {K : Known} {a b : HandshakeState} {t : Token} (ha : Agree D K a b)
    (ht : t.ready K = true) (hdh : t.is_dh = true) :
    ∃ x y, dh_operands a t = (some x, some (D.get_pubkey_vec y)) ∧
      dh_operands b t = (some y, some (D.get_pubkey_vec x)) := by
  cases hi : a.is_initiator
  · obtain ⟨x, y, h1, h2⟩ := dh_operands_agree_of_initiator ha.symm (by rw [ha.roles, hi]; rfl)
      ht hdh
    exact ⟨y, x, h2, h1⟩
  · exact dh_operands_agree_of_initiator ha hi ht hdh

variable (D) in
/-- **The same shared secret on both sides.** A DH token mixes one secret into both
sides' keys: each side's private key against the other's public key, which commutes. -/
theorem dh_agree (hD : D.Commutes) {K : Known} {a b : HandshakeState} {t : Token}
    (ha : Agree D K a b) (ht : t.ready K = true) (hdh : t.is_dh = true) :
    ∃ k, perform_dh D H a t = .ok { a with symmetric := a.symmetric.mix_key H k } ∧
      perform_dh D H b t = .ok { b with symmetric := b.symmetric.mix_key H k } := by
  obtain ⟨x, y, h1, h2⟩ := dh_operands_agree ha ht hdh
  refine ⟨D.dh_vec x (D.get_pubkey_vec y), ?_, ?_⟩
  · rw [perform_dh_eq D H hdh, h1]
    rfl
  · rw [perform_dh_eq D H hdh, h2, hD]
    rfl

section OneToken

variable {K : Known} {w rd w' : HandshakeState} {f : Bytes}

/-- An `E` field is the writer's ephemeral public key; the reader stores it as `re`. -/
theorem e_token_agree (ha : Agree D K w rd) (hw : write_token D C H w .E = .ok (f, w'))
    (rest : Bytes) :
    ∃ rd', read_token D C H rd (f ++ rest) .E = .ok (.ok (rest, rd')) ∧
      Agree D (K.add w.is_initiator .E) w' rd' := by
  rcases hwe : w.e with _ | k <;> simp [write_token, hwe] at hw
  obtain ⟨rfl, rfl⟩ := hw
  have hl : D.pub_len ≤ (D.get_pubkey_vec k ++ rest).length := by simp [D.get_pubkey_vec_length]
  refine ⟨{ rd with
    re := some (D.get_pubkey_vec k)
    symmetric := rd.symmetric.mix_hash H (D.get_pubkey_vec k) }, ?_, ?_⟩
  · simp only [read_token, get_of_le hl, List.take_left' (D.get_pubkey_vec_length k),
      List.drop_left' (D.get_pubkey_vec_length k)]
    rfl
  · refine ⟨by rw [ha.symmetric], ha.roles, ⟨fun _ => ⟨k, rfl, rfl⟩, fun h => ?_⟩,
      ⟨fun h => ?_, fun h => ?_⟩⟩
    · exact ha.shows.s (by simpa using h)
    · have hrole : rd.is_initiator = !w.is_initiator := ha.roles
      exact ha.sees.e (by cases hb : w.is_initiator <;> simp_all)
    · exact ha.sees.s (by simpa using h)

/-- An `S` field decrypts, under the same symmetric state, to the writer's static public
key; the reader stores it as `rs`. -/
theorem s_token_agree (hC : C.Correct) (ha : Agree D K w rd)
    (hw : write_token D C H w .S = .ok (f, w')) (rest : Bytes) :
    ∃ rd', read_token D C H rd (f ++ rest) .S = .ok (.ok (rest, rd')) ∧
      Agree D (K.add w.is_initiator .S) w' rd' := by
  rcases hws : w.s with _ | k <;> simp [write_token, hws] at hw
  obtain ⟨rfl, rfl⟩ := hw
  set enc := SymmetricState.encrypt_and_hash_vec C H w.symmetric (D.get_pubkey_vec k)
  obtain ⟨hl, -, -⟩ := SymmetricState.encrypt_and_hash_vec_spec C H w.symmetric
    (D.get_pubkey_vec k)
  have hw : (if w.symmetric.has_key then D.pub_len + 16 else D.pub_len) = enc.1.length := by
    rw [hl, D.get_pubkey_vec_length]
    cases w.symmetric.has_key <;> rfl
  have hg := get_of_le (List.prefix_append enc.1 rest).length_le
  refine ⟨{ rd with rs := some (D.get_pubkey_vec k), symmetric := enc.2 }, ?_, ?_⟩
  · simp only [read_token, ← ha.symmetric, hw, hg, List.take_left', List.drop_left',
      SymmetricState.decrypt_and_hash_vec_encrypt C H hC, ok_bind]
    rfl
  · refine ⟨rfl, ha.roles, ⟨fun h => ?_, fun _ => ⟨k, rfl, rfl⟩⟩,
      ⟨fun h => ?_, fun h => ?_⟩⟩
    · exact ha.shows.e (by simpa using h)
    · exact ha.sees.e (by simpa using h)
    · have hrole : rd.is_initiator = !w.is_initiator := ha.roles
      exact ha.sees.s (by cases hb : w.is_initiator <;> simp_all)

/-- A DH token mixes the same secret into both sides' keys and consumes no bytes. -/
theorem dh_token_agree (hD : D.Commutes) {t : Token} (ha : Agree D K w rd)
    (ht : t.ready K = true) (hdh : t.is_dh = true) (hw : write_token D C H w t = .ok (f, w'))
    (rest : Bytes) :
    ∃ rd', read_token D C H rd (f ++ rest) t = .ok (.ok (rest, rd')) ∧
      Agree D (K.add w.is_initiator t) w' rd' := by
  rw [write_token_of_is_dh D C H hdh] at hw
  obtain ⟨w1, hdw, hw⟩ := bind_eq_ok.1 hw
  simp only [pure_eq_ok, Except.ok.injEq, Prod.mk.injEq] at hw
  obtain ⟨rfl, rfl⟩ := hw
  obtain ⟨k, h1, h2⟩ := dh_agree D H hD ha ht hdh
  rw [h1, Except.ok.injEq] at hdw
  subst hdw
  refine ⟨_, by rw [List.nil_append, read_token_of_is_dh D C H hdh, h2]; rfl, ?_⟩
  rw [Known.add_of_is_dh hdh]
  exact ha.of_eq (by simp [ha.symmetric]) rfl rfl

/-- **One token, written by one side and read by the other.** The reader consumes exactly
the field the writer emitted, and the two sides still agree, with the token's key now
introduced. -/
theorem token_agree (hD : D.Commutes) (hC : C.Correct) {t : Token} (ha : Agree D K w rd)
    (ht : t.ready K = true) (hw : write_token D C H w t = .ok (f, w')) (rest : Bytes) :
    ∃ rd', read_token D C H rd (f ++ rest) t = .ok (.ok (rest, rd')) ∧
      Agree D (K.add w.is_initiator t) w' rd' := by
  cases hdh : t.is_dh
  · cases t <;> simp [Token.is_dh] at hdh
    · exact e_token_agree C H ha hw rest
    · exact s_token_agree C H hC ha hw rest
  · exact dh_token_agree C H hD ha ht hdh hw rest

end OneToken

/-! ## A message, then a run -/

theorem tokens_agree (hD : D.Commutes) (hC : C.Correct) {K : Known} {w rd w' : HandshakeState}
    {m : List Token} {out : Bytes} (ha : Agree D K w rd)
    (hm : tokens_ready w.is_initiator K m = true) (hw : write_tokens D C H w m = .ok (out, w'))
    (rest : Bytes) :
    ∃ rd', read_tokens D C H rd (out ++ rest) m = .ok (.ok rest, rd') ∧
      Agree D (K.add_all w.is_initiator m) w' rd' := by
  induction m generalizing K w rd out with
  | nil =>
    simp only [write_tokens, pure_eq_ok, Except.ok.injEq, Prod.mk.injEq] at hw
    obtain ⟨rfl, rfl⟩ := hw
    exact ⟨rd, rfl, ha⟩
  | cons t m ih =>
    simp only [tokens_ready, Bool.and_eq_true] at hm
    obtain ⟨f, st1, rest', h1, h2, rfl⟩ := write_tokens_cons D C H hw
    obtain ⟨-, -, -, -, -, hf⟩ := write_token_spec D C H h1
    obtain ⟨-, -, hi, -⟩ := frame_eq_iff.1 hf
    obtain ⟨rd1, hr1, ha1⟩ := token_agree C H hD hC ha hm.1 h1 (rest' ++ rest)
    obtain ⟨rd2, hr2, ha2⟩ := ih ha1 (hi ▸ hm.2) h2
    rw [hi] at ha2
    exact ⟨rd2, by simp [read_tokens, List.append_assoc, hr1, hr2], ha2⟩

/-- **One message, written by one side and read by the other.** The read returns the
payload written, and the two sides agree on everything the pattern has introduced up to
the next message. -/
theorem message_agree (hD : D.Commutes) (hC : C.Correct) {w rd w' : HandshakeState}
    {p msg : Bytes} (hv : w.pattern.valid = true)
    (ha : Agree D (w.pattern.known_at w.message_index) w rd) (hp : rd.pattern = w.pattern)
    (hidx : rd.message_index = w.message_index) (hw : write_message D C H w p = .ok (msg, w')) :
    ∃ rd', read_message D C H rd msg = .ok (.ok p, rd') ∧
      Agree D (w'.pattern.known_at w'.message_index) w' rd' := by
  obtain ⟨hturn, m, hm, out, st1, h1, rfl, rfl⟩ := write_message_inv D C H hw
  have ha0 : Agree D (w.pattern.known_at w.message_index)
      { w with message_index := w.message_index + 1 }
      { rd with message_index := rd.message_index + 1 } := ha.of_eq ha.symmetric rfl rfl
  obtain ⟨rd1, hr1, ha1⟩ :=
    tokens_agree C H hD hC ha0 (hturn ▸ tokens_ready_of_valid hv hm) h1
    (SymmetricState.encrypt_and_hash_vec C H st1.symmetric p).1
  obtain ⟨-, -, -, -, -, hf⟩ := write_tokens_spec D C H h1
  have hturn' : initiator_sends rd.message_index = !rd.is_initiator := by
    rw [hidx, hturn, ha.roles, Bool.not_not]
  have hm' : rd.pattern.message_patterns[rd.message_index]? = some m := by rw [hp, hidx]; exact hm
  rw [read_message_of_read_tokens D C H hturn' hm' hr1]
  simp only [← ha1.symmetric, SymmetricState.decrypt_and_hash_vec_encrypt C H hC, ok_bind]
  refine ⟨_, rfl, ?_⟩
  obtain ⟨-, -, -, hp1, hi1⟩ := message_frame hf
  have hK : st1.pattern.known_at st1.message_index =
      (w.pattern.known_at w.message_index).add_all w.is_initiator m := by
    rw [hp1, hi1, w.pattern.known_at_succ hm, hturn]
  rw [hK]
  exact ha1.of_eq rfl rfl rfl

/-- Both sides mix the same pre-message keys when their keys match. -/
theorem mix_pre_message_agree {s rs s' rs' : Option Bytes} {sym a b : SymmetricState}
    {l : List Token} (ha : mix_pre_message D H true s rs sym l = .ok a)
    (hb : mix_pre_message D H false s' rs' sym l = .ok b)
    (hk : ∀ k, s = some k → ∀ pk, rs' = some pk → pk = D.get_pubkey_vec k) : a = b := by
  induction l generalizing sym with
  | nil =>
    simp only [mix_pre_message, pure_eq_ok, Except.ok.injEq] at ha hb
    exact ha.symm.trans hb
  | cons t l ih =>
    cases t <;> simp only [mix_pre_message, reduceCtorEq] at ha
    simp only [mix_pre_message, if_true, if_false, Bool.false_eq_true, bind_eq_ok, pure_eq_ok,
      unwrap_eq_ok, Except.ok.injEq] at ha hb
    obtain ⟨_, ⟨k, hs, rfl⟩, ha⟩ := ha
    obtain ⟨pk, hrs, hb⟩ := hb
    rw [hk k hs pk hrs] at hb
    exact ih ha hb

/-- `new` on both sides with matching keys: the two sides agree on the pre-messages'
keys. -/
theorem new_agree {pat : HandshakePattern} {prologue : Bytes} {ki kr : Keys}
    {i r : HandshakeState} (hk : ki.matches D kr)
    (hi : new D C H pat true prologue ki.s ki.e ki.rs ki.re = .ok i)
    (hr : new D C H pat false prologue kr.s kr.e kr.rs kr.re = .ok r) :
    Agree D pat.pre_known i r := by
  have hi' := hi
  have hr' := hr
  simp only [new, bind_eq_ok, pure_eq_ok, Except.ok.injEq, Bool.not_true, Bool.not_false] at hi' hr'
  obtain ⟨si1, hi1, si2, hi2, rfl⟩ := hi'
  obtain ⟨sr1, hr1, sr2, hr2, rfl⟩ := hr'
  obtain ⟨-, hsi⟩ := mix_pre_message_spec D H hi1
  obtain ⟨-, hrsi⟩ := mix_pre_message_spec D H hi2
  obtain ⟨-, hrsr⟩ := mix_pre_message_spec D H hr1
  obtain ⟨-, hsr⟩ := mix_pre_message_spec D H hr2
  simp only [if_true, if_false, Bool.false_eq_true] at hsi hrsi hrsr hsr
  have h1 := mix_pre_message_agree H hi1 hr1 hk.1
  subst h1
  refine ⟨(mix_pre_message_agree H hr2 hi2 hk.2).symm, rfl,
    ⟨fun h => by simp [HandshakePattern.pre_known, Known.ephemeral] at h, fun h => ?_⟩,
    ⟨fun h => by simp [HandshakePattern.pre_known, Known.ephemeral] at h, fun h => ?_⟩⟩
  · simp only [HandshakePattern.pre_known, Known.static, if_true] at h
    obtain ⟨k, hk1⟩ := Option.isSome_iff_exists.1 (hsi h)
    obtain ⟨pk, hk2⟩ := Option.isSome_iff_exists.1 (hrsr h)
    exact ⟨k, hk1, by rw [hk2, hk.1 k hk1 pk hk2]⟩
  · simp only [HandshakePattern.pre_known, Known.static, if_false, Bool.false_eq_true] at h
    obtain ⟨k, hk1⟩ := Option.isSome_iff_exists.1 (hsr h)
    obtain ⟨pk, hk2⟩ := Option.isSome_iff_exists.1 (hrsi h)
    exact ⟨k, hk1, by rw [hk2, hk.2 k hk1 pk hk2]⟩

section Exchange

variable {pat : HandshakePattern} {ki kr : Keys} {i r : HandshakeState} {p msg : Bytes}
variable (hv : pat.valid = true) (hD : D.Commutes) (hC : C.Correct)

include hv hD hC

/-- The initiator writes, the responder reads: `message_agree` for a paired pair. -/
theorem Paired.initiator_message_agree {i' : HandshakeState} (hq : Paired D C H pat ki kr i r)
    (ha : Agree D (pat.known_at i.message_index) i r)
    (hw : write_message D C H i p = .ok (msg, i')) :
    ∃ r', read_message D C H r msg = .ok (.ok p, r') ∧
      Agree D (pat.known_at i'.message_index) i' r' := by
  obtain ⟨r', hrd, ha'⟩ := message_agree C H hD hC (hq.pattern_i ▸ hv) (hq.pattern_i ▸ ha)
    (hq.pattern_r.trans hq.pattern_i.symm) hq.index hw
  rw [(write_message_frame D C H hw).2.2.2.1, hq.pattern_i] at ha'
  exact ⟨r', hrd, ha'⟩

/-- The responder writes, the initiator reads: `message_agree` for a paired pair. -/
theorem Paired.responder_message_agree {r' : HandshakeState} (hq : Paired D C H pat ki kr i r)
    (ha : Agree D (pat.known_at i.message_index) i r)
    (hw : write_message D C H r p = .ok (msg, r')) :
    ∃ i', read_message D C H i msg = .ok (.ok p, i') ∧
      Agree D (pat.known_at i'.message_index) i' r' := by
  obtain ⟨i', hrd, ha'⟩ := message_agree C H hD hC (hq.pattern_r ▸ hv)
    (by rw [hq.pattern_r, hq.index]; exact ha.symm) (hq.pattern_i.trans hq.pattern_r.symm)
    hq.index.symm hw
  have hidx : r'.message_index = i'.message_index := by
    rw [(write_message_frame D C H hw).2.2.2.2, (read_message_frame D C H hrd).2.2.2.2, hq.index]
  rw [(write_message_frame D C H hw).2.2.2.1, hq.pattern_r, hidx] at ha'
  exact ⟨i', hrd, ha'.symm⟩

end Exchange

theorem Honest.agree {pat : HandshakePattern} {prologue : Bytes} {ki kr : Keys}
    (hv : pat.valid = true) (hD : D.Commutes) (hC : C.Correct) (hk : ki.matches D kr)
    {i r : HandshakeState} (h : Honest D C H pat prologue ki kr i r) :
    Agree D (pat.known_at i.message_index) i r := by
  induction h with
  | new hi hr =>
    obtain ⟨-, hi0, -⟩ := new_spec D C H hi
    rw [hi0, HandshakePattern.known_at_zero]
    exact new_agree C H hk hi hr
  | initiator_writes hh hw hrd ih =>
    obtain ⟨r', hrd', ha⟩ := (hh.paired).initiator_message_agree C H hv hD hC ih hw
    rw [hrd, Except.ok.injEq, Prod.mk.injEq] at hrd'
    rwa [hrd'.2]
  | responder_writes hh hw hrd ih =>
    obtain ⟨i', hrd', ha⟩ := (hh.paired).responder_message_agree C H hv hD hC ih hw
    rw [hrd, Except.ok.injEq, Prod.mk.injEq] at hrd'
    rwa [hrd'.2]

/-- From an honest pair, the responder's read of what the initiator wrote returns the
payload written, and the run goes on. -/
theorem Honest.read_initiator {pat : HandshakePattern} {prologue : Bytes} {ki kr : Keys}
    (hv : pat.valid = true) (hD : D.Commutes) (hC : C.Correct) (hk : ki.matches D kr)
    {i r i' : HandshakeState} {p msg : Bytes} (h : Honest D C H pat prologue ki kr i r)
    (hw : write_message D C H i p = .ok (msg, i')) :
    ∃ r', read_message D C H r msg = .ok (.ok p, r') ∧ Honest D C H pat prologue ki kr i' r' := by
  obtain ⟨r', hrd, -⟩ :=
    (h.paired).initiator_message_agree C H hv hD hC (h.agree C H hv hD hC hk) hw
  exact ⟨r', hrd, h.initiator_writes hw hrd⟩

/-- From an honest pair, the initiator's read of what the responder wrote returns the
payload written, and the run goes on. -/
theorem Honest.read_responder {pat : HandshakePattern} {prologue : Bytes} {ki kr : Keys}
    (hv : pat.valid = true) (hD : D.Commutes) (hC : C.Correct) (hk : ki.matches D kr)
    {i r r' : HandshakeState} {p msg : Bytes} (h : Honest D C H pat prologue ki kr i r)
    (hw : write_message D C H r p = .ok (msg, r')) :
    ∃ i', read_message D C H i msg = .ok (.ok p, i') ∧ Honest D C H pat prologue ki kr i' r' := by
  obtain ⟨i', hrd, -⟩ :=
    (h.paired).responder_message_agree C H hv hD hC (h.agree C H hv hD hC hk) hw
  exact ⟨i', hrd, h.responder_writes hw hrd⟩

/-- **Honest parties agree.** For a valid pattern, a DH that commutes, an AEAD that opens
what it sealed, and two sides built with matching keys, every pair an honest run
reaches has equal symmetric states (hash, chaining key, cipher key and nonce) and equal
message indices, and each side holds the keys the other has introduced; whichever side
writes next, the other side's `read_message` of those bytes returns the payload written
and the run goes on; and the two sides have the same `completed()`, the same
`get_hash()` and the same `get_ciphers()`. -/
theorem honest_parties_agree {pat : HandshakePattern} {prologue : Bytes} {ki kr : Keys}
    (hv : pat.valid = true) (hD : D.Commutes) (hC : C.Correct) (hk : ki.matches D kr)
    {i r : HandshakeState} (h : Honest D C H pat prologue ki kr i r) :
    Agree D (pat.known_at i.message_index) i r ∧ r.message_index = i.message_index ∧
    (∀ p msg i', write_message D C H i p = .ok (msg, i') →
      ∃ r', read_message D C H r msg = .ok (.ok p, r') ∧ Honest D C H pat prologue ki kr i' r') ∧
    (∀ p msg r', write_message D C H r p = .ok (msg, r') →
      ∃ i', read_message D C H i msg = .ok (.ok p, i') ∧ Honest D C H pat prologue ki kr i' r') ∧
    r.completed = i.completed ∧ r.get_hash = i.get_hash ∧ r.get_ciphers H = i.get_ciphers H := by
  have ha := h.agree C H hv hD hC hk
  have hq := h.paired
  refine ⟨ha, hq.index, fun _ _ _ hw => h.read_initiator C H hv hD hC hk hw,
    fun _ _ _ hw => h.read_responder C H hv hD hC hk hw, ?_, ?_, ?_⟩
  · simp [completed, hq.index, hq.pattern_i, hq.pattern_r]
  · simp [get_hash, ha.symmetric]
  · simp [get_ciphers, ha.symmetric]

/-- At `Noise_NN` right after `new`; and at `Noise_IK` after the initiator's first message,
where both sides hold static keys, the responder's is a pre-message, and the initiator's
`S` field went out encrypted under the key `ES` installed. -/
theorem honest_parties_agree_nn_ik :
    (∃ i r, new toy_dh toy_cipher toy_hash HandshakePattern.noise_nn true [] none (some [3]) none
        none = .ok i ∧
      new toy_dh toy_cipher toy_hash HandshakePattern.noise_nn false [] none (some [5]) none
        none = .ok r ∧
      (Agree toy_dh (HandshakePattern.noise_nn.known_at i.message_index) i r ∧
        r.message_index = i.message_index ∧
        (∀ p msg i', write_message toy_dh toy_cipher toy_hash i p = .ok (msg, i') →
          ∃ r', read_message toy_dh toy_cipher toy_hash r msg = .ok (.ok p, r') ∧
            Honest toy_dh toy_cipher toy_hash HandshakePattern.noise_nn [] ⟨none, some [3], none, none⟩
              ⟨none, some [5], none, none⟩ i' r') ∧
        (∀ p msg r', write_message toy_dh toy_cipher toy_hash r p = .ok (msg, r') →
          ∃ i', read_message toy_dh toy_cipher toy_hash i msg = .ok (.ok p, i') ∧
            Honest toy_dh toy_cipher toy_hash HandshakePattern.noise_nn [] ⟨none, some [3], none, none⟩
              ⟨none, some [5], none, none⟩ i' r') ∧
        r.completed = i.completed ∧ r.get_hash = i.get_hash ∧
        r.get_ciphers toy_hash = i.get_ciphers toy_hash)) ∧
    (∃ i r, Honest toy_dh toy_cipher toy_hash HandshakePattern.noise_ik []
        ⟨some [2], some [3], some [7], none⟩ ⟨some [7], some [5], none, none⟩ i r ∧
      i.message_index = 1 ∧ i.symmetric.has_key = true ∧
      (Agree toy_dh (HandshakePattern.noise_ik.known_at i.message_index) i r ∧
        r.message_index = i.message_index ∧
        (∀ p msg i', write_message toy_dh toy_cipher toy_hash i p = .ok (msg, i') →
          ∃ r', read_message toy_dh toy_cipher toy_hash r msg = .ok (.ok p, r') ∧
            Honest toy_dh toy_cipher toy_hash HandshakePattern.noise_ik []
              ⟨some [2], some [3], some [7], none⟩ ⟨some [7], some [5], none, none⟩ i' r') ∧
        (∀ p msg r', write_message toy_dh toy_cipher toy_hash r p = .ok (msg, r') →
          ∃ i', read_message toy_dh toy_cipher toy_hash i msg = .ok (.ok p, i') ∧
            Honest toy_dh toy_cipher toy_hash HandshakePattern.noise_ik []
              ⟨some [2], some [3], some [7], none⟩ ⟨some [7], some [5], none, none⟩ i' r') ∧
        r.completed = i.completed ∧ r.get_hash = i.get_hash ∧
        r.get_ciphers toy_hash = i.get_ciphers toy_hash)) :=
  ⟨⟨_, _, rfl, rfl, @honest_parties_agree toy_dh toy_cipher toy_hash HandshakePattern.noise_nn []
      ⟨none, some [3], none, none⟩ ⟨none, some [5], none, none⟩ (by decide) toy_dh_commutes
      toy_cipher_correct ⟨by simp, by simp⟩ _ _ (Honest.new rfl rfl)⟩,
    have h : Honest toy_dh toy_cipher toy_hash HandshakePattern.noise_ik []
        ⟨some [2], some [3], some [7], none⟩ ⟨some [7], some [5], none, none⟩ _ _ :=
      .initiator_writes (p := [9]) (.new rfl rfl) rfl rfl
    ⟨_, _, h, rfl, rfl, @honest_parties_agree toy_dh toy_cipher toy_hash
      HandshakePattern.noise_ik [] ⟨some [2], some [3], some [7], none⟩
      ⟨some [7], some [5], none, none⟩ (by decide) toy_dh_commutes toy_cipher_correct
      ⟨by simp, by simp [toy_dh]⟩ _ _ h⟩⟩

/-! ## Every honest handshake completes -/

/-- An honest run never passes the last message. -/
theorem Honest.index_le {pat : HandshakePattern} {prologue : Bytes} {ki kr : Keys}
    {i r : HandshakeState} (h : Honest D C H pat prologue ki kr i r) :
    i.message_index ≤ pat.message_patterns.length := by
  induction h with
  | new hi _ => simp [(new_spec D C H hi).2.1]
  | initiator_writes hh hw _ _ =>
    have hq := hh.paired
    obtain ⟨m, hm, -⟩ := write_message_spec D C H hw
    rw [(write_message_frame D C H hw).2.2.2.2, ← hq.pattern_i]
    exact (List.getElem?_eq_some_iff.1 hm).1
  | responder_writes hh hw hrd _ =>
    obtain ⟨m, hm, -⟩ := write_message_spec D C H hw
    have hq := hh.paired
    rw [(read_message_frame D C H hrd).2.2.2.2, ← hq.index, ← hq.pattern_r]
    exact (List.getElem?_eq_some_iff.1 hm).1

section Completion

variable {pat : HandshakePattern} {prologue : Bytes} {ki kr : Keys}
variable (hv : pat.valid = true) (hki : ki.supplied pat true = true)
  (hkr : kr.supplied pat false = true) (hD : D.Commutes) (hC : C.Correct) (hk : ki.matches D kr)

include hv hki hkr hD hC hk

/-- One exchange: from an honest pair before the last message, the run goes on to the
next message, whichever side writes. -/
theorem Honest.step {i r : HandshakeState} (h : Honest D C H pat prologue ki kr i r)
    (hlt : i.message_index < pat.message_patterns.length) :
    ∃ i' r', Honest D C H pat prologue ki kr i' r' ∧ i'.message_index = i.message_index + 1 := by
  have hx := h.exchange_returns D C H hv hki hkr hlt []
  cases hb : initiator_sends i.message_index
  case true =>
    obtain ⟨msg, i', hw, -⟩ := hx.1 hb
    obtain ⟨r', -, hh⟩ := h.read_initiator C H hv hD hC hk hw
    exact ⟨i', r', hh, (write_message_frame D C H hw).2.2.2.2⟩
  case false =>
    obtain ⟨msg, r', hw, -⟩ := hx.2 hb
    obtain ⟨i', hrd, hh⟩ := h.read_responder C H hv hD hC hk hw
    exact ⟨i', r', hh, (read_message_frame D C H hrd).2.2.2.2⟩

/-- The run goes on from any honest pair to one at the last message. -/
theorem Honest.reaches_end (n : Nat) :
    ∀ {i r : HandshakeState}, Honest D C H pat prologue ki kr i r →
      i.message_index + n = pat.message_patterns.length →
      ∃ i' r', Honest D C H pat prologue ki kr i' r' ∧
        i'.message_index = pat.message_patterns.length := by
  induction n with
  | zero => exact fun h hn => ⟨_, _, h, hn⟩
  | succ n ih =>
    intro i r h hn
    obtain ⟨i', r', hh, hidx⟩ := h.step C H hv hki hkr hD hC hk (by omega)
    exact ih hh (by omega)

/-- **Every honest handshake completes, in agreement.** For a valid pattern, a DH that
commutes, an AEAD that opens what it sealed, and two sides built with the keys their roles
use and with matching keys, an honest run reaches a pair where `completed()` holds on both
sides, and there both sides' `get_hash()` and `get_ciphers()` are equal. -/
theorem honest_handshake_completes :
    ∃ i r, Honest D C H pat prologue ki kr i r ∧ i.completed = true ∧ r.completed = true ∧
      i.get_hash = r.get_hash ∧ i.get_ciphers H = r.get_ciphers H := by
  obtain ⟨i, r, hi, hr⟩ := @new_pair_total D C H pat prologue ki kr hv hki hkr
  have h0 : Honest D C H pat prologue ki kr i r := .new hi hr
  obtain ⟨i', r', h, hend⟩ := h0.reaches_end C H hv hki hkr hD hC hk
    (pat.message_patterns.length - i.message_index) (by have := h0.index_le; omega)
  have hq := h.paired
  have ha := h.agree C H hv hD hC hk
  refine ⟨i', r', h, ?_, ?_, by simp [get_hash, ha.symmetric],
    by simp [get_ciphers, ha.symmetric]⟩
  · simp [completed, hend, hq.pattern_i]
  · simp [completed, hq.index, hend, hq.pattern_r]

end Completion

theorem honest_handshake_completes_nn :
    ∃ i r, Honest toy_dh toy_cipher toy_hash HandshakePattern.noise_nn [] ⟨none, some [3], none, none⟩
        ⟨none, some [5], none, none⟩ i r ∧
      i.completed = true ∧ r.completed = true ∧ i.get_hash = r.get_hash ∧
      i.get_ciphers toy_hash = r.get_ciphers toy_hash :=
  @honest_handshake_completes toy_dh toy_cipher toy_hash HandshakePattern.noise_nn []
    ⟨none, some [3], none, none⟩ ⟨none, some [5], none, none⟩ (by decide) (by decide) (by decide)
    toy_dh_commutes toy_cipher_correct ⟨by simp, by simp⟩

end HandshakeState

end NoiseRust
