/-
Two parties running one handshake honestly.

`Honest` is the pairs of states (initiator, responder) an honest alternating run
reaches: both are built by `new` with one pattern and one prologue, then for each message
in turn the side whose turn it is calls `write_message`, and the other side calls
`read_message` on exactly the bytes returned, which returns `Ok` (after an `Err` the
run is over: the spec forbids using the state again).

The first results need no cryptographic assumption. Each side of an honest pair is a
`Reachable` party, the two hold the same pattern and message index and opposite roles,
and each keeps the keys it was built with. From `Panics`, `honest_run_never_panics`
follows: when each side is built with the keys its role uses (`Keys.supplied`), `new`
returns on both sides and, from every honest pair, the next `write_message` and the
`read_message` of its bytes return instead of panicking.
-/
import NoiseRust.Panics

set_option autoImplicit false

namespace NoiseRust

/-- The keys one side is built with: `new`'s `s`, `e`, `rs` and `re`. -/
structure Keys where
  s : Option Bytes
  e : Option Bytes
  rs : Option Bytes
  re : Option Bytes
  deriving DecidableEq, Repr

/-- Modelled from the spec (§4.4): a side is built with its static key when its static
key appears in the pattern, with its ephemeral key when it sends `E`, and with the peer's
static key when that is a pre-message. -/
def Keys.supplied (k : Keys) (pat : HandshakePattern) (initiator : Bool) : Bool :=
  (!((pat.pre_message initiator).contains .S || pat.sends initiator .S) || k.s.isSome) &&
  (!(pat.sends initiator .E) || k.e.isSome) &&
  (!((pat.pre_message (!initiator)).contains .S) || k.rs.isSome)

theorem Keys.supplied_s {k : Keys} {pat : HandshakePattern} {b : Bool}
    (h : k.supplied pat b = true)
    (hs : ((pat.pre_message b).contains .S || pat.sends b .S) = true) : k.s.isSome := by
  simp only [Keys.supplied, hs, Bool.not_true, Bool.false_or, Bool.and_eq_true] at h
  exact h.1.1

theorem Keys.supplied_e {k : Keys} {pat : HandshakePattern} {b : Bool}
    (h : k.supplied pat b = true) (he : pat.sends b .E = true) : k.e.isSome := by
  simp only [Keys.supplied, he, Bool.not_true, Bool.false_or, Bool.and_eq_true] at h
  exact h.1.2

theorem Keys.supplied_rs {k : Keys} {pat : HandshakePattern} {b : Bool}
    (h : k.supplied pat b = true) (hrs : (pat.pre_message (!b)).contains .S = true) :
    k.rs.isSome := by
  simp only [Keys.supplied, hrs, Bool.not_true, Bool.false_or, Bool.and_eq_true] at h
  exact h.2

namespace HandshakeState

variable (D : DH) (C : Cipher) (H : Hash)

/-! ## Honest runs -/

/-- The pairs (initiator, responder) an honest alternating run reaches. -/
inductive Honest (pat : HandshakePattern) (prologue : Bytes) (ki kr : Keys) :
    HandshakeState → HandshakeState → Prop
  | new {i r : HandshakeState} :
      HandshakeState.new D C H pat true prologue ki.s ki.e ki.rs ki.re = .ok i →
      HandshakeState.new D C H pat false prologue kr.s kr.e kr.rs kr.re = .ok r →
      Honest pat prologue ki kr i r
  | initiator_writes {i r i' r' : HandshakeState} {p msg p' : Bytes} :
      Honest pat prologue ki kr i r → write_message D C H i p = .ok (msg, i') →
      read_message D C H r msg = .ok (.ok p', r') → Honest pat prologue ki kr i' r'
  | responder_writes {i r i' r' : HandshakeState} {p msg p' : Bytes} :
      Honest pat prologue ki kr i r → write_message D C H r p = .ok (msg, r') →
      read_message D C H i msg = .ok (.ok p', i') → Honest pat prologue ki kr i' r'

/-- What every honest pair keeps, whatever the primitives: each side is a reachable
party with its own role and keys, and the two sides are at the same message. -/
structure Paired (pat : HandshakePattern) (ki kr : Keys) (i r : HandshakeState) : Prop where
  reach_i : Reachable D C H i
  reach_r : Reachable D C H r
  role_i : i.is_initiator = true
  role_r : r.is_initiator = false
  pattern_i : i.pattern = pat
  pattern_r : r.pattern = pat
  index : r.message_index = i.message_index
  s_i : i.s = ki.s
  e_i : i.e = ki.e
  s_r : r.s = kr.s
  e_r : r.e = kr.e

/-- A write on one side and a read on the other keep a pair paired. -/
theorem Paired.advance {pat : HandshakePattern} {ki kr : Keys} {i r i' r' : HandshakeState}
    (hq : Paired D C H pat ki kr i r) (hi : Reachable D C H i') (hr : Reachable D C H r')
    (hfi : i'.s = i.s ∧ i'.e = i.e ∧ i'.is_initiator = i.is_initiator ∧ i'.pattern = i.pattern ∧
      i'.message_index = i.message_index + 1)
    (hfr : r'.s = r.s ∧ r'.e = r.e ∧ r'.is_initiator = r.is_initiator ∧ r'.pattern = r.pattern ∧
      r'.message_index = r.message_index + 1) :
    Paired D C H pat ki kr i' r' := by
  obtain ⟨hs, he, hrole, hp, hidx⟩ := hfi
  obtain ⟨hs', he', hrole', hp', hidx'⟩ := hfr
  exact ⟨hi, hr, hrole.trans hq.role_i, hrole'.trans hq.role_r, hp.trans hq.pattern_i,
    hp'.trans hq.pattern_r, by rw [hidx, hidx', hq.index], hs.trans hq.s_i, he.trans hq.e_i,
    hs'.trans hq.s_r, he'.trans hq.e_r⟩

theorem Honest.paired {pat : HandshakePattern} {prologue : Bytes} {ki kr : Keys}
    {i r : HandshakeState} (h : Honest D C H pat prologue ki kr i r) :
    Paired D C H pat ki kr i r := by
  induction h with
  | new hi hr =>
    obtain ⟨-, hi0, hpi, hri, hsi, hei, -⟩ := new_spec D C H hi
    obtain ⟨-, hr0, hpr, hrr, hsr, her, -⟩ := new_spec D C H hr
    exact ⟨.new hi, .new hr, hri, hrr, hpi, hpr, hr0.trans hi0.symm, hsi, hei, hsr, her⟩
  | initiator_writes _ hw hrd ih =>
    exact Paired.advance D C H ih (ih.reach_i.write hw) (ih.reach_r.read hrd)
      (write_message_frame D C H hw) (read_message_frame D C H hrd)
  | responder_writes _ hw hrd ih =>
    exact Paired.advance D C H ih (ih.reach_i.read hrd) (ih.reach_r.write hw)
      (read_message_frame D C H hrd) (write_message_frame D C H hw)

/-! ## No panic -/

/-- One exchange from two reachable parties at the same message of a valid pattern, the
writer holding the keys its tokens send: the write returns, and the read of its bytes
returns. The reader's only panic, a keyed remainder shorter than a tag, cannot occur:
both sides are keyed exactly after the same DH tokens, so they cut the message into the
same fields and the remainder is the whole payload ciphertext, tag included. -/
theorem exchange_total {w rd : HandshakeState} (hw : Reachable D C H w) (hrd : Reachable D C H rd)
    (hv : w.pattern.valid = true) (hp : rd.pattern = w.pattern)
    (hidx : rd.message_index = w.message_index)
    (hlt : w.message_index < w.pattern.message_patterns.length)
    (hturn : initiator_sends w.message_index = w.is_initiator)
    (hrole : rd.is_initiator = !w.is_initiator)
    (he : ∀ m, w.pattern.message_patterns[w.message_index]? = some m → .E ∈ m → w.e.isSome)
    (hs : ∀ m, w.pattern.message_patterns[w.message_index]? = some m → .S ∈ m → w.s.isSome)
    (p : Bytes) :
    ∃ msg w', write_message D C H w p = .ok (msg, w') ∧
      ∃ res rd', read_message D C H rd msg = .ok (res, rd') := by
  obtain ⟨m, hm⟩ : ∃ m, w.pattern.message_patterns[w.message_index]? = some m :=
    ⟨_, List.getElem?_eq_getElem hlt⟩
  obtain ⟨⟨msg, w'⟩, hwm⟩ := write_message_total D C H hw hv hturn hm (he m hm) (hs m hm) p
  refine ⟨msg, w', hwm, ?_⟩
  have hkey : rd.symmetric.has_key = w.symmetric.has_key := by
    rw [Reachable.has_key_eq D C H hw, Reachable.has_key_eq D C H hrd, hp, hidx]
  rcases read_message_panics_only_on_short_payload D C H hrd (hp ▸ hv)
    (by rw [hrole, hidx, hturn, Bool.not_not]) (by rw [hp, hidx]; exact hlt) msg with h | h
  · obtain ⟨⟨res, rd'⟩, hr⟩ := h
    exact ⟨res, rd', hr⟩
  exfalso
  obtain ⟨m', hm', fs, ct, hmsg, hw', hkeyed, hshort⟩ := h
  rw [hp, hidx, hm] at hm'
  obtain rfl := Option.some.inj hm'
  obtain ⟨m'', hm'', fs', ct', hmsg', hw'', hct', -⟩ := write_message_spec D C H hwm
  rw [hm] at hm''
  obtain rfl := Option.some.inj hm''
  have hlen := congrArg List.length (hmsg.symm.trans hmsg')
  rw [hkey] at hw' hkeyed
  simp only [List.length_append, length_flatten_of_widths hw', length_flatten_of_widths hw''] at hlen
  rw [hkeyed, tag_len_true] at hct'
  omega

/-- From an honest pair before the last message, when each side holds the keys its role
uses, the side whose turn it is can write any payload and the other side's read of those
bytes returns. -/
theorem Honest.exchange_returns {pat : HandshakePattern} {prologue : Bytes} {ki kr : Keys}
    (hv : pat.valid = true) (hki : ki.supplied pat true = true)
    (hkr : kr.supplied pat false = true) {i r : HandshakeState}
    (h : Honest D C H pat prologue ki kr i r) (hlt : i.message_index < pat.message_patterns.length)
    (p : Bytes) :
    (initiator_sends i.message_index = true →
        ∃ msg i', write_message D C H i p = .ok (msg, i') ∧
          ∃ res r', read_message D C H r msg = .ok (res, r')) ∧
      (initiator_sends i.message_index = false →
        ∃ msg r', write_message D C H r p = .ok (msg, r') ∧
          ∃ res i', read_message D C H i msg = .ok (res, i')) := by
  have hq := h.paired
  have hsent : ∀ {b : Bool} {m : List Token} {t : Token}, initiator_sends i.message_index = b →
      pat.message_patterns[i.message_index]? = some m → t ∈ m → pat.sends b t = true :=
    fun hb hm ht => hb ▸ pat.sends_of_mem hm ht
  constructor
  · intro hb
    exact exchange_total D C H hq.reach_i hq.reach_r (hq.pattern_i ▸ hv)
      (hq.pattern_r.trans hq.pattern_i.symm) hq.index (hq.pattern_i ▸ hlt)
      (hb.trans hq.role_i.symm) (by rw [hq.role_r, hq.role_i]; rfl)
      (fun m hm ht => hq.e_i ▸ Keys.supplied_e hki (hsent hb (hq.pattern_i ▸ hm) ht))
      (fun m hm ht => hq.s_i ▸ Keys.supplied_s hki
        (by rw [hsent hb (hq.pattern_i ▸ hm) ht, Bool.or_true])) p
  · intro hb
    exact exchange_total D C H hq.reach_r hq.reach_i (hq.pattern_r ▸ hv)
      (hq.pattern_i.trans hq.pattern_r.symm) hq.index.symm (hq.pattern_r ▸ hq.index ▸ hlt)
      (by rw [hq.index, hb, hq.role_r]) (by rw [hq.role_r, hq.role_i]; rfl)
      (fun m hm ht => hq.e_r ▸ Keys.supplied_e hkr (hsent hb (hq.pattern_r ▸ hq.index ▸ hm) ht))
      (fun m hm ht => hq.s_r ▸ Keys.supplied_s hkr
        (by rw [hsent hb (hq.pattern_r ▸ hq.index ▸ hm) ht, Bool.or_true])) p

/-- Both sides' `new` return when each holds the keys its role uses. -/
theorem new_pair_total {pat : HandshakePattern} {prologue : Bytes} {ki kr : Keys}
    (hv : pat.valid = true) (hki : ki.supplied pat true = true)
    (hkr : kr.supplied pat false = true) :
    ∃ i r, new D C H pat true prologue ki.s ki.e ki.rs ki.re = .ok i ∧
      new D C H pat false prologue kr.s kr.e kr.rs kr.re = .ok r := by
  obtain ⟨i, hi⟩ := new_total D C H true prologue ki.s ki.e ki.rs ki.re hv
    (fun h => Keys.supplied_s hki (by rw [h, Bool.true_or])) (Keys.supplied_rs hki)
  obtain ⟨r, hr⟩ := new_total D C H false prologue kr.s kr.e kr.rs kr.re hv
    (fun h => Keys.supplied_s hkr (by rw [h, Bool.true_or])) (Keys.supplied_rs hkr)
  exact ⟨i, r, hi, hr⟩

/-- **An honest run never panics.** For a valid pattern, when each side is built with the
keys its role uses: `new` returns on both sides, and from every pair an honest run
reaches, before the last message, the side whose turn it is can write any payload and
the other side's `read_message` of those bytes returns. So none of the panics of
`handshakestate.rs` is reached: no `Option::unwrap` of a key, no pre-message `panic!`, no
`unreachable!()`, no turn `assert!` and no index past the last message pattern. The
primitives are taken as the contracts of `Crypto` give them, total on every input; a
primitive that panics on some input of its own (the Curve25519 wrapper on a key that is
not 32 bytes) is outside this result. -/
theorem honest_run_never_panics {pat : HandshakePattern} {prologue : Bytes} {ki kr : Keys}
    (hv : pat.valid = true) (hki : ki.supplied pat true = true)
    (hkr : kr.supplied pat false = true) :
    (∃ i r, new D C H pat true prologue ki.s ki.e ki.rs ki.re = .ok i ∧
      new D C H pat false prologue kr.s kr.e kr.rs kr.re = .ok r) ∧
    ∀ i r, Honest D C H pat prologue ki kr i r → i.message_index < pat.message_patterns.length →
      ∀ p, (initiator_sends i.message_index = true →
          ∃ msg i', write_message D C H i p = .ok (msg, i') ∧
            ∃ res r', read_message D C H r msg = .ok (res, r')) ∧
        (initiator_sends i.message_index = false →
          ∃ msg r', write_message D C H r p = .ok (msg, r') ∧
            ∃ res i', read_message D C H i msg = .ok (res, i')) :=
  ⟨new_pair_total D C H hv hki hkr,
    fun _ _ h hlt p => h.exchange_returns D C H hv hki hkr hlt p⟩

theorem honest_run_never_panics_nn :
    (∃ i r, new toy_dh toy_cipher toy_hash HandshakePattern.noise_nn true [] none (some [3]) none
        none = .ok i ∧
      new toy_dh toy_cipher toy_hash HandshakePattern.noise_nn false [] none (some [5]) none
        none = .ok r) ∧
    ∀ i r, Honest toy_dh toy_cipher toy_hash HandshakePattern.noise_nn [] ⟨none, some [3], none, none⟩
        ⟨none, some [5], none, none⟩ i r →
      i.message_index < HandshakePattern.noise_nn.message_patterns.length →
      ∀ p, (initiator_sends i.message_index = true →
          ∃ msg i', write_message toy_dh toy_cipher toy_hash i p = .ok (msg, i') ∧
            ∃ res r', read_message toy_dh toy_cipher toy_hash r msg = .ok (res, r')) ∧
        (initiator_sends i.message_index = false →
          ∃ msg r', write_message toy_dh toy_cipher toy_hash r p = .ok (msg, r') ∧
            ∃ res i', read_message toy_dh toy_cipher toy_hash i msg = .ok (res, i')) :=
  @honest_run_never_panics toy_dh toy_cipher toy_hash HandshakePattern.noise_nn []
    ⟨none, some [3], none, none⟩ ⟨none, some [5], none, none⟩ (by decide) (by decide) (by decide)

end HandshakeState

end NoiseRust
