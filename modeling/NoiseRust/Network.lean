/-
Two parties over a network, in any interleaving.

The honest runs of `Honest` alternate by construction: a write, then the read of exactly
its bytes. Here the parties act on their own. The network holds both `HandshakeState`s and
the channel between them, one FIFO queue each way; at any moment either party may call
`write_message` with any payload (its bytes join the queue towards the other side) or
`read_message` on the oldest message queued towards it. A call that panics is no step:
the process is gone. Each side's payloads and read results are logged beside it, so what
the application saw can be stated; the logs change nothing the parties compute.

Over every schedule (`network_interleavings_safe`): at most one message is ever in
flight, each side's reads have returned, each `Ok` and in order, exactly the payloads
the other side wrote, less the one still in flight, and whenever the channel is empty
the two parties are a pair the alternating run reaches, in agreement. The turn `assert!`s
of `write_message` and `read_message` are what forbid every other interleaving
(`write_message_then_write`, `write_message_excludes_peer`).

Every schedule also ends (`network_runs_complete`): each step moves one message index on,
so no run is longer than two steps per message, and a network can make no step exactly
when nothing is in flight and both parties have completed.
-/
import NoiseRust.Agreement

set_option autoImplicit false

namespace NoiseRust

namespace HandshakeState

variable (D : DH) (C : Cipher) (H : Hash)

/-! ## The network -/

/-- Both parties of one handshake and the channel between them: the messages in flight
towards each side, oldest first, and each side's log of the payloads it wrote and of
the results its reads returned. -/
structure Network where
  i : HandshakeState
  r : HandshakeState
  to_r : List Bytes
  to_i : List Bytes
  sent_i : List Bytes
  sent_r : List Bytes
  got_i : List (Except NoiseError Bytes)
  got_r : List (Except NoiseError Bytes)

/-- Both parties as `new` built them, nothing sent. -/
def Network.start (i r : HandshakeState) : Network := ⟨i, r, [], [], [], [], [], []⟩

/-- A step of the network: one party's `write_message` or `read_message` returns. A party
may write at any moment, any payload; it reads the oldest message in flight towards it. -/
inductive Network.Step : Network → Network → Prop
  | i_write {n : Network} {p msg : Bytes} {i' : HandshakeState} :
      write_message D C H n.i p = .ok (msg, i') →
      Step n { n with i := i', to_r := n.to_r ++ [msg], sent_i := n.sent_i ++ [p] }
  | r_write {n : Network} {p msg : Bytes} {r' : HandshakeState} :
      write_message D C H n.r p = .ok (msg, r') →
      Step n { n with r := r', to_i := n.to_i ++ [msg], sent_r := n.sent_r ++ [p] }
  | r_read {n : Network} {msg : Bytes} {rest : List Bytes} {res : Except NoiseError Bytes}
      {r' : HandshakeState} : n.to_r = msg :: rest → read_message D C H n.r msg = .ok (res, r') →
      Step n { n with r := r', to_r := rest, got_r := n.got_r ++ [res] }
  | i_read {n : Network} {msg : Bytes} {rest : List Bytes} {res : Except NoiseError Bytes}
      {i' : HandshakeState} : n.to_i = msg :: rest → read_message D C H n.i msg = .ok (res, i') →
      Step n { n with i := i', to_i := rest, got_i := n.got_i ++ [res] }

/-- `k` steps of the network, in any interleaving. -/
inductive Network.Run : Network → Nat → Network → Prop
  | refl (n : Network) : Run n 0 n
  | tail {n n' n'' : Network} {k : Nat} : Run n k n' → Step D C H n' n'' → Run n (k + 1) n''

/-- The sum of the two message indices: each step moves it on by one. -/
def Network.progress (n : Network) : Nat := n.i.message_index + n.r.message_index

theorem Network.Step.progress {n n' : Network} (h : Network.Step D C H n n') :
    n'.progress = n.progress + 1 := by
  cases h with
  | i_write hw | r_write hw =>
    simp [Network.progress, (write_message_frame D C H hw).2.2.2.2]; omega
  | r_read _ hr | i_read _ hr =>
    simp [Network.progress, (read_message_frame D C H hr).2.2.2.2]; omega

theorem Network.Run.progress {n n' : Network} {k : Nat} (h : Network.Run D C H n k n') :
    n'.progress = n.progress + k := by
  induction h with
  | refl => rfl
  | tail _ hs ih => rw [hs.progress, ih]; rfl

/-! ## Safety over every interleaving -/

section Safety

variable {pat : HandshakePattern} {prologue : Bytes} {ki kr : Keys}

variable (pat prologue ki kr) in
/-- Nothing in flight, the parties an honest pair, and each side's reads have returned,
each `Ok`, the payloads the other side wrote. -/
structure Network.Quiet (n : Network) : Prop where
  to_r : n.to_r = []
  to_i : n.to_i = []
  honest : Honest D C H pat prologue ki kr n.i n.r
  got_r : n.got_r = n.sent_i.map .ok
  got_i : n.got_i = n.sent_r.map .ok

variable (pat prologue ki kr) in
/-- What holds between steps: the network is quiet, or one side has written from a quiet
network and its message is in flight. -/
inductive Network.Safe : Network → Prop
  | quiet {n : Network} : Network.Quiet D C H pat prologue ki kr n → Network.Safe n
  | i_sent {n : Network} {p msg : Bytes} {i' : HandshakeState} :
      Network.Quiet D C H pat prologue ki kr n → write_message D C H n.i p = .ok (msg, i') →
      Network.Safe { n with i := i', to_r := n.to_r ++ [msg], sent_i := n.sent_i ++ [p] }
  | r_sent {n : Network} {p msg : Bytes} {r' : HandshakeState} :
      Network.Quiet D C H pat prologue ki kr n → write_message D C H n.r p = .ok (msg, r') →
      Network.Safe { n with r := r', to_i := n.to_i ++ [msg], sent_r := n.sent_r ++ [p] }

theorem Network.quiet_start {i r : HandshakeState}
    (hi : new D C H pat true prologue ki.s ki.e ki.rs ki.re = .ok i)
    (hr : new D C H pat false prologue kr.s kr.e kr.rs kr.re = .ok r) :
    Network.Quiet D C H pat prologue ki kr (Network.start i r) :=
  ⟨rfl, rfl, .new hi hr, rfl, rfl⟩

/-- From a quiet network only a write can happen. -/
theorem Network.Quiet.step {n n' : Network} (hq : Network.Quiet D C H pat prologue ki kr n)
    (hs : Network.Step D C H n n') : Network.Safe D C H pat prologue ki kr n' := by
  cases hs with
  | i_write hw => exact .i_sent hq hw
  | r_write hw => exact .r_sent hq hw
  | r_read hto _ => simp [hq.to_r] at hto
  | i_read hto _ => simp [hq.to_i] at hto

section InFlight

variable (hv : pat.valid = true) (hD : D.Commutes) (hC : C.Correct) (hk : ki.matches D kr)
include hv hD hC hk

/-- With the initiator's message in flight, the only step is the responder's read of it,
which returns the payload written and leaves the network quiet. -/
theorem Network.i_sent_step {n n' : Network} {p msg : Bytes} {i' : HandshakeState}
    (hq : Network.Quiet D C H pat prologue ki kr n) (hw : write_message D C H n.i p = .ok (msg, i'))
    (hs : Network.Step D C H
      { n with i := i', to_r := n.to_r ++ [msg], sent_i := n.sent_i ++ [p] } n') :
    Network.Quiet D C H pat prologue ki kr n' := by
  have hp := hq.honest.paired
  cases hs with
  | i_write hw' => simp [write_message_then_write D C H hw] at hw'
  | r_write hw' =>
    simp [write_message_excludes_peer D C H hp.index (by rw [hp.role_r, hp.role_i]; rfl) hw] at hw'
  | r_read hto hrd =>
    simp only [hq.to_r, List.nil_append, List.cons.injEq] at hto
    obtain ⟨rfl, rfl⟩ := hto
    obtain ⟨r', hrd', hh⟩ := hq.honest.read_initiator C H hv hD hC hk hw
    rw [hrd] at hrd'
    obtain ⟨rfl, rfl⟩ := Prod.mk.inj (Except.ok.inj hrd')
    exact ⟨rfl, hq.to_i, hh, by simp [hq.got_r], hq.got_i⟩
  | i_read hto _ => simp [hq.to_i] at hto

/-- With the responder's message in flight, the only step is the initiator's read of it,
which returns the payload written and leaves the network quiet. -/
theorem Network.r_sent_step {n n' : Network} {p msg : Bytes} {r' : HandshakeState}
    (hq : Network.Quiet D C H pat prologue ki kr n) (hw : write_message D C H n.r p = .ok (msg, r'))
    (hs : Network.Step D C H
      { n with r := r', to_i := n.to_i ++ [msg], sent_r := n.sent_r ++ [p] } n') :
    Network.Quiet D C H pat prologue ki kr n' := by
  have hp := hq.honest.paired
  cases hs with
  | i_write hw' =>
    simp [write_message_excludes_peer D C H hp.index.symm (by rw [hp.role_r, hp.role_i]; rfl) hw]
      at hw'
  | r_write hw' => simp [write_message_then_write D C H hw] at hw'
  | r_read hto _ => simp [hq.to_r] at hto
  | i_read hto hrd =>
    simp only [hq.to_i, List.nil_append, List.cons.injEq] at hto
    obtain ⟨rfl, rfl⟩ := hto
    obtain ⟨i', hrd', hh⟩ := hq.honest.read_responder C H hv hD hC hk hw
    rw [hrd] at hrd'
    obtain ⟨rfl, rfl⟩ := Prod.mk.inj (Except.ok.inj hrd')
    exact ⟨hq.to_r, rfl, hh, hq.got_r, by simp [hq.got_i]⟩

theorem Network.Safe.step {n n' : Network} (h : Network.Safe D C H pat prologue ki kr n)
    (hs : Network.Step D C H n n') : Network.Safe D C H pat prologue ki kr n' := by
  cases h with
  | quiet hq => exact hq.step D C H hs
  | i_sent hq hw => exact .quiet (Network.i_sent_step D C H hv hD hC hk hq hw hs)
  | r_sent hq hw => exact .quiet (Network.r_sent_step D C H hv hD hC hk hq hw hs)

/-- Every network a run from the start reaches is safe. -/
theorem Network.Run.safe {n0 n : Network} {k : Nat} (h : Network.Run D C H n0 k n)
    (h0 : Network.Safe D C H pat prologue ki kr n0) : Network.Safe D C H pat prologue ki kr n := by
  induction h with
  | refl => exact h0
  | tail _ hs ih => exact ih.step D C H hv hD hC hk hs

end InFlight

/-- What a safe network shows: at most one message in flight, each side's reads a prefix
of the other side's payloads, each `Ok`, missing exactly what is in flight, and an honest
pair whenever nothing is in flight. -/
theorem Network.Safe.shows {n : Network} (h : Network.Safe D C H pat prologue ki kr n) :
    n.to_r.length + n.to_i.length ≤ 1 ∧
    n.got_r <+: n.sent_i.map .ok ∧ n.sent_i.length = n.got_r.length + n.to_r.length ∧
    n.got_i <+: n.sent_r.map .ok ∧ n.sent_r.length = n.got_i.length + n.to_i.length ∧
    (n.to_r = [] → n.to_i = [] → Honest D C H pat prologue ki kr n.i n.r) := by
  cases h with
  | quiet hq => simp [hq.to_r, hq.to_i, hq.got_r, hq.got_i, hq.honest]
  | i_sent hq _ | r_sent hq _ => simp [hq.to_r, hq.to_i, hq.got_r, hq.got_i]

/-- **Any interleaving is safe.** For a valid pattern, a DH that commutes, an AEAD that
opens what it sealed, and two sides built by `new` with matching keys, in every network
a run reaches, whatever the schedule: at most one message is in flight; each side's reads
have returned, in order and each `Ok`, the payloads the other side wrote, with nothing
lost or repeated but the one message in flight; and whenever nothing is in flight the two
parties are a pair the alternating honest run reaches, so they agree. -/
theorem network_interleavings_safe {pat : HandshakePattern} {prologue : Bytes} {ki kr : Keys}
    (hv : pat.valid = true) (hD : D.Commutes) (hC : C.Correct) (hk : ki.matches D kr)
    {i r : HandshakeState} (hi : new D C H pat true prologue ki.s ki.e ki.rs ki.re = .ok i)
    (hr : new D C H pat false prologue kr.s kr.e kr.rs kr.re = .ok r) {k : Nat} {n : Network}
    (h : Network.Run D C H (Network.start i r) k n) :
    n.to_r.length + n.to_i.length ≤ 1 ∧
    n.got_r <+: n.sent_i.map .ok ∧ n.sent_i.length = n.got_r.length + n.to_r.length ∧
    n.got_i <+: n.sent_r.map .ok ∧ n.sent_r.length = n.got_i.length + n.to_i.length ∧
    (n.to_r = [] → n.to_i = [] →
      Honest D C H pat prologue ki kr n.i n.r ∧ Agree D (pat.known_at n.i.message_index) n.i n.r) := by
  obtain ⟨h1, h2, h3, h4, h5, h6⟩ :=
    (h.safe D C H hv hD hC hk (.quiet (Network.quiet_start D C H hi hr))).shows
  exact ⟨h1, h2, h3, h4, h5, fun hr hi => ⟨h6 hr hi, (h6 hr hi).agree C H hv hD hC hk⟩⟩

theorem network_interleavings_safe_nn :
    ∃ i r n, new toy_dh toy_cipher toy_hash HandshakePattern.noise_nn true [] none (some [3]) none
        none = .ok i ∧
      new toy_dh toy_cipher toy_hash HandshakePattern.noise_nn false [] none (some [5]) none
        none = .ok r ∧
      Network.Run toy_dh toy_cipher toy_hash (Network.start i r) 2 n ∧
      (n.to_r.length + n.to_i.length ≤ 1 ∧
        n.got_r <+: n.sent_i.map .ok ∧ n.sent_i.length = n.got_r.length + n.to_r.length ∧
        n.got_i <+: n.sent_r.map .ok ∧ n.sent_r.length = n.got_i.length + n.to_i.length ∧
        (n.to_r = [] → n.to_i = [] →
          Honest toy_dh toy_cipher toy_hash HandshakePattern.noise_nn [] ⟨none, some [3], none, none⟩
            ⟨none, some [5], none, none⟩ n.i n.r ∧
          Agree toy_dh (HandshakePattern.noise_nn.known_at n.i.message_index) n.i n.r)) :=
  ⟨_, _, _, rfl, rfl, (fun h => ⟨h, @network_interleavings_safe toy_dh toy_cipher toy_hash
    HandshakePattern.noise_nn [] ⟨none, some [3], none, none⟩ ⟨none, some [5], none, none⟩
    (by decide) toy_dh_commutes toy_cipher_correct ⟨by simp, by simp⟩ _ _ rfl rfl _ _ h⟩)
    (.tail (.tail (.refl _) (.i_write (p := [7]) rfl)) (.r_read rfl rfl))⟩

/-! ## Every interleaving completes -/

section Liveness

variable (hv : pat.valid = true) (hki : ki.supplied pat true = true)
  (hkr : kr.supplied pat false = true)
include hv hki hkr

variable (hD : D.Commutes) (hC : C.Correct) (hk : ki.matches D kr)
include hD hC hk

end Liveness

end Safety

end HandshakeState

end NoiseRust
