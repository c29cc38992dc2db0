/-
Handshake patterns, and the bookkeeping that results about whole runs are stated in.

`handshakepattern.rs` is not among the sources. From `handshakestate.rs` a pattern has a
name, the initiator's and the responder's pre-message tokens and the list of message
patterns; the legacy tree has no PSK (`// TODO support PSK.`), so a token is one of the
six below, and message `j` is sent by the initiator exactly when `j` is even.

The rest of the file is specification, not code. `Known` records which of the four
public keys (each side's ephemeral and static) a run has introduced so far, by a
pre-message or by an `E` or `S` token. A pattern is `valid` when its pre-messages are
`S` tokens only and every DH token comes after both keys it combines. `token_widths`
is the wire format of one message: the width of every field, which depends on whether
the cipher is keyed, which a DH token switches on. All of these are `Bool`-valued and
computable, so the validity of a concrete pattern is decided by evaluation.
-/
import NoiseRust.Crypto

set_option autoImplicit false

namespace NoiseRust

/-- Modelled from the spec: a token of the legacy pattern language (no `PSK`). -/
inductive Token where
  | E | S | EE | ES | SE | SS
  deriving DecidableEq, Repr

/-- A Diffie-Hellman token, the ones `perform_dh` handles. -/
def Token.is_dh : Token → Bool
  | .E | .S => false
  | _ => true

/-- Modelled from the spec: a handshake pattern; `get_pre_i()`, `get_pre_r()` and
`get_message_patterns()` are its fields. -/
structure HandshakePattern where
  name : String
  pre_i : List Token
  pre_r : List Token
  message_patterns : List (List Token)
  deriving DecidableEq, Repr

namespace HandshakePattern

/-- Modelled from the spec: `Noise_N`, one message to a known responder. -/
def noise_n : HandshakePattern := ⟨"N", [], [.S], [[.E, .ES]]⟩

/-- Modelled from the spec: `Noise_NN`, spec scenario E. -/
def noise_nn : HandshakePattern := ⟨"NN", [], [], [[.E], [.E, .EE]]⟩

/-- Modelled from the spec: `Noise_XX`, spec scenario F. -/
def noise_xx : HandshakePattern :=
  ⟨"XX", [], [], [[.E], [.E, .EE, .S, .ES], [.S, .SE]]⟩

/-- Modelled from the spec: `Noise_IK`, with the responder's static key a pre-message. -/
def noise_ik : HandshakePattern :=
  ⟨"IK", [], [.S], [[.E, .ES, .S, .SS], [.E, .EE, .SE]]⟩

end HandshakePattern

/-- The initiator sends message `j`. -/
def initiator_sends (j : Nat) : Bool := j % 2 == 0

/-! ## Which keys a run has introduced -/

/-- Which of the four public keys have been introduced. -/
structure Known where
  init_e : Bool
  init_s : Bool
  resp_e : Bool
  resp_s : Bool
  deriving DecidableEq, Repr

namespace Known

/-- One side's ephemeral key is known. -/
def ephemeral (K : Known) (initiator : Bool) : Bool := if initiator then K.init_e else K.resp_e

/-- One side's static key is known. -/
def static (K : Known) (initiator : Bool) : Bool := if initiator then K.init_s else K.resp_s

/-- What a token sent by one side introduces. -/
def add (K : Known) (sender : Bool) : Token → Known
  | .E => if sender then { K with init_e := true } else { K with resp_e := true }
  | .S => if sender then { K with init_s := true } else { K with resp_s := true }
  | _ => K

@[simp] theorem ephemeral_add (K : Known) (sender c : Bool) (t : Token) :
    (K.add sender t).ephemeral c = (K.ephemeral c || (t == .E && c == sender)) := by
  cases t <;> cases sender <;> cases c <;> simp [add, ephemeral]

@[simp] theorem static_add (K : Known) (sender c : Bool) (t : Token) :
    (K.add sender t).static c = (K.static c || (t == .S && c == sender)) := by
  cases t <;> cases sender <;> cases c <;> simp [add, static]

/-- What a message sent by one side introduces. -/
def add_all (K : Known) (sender : Bool) (m : List Token) : Known := m.foldl (add · sender) K

@[simp] theorem add_all_nil (K : Known) (sender : Bool) : K.add_all sender [] = K := rfl

@[simp] theorem add_all_cons (K : Known) (sender : Bool) (t : Token) (m : List Token) :
    K.add_all sender (t :: m) = (K.add sender t).add_all sender m := rfl

end Known

/-- A DH token may be performed once both keys it combines are known: `EE` the two
ephemerals, `ES` the initiator's ephemeral and the responder's static, and so on. -/
def Token.ready (K : Known) : Token → Bool
  | .EE => K.init_e && K.resp_e
  | .ES => K.init_e && K.resp_s
  | .SE => K.init_s && K.resp_e
  | .SS => K.init_s && K.resp_s
  | _ => true

/-- Every DH token of a message sent by `sender` comes after the keys it combines. -/
def tokens_ready (sender : Bool) : Known → List Token → Bool
  | _, [] => true
  | K, t :: m => t.ready K && tokens_ready sender (K.add sender t) m

/-- The keys known after the messages `ms`, the first of them numbered `j`. -/
def known_after : Known → Nat → List (List Token) → Known
  | K, _, [] => K
  | K, j, m :: ms => known_after (K.add_all (initiator_sends j) m) (j + 1) ms

namespace HandshakePattern

variable (pat : HandshakePattern)

/-- The pre-message of one side. -/
def pre_message (initiator : Bool) : List Token := if initiator then pat.pre_i else pat.pre_r

/-- The static keys the pre-messages introduce. -/
def pre_known : Known := ⟨false, pat.pre_i.contains .S, false, pat.pre_r.contains .S⟩

/-- The keys known when message `j` starts. -/
def known_at (j : Nat) : Known := known_after pat.pre_known 0 (pat.message_patterns.take j)

@[simp] theorem known_at_zero : pat.known_at 0 = pat.pre_known := rfl

/-- Modelled from the spec (§4.4, "patterns must validate at construction"): the
pre-messages hold only `S`, and every DH token comes after the keys it combines. -/
def valid : Bool :=
  pat.pre_i.all (· == .S) && pat.pre_r.all (· == .S) &&
    (List.range pat.message_patterns.length).all fun j =>
      tokens_ready (initiator_sends j) (pat.known_at j) (pat.message_patterns.getD j [])

/-- Some DH token occurs in the messages before message `j`. -/
def dh_before (j : Nat) : Bool := (pat.message_patterns.take j).any (·.any Token.is_dh)

theorem dh_before_succ {j : Nat} {m : List Token} (h : pat.message_patterns[j]? = some m) :
    pat.dh_before (j + 1) = (pat.dh_before j || m.any Token.is_dh) := by
  simp [dh_before, List.take_succ, h]

theorem known_after_append (K : Known) (i : Nat) (l : List (List Token)) (m : List Token) :
    known_after K i (l ++ [m]) = (known_after K i l).add_all (initiator_sends (i + l.length)) m := by
  induction l generalizing K i with
  | nil => rfl
  | cons m' l ih => simp [known_after, ih, Nat.add_assoc, Nat.add_comm 1]

theorem known_at_succ {j : Nat} {m : List Token} (h : pat.message_patterns[j]? = some m) :
    pat.known_at (j + 1) = (pat.known_at j).add_all (initiator_sends j) m := by
  have hj : j < pat.message_patterns.length := (List.getElem?_eq_some_iff.1 h).1
  simp [known_at, List.take_succ, h, known_after_append, Nat.min_eq_left hj.le]

/-- One side sends token `t` in some message, the first of `ms` numbered `j`. -/
def sends_from (initiator : Bool) (t : Token) : Nat → List (List Token) → Bool
  | _, [] => false
  | j, m :: ms => (initiator_sends j == initiator && m.contains t) || sends_from initiator t (j + 1) ms

/-- One side sends token `t` in some message of the pattern. -/
def sends (initiator : Bool) (t : Token) : Bool := sends_from initiator t 0 pat.message_patterns

theorem sends_from_of_mem {initiator : Bool} {t : Token} {m : List Token} :
    ∀ {i j : Nat} {ms : List (List Token)}, ms[j]? = some m → t ∈ m →
      initiator_sends (i + j) = initiator → sends_from initiator t i ms = true
  | _, _, [], hm, _, _ => by simp at hm
  | i, 0, m' :: ms, hm, ht, hs => by
    simp only [List.getElem?_cons_zero, Option.some.injEq] at hm
    subst hm
    simp [sends_from, ← hs, ht]
  | i, j + 1, m' :: ms, hm, ht, hs => by
    simp only [List.getElem?_cons_succ] at hm
    have hs' : initiator_sends (i + 1 + j) = initiator := by rw [← hs, Nat.add_right_comm, Nat.add_assoc]
    simp [sends_from, sends_from_of_mem hm ht hs']

/-- A token of message `j` is sent by the side that sends message `j`. -/
theorem sends_of_mem {j : Nat} {m : List Token} {t : Token} (hm : pat.message_patterns[j]? = some m)
    (ht : t ∈ m) : pat.sends (initiator_sends j) t = true :=
  sends_from_of_mem hm ht (by simp)

end HandshakePattern

/-! ## The wire format of one message -/

/-- The cipher is keyed after the tokens `m`, starting keyed exactly when `keyed`. -/
def keyed_after (keyed : Bool) (m : List Token) : Bool := keyed || m.any Token.is_dh

/-- The fields one token appends to a message: a public key for `E`, a public key and,
once keyed, a tag for `S`, and nothing for a DH token. -/
def token_field_widths (pub_len : Nat) (keyed : Bool) : Token → List Nat
  | .E => [pub_len]
  | .S => [pub_len + tag_len keyed]
  | _ => []

/-- The widths of the token fields of a message; a DH token keys the cipher for the
tokens after it. -/
def token_widths (pub_len : Nat) : Bool → List Token → List Nat
  | _, [] => []
  | keyed, t :: m => token_field_widths pub_len keyed t ++ token_widths pub_len (keyed || t.is_dh) m

/-- The width of one token's field: the sum over a message in the spec's length formula. -/
def token_len (pub_len : Nat) (keyed : Bool) : Token → Nat
  | .E => pub_len
  | .S => pub_len + tag_len keyed
  | _ => 0

/-- The total width of a message's token fields. -/
def tokens_len (pub_len : Nat) : Bool → List Token → Nat
  | _, [] => 0
  | keyed, t :: m => token_len pub_len keyed t + tokens_len pub_len (keyed || t.is_dh) m

/-- Fields of the widths `token_widths` gives add up to `tokens_len`. -/
theorem length_flatten_of_widths {pub_len : Nat} {keyed : Bool} {m : List Token}
    {fs : List Bytes} (h : fs.map List.length = token_widths pub_len keyed m) :
    fs.flatten.length = tokens_len pub_len keyed m := by
  rw [List.length_flatten, h]
  clear h
  induction m generalizing keyed with
  | nil => rfl
  | cons t m ih => cases t <;> simp [token_widths, token_field_widths, token_len, tokens_len, ih]

@[simp] theorem keyed_after_nil (keyed : Bool) : keyed_after keyed [] = keyed := by
  simp [keyed_after]

theorem keyed_after_cons (keyed : Bool) (t : Token) (m : List Token) :
    keyed_after keyed (t :: m) = keyed_after (keyed || t.is_dh) m := by
  simp [keyed_after, Bool.or_assoc]

end NoiseRust
