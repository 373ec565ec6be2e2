import Cfd.Base.Machine
import Cfd.Tunnel.Frame
import Mathlib.Algebra.Group.Nat.Defs
import Mathlib.Data.Fintype.Basic

/-!
# The round-robin sink

`MultiSink::on_packet` of `src/main.cpp` and the `send_packet` it ends in. The sink counts packets
and gives each to the client at the count modulo the number of clients; it reads nothing of the
clients. A client drops the packet in its guard, or calls `DatagramSend` on its connection, whose
answer is msquic's and changes nothing here.

The clients' health changes between packets as `connect`, `close` and the events of the current
connection change it. `handed_over` is what holds of every run: which client a packet goes to, that
the guard alone decides whether it gets to `DatagramSend`, that the connection it gets to is live
exactly when that client is live at that moment, and that of as many consecutive packets as there are
clients each client is given one.

Nothing here establishes that a live client gets a packet while a dead one is next in turn: it does
not.
-/

set_option autoImplicit false

namespace Cfd.Main

open Cfd.Base Cfd.Tunnel

/-! ## A client -/

/-- The state of a client that decides about its packets: `connection_` and `handshake_ok_`, and
whether its current connection has delivered `CONNECTED` and a shutdown event. -/
structure Health where
  connection : Bool
  handshakeOk : Bool
  connected : Bool
  shutDown : Bool
  deriving DecidableEq

/-- A client before its first `connect`. -/
def Health.initial : Health := ⟨false, false, false, false⟩

/-- What changes the health of a client. -/
inductive HealthEvent where
  /-- `connect` resets the handshake flags. -/
  | flagReset
  /-- `connect` stores a new connection. -/
  | connectionOpened
  /-- `CONNECTED` of the current connection. -/
  | connected
  /-- One of the shutdown events of the current connection. -/
  | shutdown
  /-- `close` resets the connection. -/
  | closed
  deriving DecidableEq

/-- The change, where it can happen: `connect` is preceded by `close`, `CONNECTED` comes at most
once and before a shutdown event. A shutdown event leaves `handshake_ok_` as it is. -/
def Health.step (h : Health) : HealthEvent → Option Health
  | .flagReset => if h.connection then none else some { h with handshakeOk := false }
  | .connectionOpened =>
    if h.connection then none
    else some { h with connection := true, connected := false, shutDown := false }
  | .connected =>
    if h.connection && !h.connected && !h.shutDown then
      some { h with connected := true, handshakeOk := true }
    else none
  | .shutdown => if h.connection then some { h with shutDown := true } else none
  | .closed => some { h with connection := false }

/-- The current connection is live: `CONNECTED` seen, no shutdown event yet, not closed. -/
def Health.Live (h : Health) : Prop :=
  h.connection = true ∧ h.connected = true ∧ h.shutDown = false

instance (h : Health) : Decidable h.Live := by
  unfold Health.Live; infer_instance

/-- What becomes of a packet: dropped by the guard, or framed and given to `DatagramSend`, with what
that answered. -/
inductive SendResult where
  | guarded
  | datagramSend (bytes : Text) (ok : Bool)
  deriving DecidableEq

/-- `QuicClientImpl::send_packet`; `ok` is what `DatagramSend` answers where it is called. -/
def sendPacket (h : Health) (ok : Bool) (data : Text) : SendResult :=
  if !h.connection || !h.handshakeOk then .guarded
  else .datagramSend (encode ⟨.IpPacket, 0, data⟩) ok

/-! ## The sink -/

/-- One packet's way: the client it was given to, that client's health then, and what became of the
packet. -/
structure Handover (n : Nat) where
  packet : Text
  client : Fin n
  health : Health
  result : SendResult
  deriving DecidableEq

/-- The packet, framed, was given to `DatagramSend`. -/
def Handover.Sent {n : Nat} (e : Handover n) : Prop :=
  ∃ ok, e.result = .datagramSend (encode ⟨.IpPacket, 0, e.packet⟩) ok

/-- It was given to `DatagramSend` of a live connection. -/
def Handover.ToLive {n : Nat} (e : Handover n) : Prop := e.Sent ∧ e.health.Live

/-- `next_`, a `size_t` of `w` bits, the clients, what `DatagramSend` answers at the moment on the
connection of each, and the packets so far. -/
structure MultiSink (n w : Nat) where
  next : BitVec w
  sinks : Fin n → Health
  answers : Fin n → Bool
  log : List (Handover n)

/-- `MultiSink::on_packet`: `next_.fetch_add(1) % sinks_.size()`. -/
def MultiSink.onPacket {n w : Nat} (s : MultiSink n w) (d : Text) : MultiSink n w :=
  if hn : 0 < n then
    let idx : Fin n := ⟨s.next.toNat % n, Nat.mod_lt _ hn⟩
    { s with
      next := s.next + 1
      log := s.log ++ [⟨d, idx, s.sinks idx, sendPacket (s.sinks idx) (s.answers idx) d⟩] }
  else s

/-- A packet from the router, a change of one client's health, or of what msquic answers on its
connection. -/
inductive PumpAction (n : Nat) where
  | packet (d : Text)
  | health (i : Fin n) (ev : HealthEvent)
  | answers (i : Fin n) (ok : Bool)

/-- The pump: packets, changes of health and answers in any order. -/
def pump (n w : Nat) : Machine (MultiSink n w) (PumpAction n) where
  init := ⟨0, fun _ => .initial, fun _ => true, []⟩
  step := fun s a =>
    match a with
    | .packet d => some (s.onPacket d)
    | .health i ev =>
      ((s.sinks i).step ev).map fun h => { s with sinks := Function.update s.sinks i h }
    | .answers i ok => some { s with answers := Function.update s.answers i ok }

/-! ## What holds of every run -/

/-- A client whose current connection has delivered `CONNECTED` has `handshake_ok_` set. -/
def Health.Consistent (h : Health) : Prop :=
  h.connection = true → h.connected = true → h.handshakeOk = true

theorem Health.Consistent.step {h h' : Health} {ev : HealthEvent} (hc : h.Consistent)
    (hstep : h.step ev = some h') : h'.Consistent := by
  cases ev with
  | flagReset =>
    simp only [Health.step] at hstep
    split at hstep
    · cases hstep
    next hnone =>
      cases hstep
      exact fun hconn => absurd hconn hnone
  | connectionOpened =>
    simp only [Health.step] at hstep
    split at hstep
    · cases hstep
    · cases hstep
      exact fun _ hconnected => nomatch hconnected
  | connected =>
    simp only [Health.step] at hstep
    split at hstep
    · cases hstep
      exact fun _ _ => rfl
    · cases hstep
  | shutdown =>
    simp only [Health.step] at hstep
    split at hstep
    · cases hstep
      exact hc
    · cases hstep
  | closed =>
    cases hstep
    exact fun hconn => nomatch hconn

section Handover

variable {n : Nat} {e : Handover n} {ok : Bool}

/-- **The guard decides** whether a packet gets to `DatagramSend`. -/
theorem sent_iff (hresult : e.result = sendPacket e.health ok e.packet) :
    e.Sent ↔ e.health.connection = true ∧ e.health.handshakeOk = true := by
  unfold Handover.Sent
  rw [hresult, sendPacket]
  cases e.health.connection <;> cases e.health.handshakeOk <;> simp

theorem guarded_iff (hresult : e.result = sendPacket e.health ok e.packet) :
    e.result = .guarded ↔ ¬ e.Sent := by
  rw [sent_iff hresult, hresult, sendPacket]
  cases e.health.connection <;> cases e.health.handshakeOk <;> simp

/-- **The guard lets through what a live client is given**: the connection that a packet gets to is live
exactly when the client is. -/
theorem toLive_iff (hc : e.health.Consistent) (hresult : e.result = sendPacket e.health ok e.packet) :
    e.ToLive ↔ e.health.Live := by
  constructor
  · exact And.right
  · intro hlive
    have ⟨hconn, hconnected, _⟩ := hlive
    exact ⟨(sent_iff hresult).mpr ⟨hconn, hc hconn hconnected⟩, hlive⟩

end Handover

/-- What the sink keeps: the counter counts the packets, the clients are consistent, packet `j` went
to the client whose turn it was, and each packet met the client as it was. -/
structure MultiSink.Sound {n w : Nat} (s : MultiSink n w) : Prop where
  count : 0 < n → s.next = BitVec.ofNat w s.log.length
  sinks : ∀ i, (s.sinks i).Consistent
  turn : ∀ j e, s.log[j]? = some e → e.client.val = j % 2 ^ w % n
  sent : ∀ e ∈ s.log, e.health.Consistent ∧ ∃ ok, e.result = sendPacket e.health ok e.packet

theorem MultiSink.Sound.onPacket {n w : Nat} {s : MultiSink n w} (h : s.Sound) (d : Text) :
    (s.onPacket d).Sound := by
  unfold MultiSink.onPacket
  split
  next hn =>
    refine ⟨fun _ => ?_, h.sinks, fun j e hj => ?_, fun e he => ?_⟩
    · simp only [h.count hn, List.length_append, List.length_cons, List.length_nil]
      exact (BitVec.ofNat_add _ 1).symm
    · simp only [List.getElem?_append] at hj
      split at hj
      · exact h.turn j e hj
      next hge =>
        -- only the entry just appended is this far down the log
        obtain ⟨hlt, he⟩ := List.getElem?_eq_some_iff.mp hj
        obtain rfl : j = s.log.length := by
          simp only [List.length_singleton] at hlt
          omega
        simp only [Nat.sub_self, List.getElem_cons_zero] at he
        subst he
        change s.next.toNat % n = _
        rw [h.count hn, BitVec.toNat_ofNat]
    · rcases List.mem_append.mp he with hold | hnew
      · exact h.sent e hold
      · obtain rfl := List.mem_singleton.mp hnew
        exact ⟨h.sinks _, _, rfl⟩
  next => exact h

theorem MultiSink.Sound.of_reach {n w : Nat} {s : MultiSink n w}
    (h : (pump n w).Reachable s) : s.Sound := by
  refine h.invariant (I := MultiSink.Sound) ?_ fun s a s' _ _ hstep hs => ?_
  · exact ⟨fun _ => rfl, fun _ hconn => (Bool.noConfusion hconn), fun _ _ hj => (nomatch hj),
      fun _ he => (nomatch he)⟩
  · cases a with
    | packet d =>
      cases hstep
      exact hs.onPacket d
    | health i ev =>
      obtain ⟨h', hev, rfl⟩ := Option.map_eq_some_iff.mp hstep
      refine ⟨hs.count, fun k => ?_, hs.turn, hs.sent⟩
      by_cases hk : k = i
      · subst hk
        simpa using (hs.sinks k).step hev
      · simpa [hk] using hs.sinks k
    | answers i ok =>
      cases hstep
      exact ⟨hs.count, hs.sinks, hs.turn, hs.sent⟩

/-- Every residue comes up among `n` consecutive numbers. -/
theorem exists_add_mod_eq {n : Nat} (i : Fin n) (m : Nat) : ∃ k < n, (m + k) % n = i := by
  have hn : 0 < n := Nat.lt_of_le_of_lt (Nat.zero_le _) i.isLt
  have hle : m % n ≤ n := Nat.le_of_lt (Nat.mod_lt m hn)
  refine ⟨(i + (n - m % n)) % n, Nat.mod_lt _ hn, ?_⟩
  calc (m + (i + (n - m % n)) % n) % n
      = (m + (i + (n - m % n))) % n := Nat.add_mod_mod _ _ _
    _ = (i + n * (m / n + 1)) % n := by
        congr 1
        have hdiv := Nat.div_add_mod m n
        rw [Nat.mul_add, Nat.mul_one]
        omega
    _ = i := by rw [Nat.add_mul_mod_self_left, Nat.mod_eq_of_lt i.isLt]

/-! ## A run with one client down -/

/-- Packets come only while some client is live. -/
def SomeLive {n w : Nat} (s : MultiSink n w) : PumpAction n → Prop
  | .packet _ => ∃ i, (s.sinks i).Live
  | .health _ _ => True
  | .answers _ _ => True

instance {n w : Nat} (s : MultiSink n w) (a : PumpAction n) : Decidable (SomeLive s a) := by
  cases a <;> unfold SomeLive <;> infer_instance

/-- An IPv4 packet without a payload, from 10.0.0.1 to 10.0.0.2. -/
def bareHeader : Text := [0x45, 0, 0, 20, 0, 0, 0, 0, 64, 17, 0, 0, 10, 0, 0, 1, 10, 0, 0, 2]

/-- The second of two clients comes up, and two packets arrive. -/
def secondClientUp : List (PumpAction 2) :=
  [.health 1 .flagReset, .health 1 .connectionOpened, .health 1 .connected, .packet bareHeader,
    .packet bareHeader]

/-- The first packet goes to the first client, and no further. -/
theorem secondClientUp_log :
    ((pump 2 64).exec SomeLive (pump 2 64).init secondClientUp).map MultiSink.log =
      some [⟨bareHeader, 0, .initial, .guarded⟩,
        ⟨bareHeader, 1, ⟨true, true, true, false⟩,
          .datagramSend (encode ⟨.IpPacket, 0, bareHeader⟩) true⟩] := by
  decide

/-! ## What the round robin promises -/

/-- **What the round robin promises.** Packet `j` goes to client `j mod 2^w mod n`, whatever the
health of any client and whatever `DatagramSend` answers. It gets to `DatagramSend`, framed, exactly
when that client has a connection and `handshake_ok_` is set, and is dropped in the guard otherwise; it
gets to a live connection exactly when that client is live at that moment. As long as the counter does
not wrap, each client is given one of any `n` consecutive packets. -/
theorem handed_over {n w : Nat} {s : MultiSink n w} (h : (pump n w).Reachable s) :
    (∀ j e, s.log[j]? = some e →
        e.client.val = j % 2 ^ w % n ∧
          (e.Sent ↔ e.health.connection = true ∧ e.health.handshakeOk = true) ∧
          (e.result = .guarded ↔ ¬ e.Sent) ∧ (e.ToLive ↔ e.health.Live)) ∧
      ∀ (i : Fin n) (j : Nat), j % 2 ^ w + n ≤ 2 ^ w → j + n ≤ s.log.length →
        ∃ k < n, ∃ e, s.log[j + k]? = some e ∧ e.client = i := by
  have hs := MultiSink.Sound.of_reach h
  refine ⟨fun j e hj => ⟨hs.turn j e hj, ?_⟩, fun i j hwrap hlen => ?_⟩
  · obtain ⟨hc, ok, hresult⟩ := hs.sent e (List.mem_of_getElem? hj)
    exact ⟨sent_iff hresult, guarded_iff hresult, toLive_iff hc hresult⟩
  · obtain ⟨k, hk, hmod⟩ := exists_add_mod_eq i (j % 2 ^ w)
    have hlt : j + k < s.log.length := by omega
    refine ⟨k, hk, s.log[j + k], List.getElem?_eq_getElem hlt, Fin.ext ?_⟩
    have hsum : (j + k) % 2 ^ w = j % 2 ^ w + k := by
      rw [← Nat.mod_add_mod, Nat.mod_eq_of_lt (by omega)]
    rw [hs.turn (j + k) _ (List.getElem?_eq_getElem hlt), hsum, hmod]

theorem handed_over_to_both_clients :
    ∃ s, (pump 2 64).Reachable s ∧ s.log.length = 2 ∧
      (∀ j e, s.log[j]? = some e →
        e.client.val = j % 2 ^ 64 % 2 ∧
          (e.Sent ↔ e.health.connection = true ∧ e.health.handshakeOk = true) ∧
          (e.result = .guarded ↔ ¬ e.Sent) ∧ (e.ToLive ↔ e.health.Live)) ∧
      ∀ i : Fin 2, ∃ k < 2, ∃ e, s.log[0 + k]? = some e ∧ e.client = i := by
  obtain ⟨s, hexec, hlog⟩ := Option.map_eq_some_iff.mp secondClientUp_log
  have hreach := (Machine.reach_of_exec hexec).reachable
  have hlen : s.log.length = 2 := congrArg List.length hlog
  obtain ⟨hturns, hwindow⟩ := handed_over hreach
  exact ⟨s, hreach, hlen, hturns, fun i => hwindow i 0 (by decide) (Nat.le_of_eq hlen.symm)⟩

/-- While the second of two clients is live, a packet is dropped in the guard of the first. -/
theorem packet_for_first_client_dropped :
    ¬ ∀ s, (pump 2 64).Reach SomeLive s → ∀ e ∈ s.log, e.ToLive := by
  intro hall
  obtain ⟨s, hexec, hlog⟩ := Option.map_eq_some_iff.mp secondClientUp_log
  have hfirst := hall s (Machine.reach_of_exec hexec) _ (hlog ▸ List.mem_cons_self)
  have hdead : ¬ Health.initial.Live := by decide
  exact hdead hfirst.2

end Cfd.Main
