import Cfd.Main.ClientView

/-!
# From the datagrams to the TUN device

The way back, over whole runs of the process: what msquic delivers as datagrams to the clients, and what
is passed to `write_packet` of the TUN device. A callback that has a datagram in hand may be overtaken by
those of other clients, and pause for as long as it likes; meanwhile its client may be closed by either
of the two threads that do so.

`inbound_delivers` is that nothing is lost, repeated, reordered or made up on the way: for each client the
packets written are those of its datagrams, in order, but for the one in hand. It rests on two facts. The
close of a connection waits for the callback that runs (`open_stays`), so who has a datagram in hand has
it from a connection that is open; and of the connections of a client only one is.
-/

set_option autoImplicit false

namespace Cfd.Main.Process

open Cfd.Base Cfd.Tunnel
open Session (Handle Shared ConnEvent ConnOp ClosePc UsePc Closer View Move session closeStep deliver)

variable {n : Nat} {s s' : State n}

/-! ## A connection with a callback stays open -/

/-- The operation on the pointer waits for the close of this connection. -/
def Drains (o : ConnOp) (x : Handle) : Prop := o = .reset (.drain x) ∨ ∃ raw, o = .store raw (.drain x)

theorem not_drains {c : Client} {o : ConnOp} {x : Handle} (hwait : c.waits o = false)
    (hrun : c.inbound x ≠ none) : ¬Drains o x := by
  have hsome : (c.inbound x).isSome = true := Option.isSome_iff_ne_none.mpr hrun
  rintro (rfl | ⟨raw, rfl⟩)
  · exact Bool.false_ne_true (hwait.symm.trans hsome)
  · exact Bool.false_ne_true (hwait.symm.trans hsome)

/-- A connection stays open, unless a close of it returns. -/
theorem move_open {v v' : View} {b : Session.Action} {x : Handle} (h : Move v b v')
    (hopen : v.Open x) : v'.Open x ∨ ∃ who, b.By who ∧ Drains (v.op who) x := by
  have hset : ∀ (old : Handle) (r : Session.HandleRec), (old = x → r.closed = false) →
      (v.setHandle old r).Open x := by
    intro old r hr
    refine ⟨hopen.1, ?_⟩
    rw [View.handles_setHandle]
    split
    next heq => exact hr heq.symm
    next => exact hopen.2
  cases h with
  | call | storeCall => exact Or.inl (hset _ _ fun heq => heq ▸ hopen.2)
  | @drain who _ old hby hop =>
    by_cases heq : old = x
    · exact Or.inr ⟨who, hby, Or.inl (heq ▸ hop)⟩
    · exact Or.inl (hset _ _ fun h => absurd h heq)
  | @storeDrain _ raw old hop =>
    by_cases heq : old = x
    · exact Or.inr ⟨.thread, trivial, Or.inr ⟨raw, heq ▸ hop⟩⟩
    · exact Or.inl (hset _ _ fun h => absurd h heq)
  | @openConn _ parent =>
    have hold := hset v.next { parent } fun _ => rfl
    exact Or.inl ⟨Nat.lt_succ_of_lt hold.1, hold.2⟩
  | _ => exact Or.inl hopen

/-- A client sees a step of one of the two closing threads where that thread moves. -/
theorem seen_by {a : Action n} {i : Fin n} {b : Session.Action} {who : Closer}
    (hb : s.seen i a = some b) (hby : b.By who) :
    (who = .thread ∧ ∃ ok, a = .thread i ok) ∨
      (who = .main ∧ s.main.about i = true ∧ ∃ ok, a = .main ok) := by
  cases a with
  | thread j ok =>
    simp only [State.seen] at hb
    split at hb <;> cases hb
    next hji =>
      cases who with
      | thread => exact Or.inl ⟨rfl, ok, hji ▸ rfl⟩
      | main => exact hby.elim
  | main ok =>
    simp only [State.seen] at hb
    split at hb <;> cases hb
    next habout =>
      cases who with
      | thread => exact hby.elim
      | main => exact Or.inr ⟨rfl, habout, ok, rfl⟩
  | router | kj | event | callback =>
    simp only [State.seen] at hb
    split at hb <;> cases hb
    cases who <;> exact hby.elim
  | signal =>
    cases hb
    cases who <;> exact hby.elim
  | datagram | inbound => cases hb

/-- A thread that moves waits for no callback for a datagram. -/
theorem Moves.waits {a : Action n} (h : Moves s a s') {i : Fin n} {b : Session.Action} {who : Closer}
    (hb : s.seen i a = some b) (hby : b.By who) :
    (s.clients i).waits ((s.client i).view.op who) = false := by
  rcases seen_by hb hby with ⟨rfl, ok, rfl⟩ | ⟨rfl, habout, ok, rfl⟩
  · cases h with
    | thread hwait => exact hwait
  · show (s.clients i).waits (s.main.of i).connOp = false
    cases h with
    | @close _ j rest p sh q hm hwait =>
      rw [hm] at habout
      obtain rfl : j = i := of_decide_eq_true habout
      rw [hm, MainPc.of, if_pos rfl]
      exact hwait
    | first hm | leave hm | stopped hm | storeStop hm | stopKj hm | joinKj hm => rw [hm]; rfl
    | joined hm | join hm =>
      rw [hm, MainPc.of]
      split <;> rfl

/-- **A connection stays open while a callback has a datagram of it in hand.** -/
theorem open_stays {a : Action n} (hs : Wired s) (h : Moves s a s') {i : Fin n} {x : Handle}
    (hrun : (s.clients i).inbound x ≠ none) (hopen : (s.client i).view.Open x) :
    (s'.client i).view.Open x := by
  have hfollows := h.follows hs i
  cases hb : s.seen i a with
  | none =>
    rw [hb] at hfollows
    exact hfollows ▸ hopen
  | some b =>
    rw [hb] at hfollows
    rcases move_open (Session.step_move hfollows) hopen with hstays | ⟨who, hby, hdrains⟩
    · exact hstays
    · exact absurd hdrains (not_drains (h.waits hb hby) hrun)

/-- The members of a client but for its callbacks. -/
theorem inbound_setClient (s : State n) {i : Fin n} {c : Client} (hc : c.inbound = (s.clients i).inbound)
    (j : Fin n) : ((s.setClient i c).clients j).inbound = (s.clients j).inbound := by
  rw [clients_setClient]
  split
  next heq => exact heq ▸ hc
  next => rfl

theorem inbound_setInbound (s : State n) (i : Fin n) (x : Handle) (p : Option InboundPc) (j : Fin n)
    (y : Handle) : ((s.setInbound i x p).clients j).inbound y =
      if j = i ∧ y = x then p else (s.clients j).inbound y := by
  rw [State.setInbound, clients_setClient]
  by_cases hji : j = i
  · subst hji
    simp only [if_true, true_and, Function.update_apply]
  · simp only [hji, if_false, false_and]

/-- A step of anybody but msquic with a datagram, and the callback for one. -/
theorem Moves.quietly {a : Action n} (hs : Wired s) (h : Moves s a s')
    (hdatagram : ∀ i x data, a ≠ .datagram i x data) (hinbound : ∀ i x, a ≠ .inbound i x) :
    (∀ j, (s'.clients j).inbound = (s.clients j).inbound) ∧ s'.written = s.written := by
  cases h with
  | thread | close | take | serve | event | callback => exact ⟨inbound_setClient s rfl, rfl⟩
  | drain hkj =>
    refine ⟨fun j => ?_, rfl⟩
    show Client.inbound (ite _ _ _) = _
    rw [(hs.past (Or.inl hkj)).2, if_neg List.not_mem_nil]
  | datagram => exact absurd rfl (hdatagram _ _ _)
  | decode | inject => exact absurd rfl (hinbound _ _)
  | first | leave | stopped | storeStop | joined | join | stopKj | joinKj | packet | dropped | send |
    sent | finish | signal => exact ⟨fun _ => rfl, rfl⟩

/-- A callback with a datagram in hand has it from a connection that is open. -/
def Callbacks (s : State n) : Prop :=
  ∀ i x, (s.clients i).inbound x ≠ none → (s.client i).view.Open x

theorem Callbacks.setInbound (hs : Callbacks s) {i : Fin n} {x : Handle} {p : Option InboundPc}
    (hopen : (s.client i).view.Open x) : Callbacks (s.setInbound i x p) := by
  intro j y hrun
  rw [client_setInbound]
  rw [inbound_setInbound] at hrun
  split at hrun
  next heq => exact heq.1 ▸ heq.2 ▸ hopen
  next => exact hs j y hrun

theorem Callbacks.step {a : Action n} (hw : Wired s) (hs : Callbacks s) (h : Moves s a s') :
    Callbacks s' := by
  cases ha : a with
  | datagram =>
    subst ha
    cases h with
    | datagram hopen => exact hs.setInbound hopen
  | inbound =>
    subst ha
    cases h with
    | decode hpc => exact hs.setInbound (hs _ _ (hpc ▸ Option.some_ne_none _))
    | inject hpc => exact hs.setInbound (p := none) (hs _ _ (hpc ▸ Option.some_ne_none _))
  | _ =>
    have hquiet := (h.quietly hw (by rw [ha]; nofun) (by rw [ha]; nofun)).1
    intro i x hrun
    rw [hquiet] at hrun
    exact open_stays hw h hrun (hs i x hrun)

theorem reach_callbacks {guard : State n → Action n → Prop} (h : (process n).Reach guard s) :
    Callbacks s := by
  refine h.invariant (I := Callbacks) ?_ fun s a s' hr _ hstep hs => ?_
  · intro i x hrun
    exact absurd rfl hrun
  · exact hs.step (reach_wired hr) (step_moves hstep)

/-! ## What is in hand -/

/-- What `deliver_inbound` makes of a datagram, with a handler set. -/
def packetOf (data : Text) : Option Text := (deliverInbound (some ()) data).map Prod.snd

/-- The packet that a callback will pass on. -/
def InboundPc.packets : InboundPc → List Text
  | .decode data => (packetOf data).toList
  | .call packet => [packet]

/-- The packet in hand for a client: its connection is the one opened since the last reset of the flags. -/
def Client.inHand (c : Client) : List Text :=
  (c.shared.mine.bind c.inbound).elim [] InboundPc.packets

/-- The packets that came by a client and were passed to `write_packet`. -/
def State.writtenBy (s : State n) (i : Fin n) : List Text :=
  (s.written.filter fun w => w.1 = i).map Prod.snd

/-- The datagrams that a client is given. -/
def received (i : Fin n) (_ : State n) : Action n → List Text
  | .datagram j _ data => if j = i then [data] else []
  | _ => []

/-- A connection with a callback is the one of the attempt. -/
def Mine (s : State n) : Prop :=
  ∀ i x, (s.clients i).inbound x ≠ none → (s.clients i).shared.mine = some x

theorem reach_mine (h : (process n).Reach Blocks s) : Mine s := by
  intro i x hrun
  obtain ⟨-, hslot⟩ := Session.reach_slotted ((client_refines i).reach h)
  exact hslot.mine x (reach_callbacks h i x hrun)

theorem Mine.inHand (hs : Mine s) {i : Fin n} {x : Handle} {p : InboundPc}
    (hrun : (s.clients i).inbound x = some p) : (s.clients i).inHand = p.packets := by
  have hmine := hs i x (hrun ▸ Option.some_ne_none p)
  rw [Client.inHand, hmine, Option.bind_some, hrun]
  rfl

theorem inHand_idle {c : Client} (hidle : ∀ x, c.inbound x = none) : c.inHand = [] := by
  unfold Client.inHand
  cases c.shared.mine with
  | none => rfl
  | some x =>
    rw [Option.bind_some, hidle]
    rfl

/-- Callbacks that do not move have in hand what they had. -/
theorem inHand_congr (hs : Mine s) (hs' : Mine s') {i : Fin n}
    (hsame : (s'.clients i).inbound = (s.clients i).inbound) :
    (s'.clients i).inHand = (s.clients i).inHand := by
  by_cases hidle : ∀ x, (s.clients i).inbound x = none
  · rw [inHand_idle hidle, inHand_idle fun x => hsame ▸ hidle x]
  · obtain ⟨x, hrun⟩ := Classical.not_forall.mp hidle
    obtain ⟨p, hp⟩ := Option.ne_none_iff_exists'.mp hrun
    rw [hs.inHand hp, hs'.inHand (hsame ▸ hp)]

/-- Where one callback runs, no other of that client does. -/
theorem Mine.idle_of_none (hs : Mine s) {i : Fin n} {x : Handle}
    (hmine : (s.clients i).shared.mine = some x) (hnone : (s.clients i).inbound x = none) (y : Handle) :
    (s.clients i).inbound y = none := by
  by_contra hrun
  obtain rfl : x = y := Option.some.inj (hmine.symm.trans (hs i y hrun))
  exact hrun hnone

/-- Behind its last step the client has nothing in hand. -/
theorem Mine.inHand_released (hs : Mine s) {i : Fin n} {x : Handle}
    (hrun : (s.clients i).inbound x ≠ none) : ((s.setInbound i x none).clients i).inHand = [] := by
  refine inHand_idle fun y => ?_
  rw [inbound_setInbound]
  split
  next => rfl
  next hne =>
    by_contra hy
    obtain rfl : x = y := Option.some.inj ((hs i x hrun).symm.trans (hs i y hy))
    exact hne ⟨rfl, rfl⟩

/-- The callback of another client is nothing to this one. -/
theorem clients_setInbound_of_ne (s : State n) {i j : Fin n} (hji : j ≠ i) (x : Handle)
    (p : Option InboundPc) : (s.setInbound i x p).clients j = s.clients j :=
  clients_setClient_of_ne s hji _

theorem inbound_setInbound_self (s : State n) (i : Fin n) (x : Handle) (p : Option InboundPc) :
    ((s.setInbound i x p).clients i).inbound x = p := by
  rw [inbound_setInbound, if_pos ⟨rfl, rfl⟩]

/-- **What a step does to the packets of a client**: those written and the one in hand grow by what is in
the datagram that it is given. -/
theorem Moves.packets {a : Action n} (hw : Wired s) (hs : Mine s) (hs' : Mine s') (h : Moves s a s')
    (i : Fin n) : s'.writtenBy i ++ (s'.clients i).inHand =
      s.writtenBy i ++ (s.clients i).inHand ++ (received i s a).filterMap packetOf := by
  have hsame : s'.written = s.written → (s'.clients i).inHand = (s.clients i).inHand →
      received i s a = [] → s'.writtenBy i ++ (s'.clients i).inHand =
        s.writtenBy i ++ (s.clients i).inHand ++ (received i s a).filterMap packetOf := by
    intro hwritten hinHand hreceived
    rw [State.writtenBy, State.writtenBy, hwritten, hinHand, hreceived, List.filterMap_nil,
      List.append_nil]
  cases ha : a with
  | datagram j x data =>
    subst ha
    cases h with
    | datagram hopen _ hnone =>
      by_cases hji : j = i
      · subst hji
        have hafter := hs'.inHand (inbound_setInbound_self s j x (some (.decode data)))
        have hidle : ∀ y, (s.clients j).inbound y = none := by
          refine hs.idle_of_none ?_ hnone
          have hmine := hs' j x (by rw [inbound_setInbound_self]; exact Option.some_ne_none _)
          rw [← hmine, State.setInbound, clients_setClient, if_pos rfl]
        rw [hafter, inHand_idle hidle, List.append_nil, received, if_pos rfl]
        show s.writtenBy j ++ (packetOf data).toList = _
        cases hpacket : packetOf data <;> simp [hpacket]
      · refine hsame rfl ?_ (if_neg hji)
        rw [clients_setInbound_of_ne s (Ne.symm hji)]
  | inbound j x =>
    subst ha
    cases h with
    | @decode _ _ data hpc =>
      by_cases hji : j = i
      · subst hji
        refine hsame rfl ?_ rfl
        rw [hs.inHand hpc]
        cases hdecode : deliverInbound (some ()) data with
        | none =>
          rw [Option.map_none, hs.inHand_released (hpc ▸ Option.some_ne_none _)]
          show [] = (packetOf data).toList
          rw [packetOf, hdecode]
          rfl
        | some r =>
          rw [hdecode] at hs'
          rw [hs'.inHand (inbound_setInbound_self s j x _)]
          show [r.2] = (packetOf data).toList
          rw [packetOf, hdecode]
          rfl
      · refine hsame rfl ?_ rfl
        rw [clients_setInbound_of_ne s (Ne.symm hji)]
    | @inject _ _ packet hpc =>
      by_cases hji : j = i
      · subst hji
        have hreleased := hs.inHand_released (hpc ▸ Option.some_ne_none _)
        show (List.filter _ (s.written ++ [(j, packet)])).map Prod.snd ++
          ((s.setInbound j x none).clients j).inHand = _
        rw [hreleased, hs.inHand hpc]
        simp [State.writtenBy, InboundPc.packets, received]
      · show (List.filter _ (s.written ++ [(j, packet)])).map Prod.snd ++
          ((s.setInbound j x none).clients i).inHand = _
        rw [clients_setInbound_of_ne s (Ne.symm hji)]
        simp [State.writtenBy, hji, received]
  | _ =>
    obtain ⟨hinbound, hwritten⟩ := h.quietly hw (by rw [ha]; nofun) (by rw [ha]; nofun)
    exact ha ▸ hsame hwritten (inHand_congr hs hs' (hinbound i)) (by rw [ha]; rfl)

theorem writtenBy_run {history : List (State n × Action n)} (h : (process n).Run Blocks history s)
    (i : Fin n) : s.writtenBy i ++ (s.clients i).inHand =
      (Machine.emitted (received i) history).filterMap packetOf := by
  induction h with
  | init => rfl
  | @step history s s' a hrun hblocks hstep ih =>
    have hreach := hrun.reach
    rw [Machine.emitted_snoc, List.filterMap_append, ← ih]
    exact (step_moves hstep).packets (reach_wired hreach) (reach_mine hreach)
      (reach_mine (.step hreach hblocks hstep)) i

/-- A packet that the other side has framed is what is made of its datagram. -/
theorem packetOf_handed {p : Text} (hp : p.length + kFrameHeader < 2 ^ 32) :
    packetOf (SendCtx.ofPacket p).handed = some p := by
  rw [handed_ofPacket hp, packetOf, deliverInbound, decode_encode]
  rfl

/-- **Inbound packets reach the TUN device as they were sent.** In every run of the process with any
number of clients, the packets of a client that have been passed to `write_packet`, with the one in hand,
are those of the datagrams that the client was given: in order, each once, and no others. If the other
side has framed packets, they are these packets. -/
theorem inbound_delivers {history : List (State n × Action n)}
    (h : (process n).Run Blocks history s) (i : Fin n) :
    s.writtenBy i ++ (s.clients i).inHand =
        (Machine.emitted (received i) history).filterMap packetOf ∧
      ∀ packets : List Text, (∀ p ∈ packets, p.length + kFrameHeader < 2 ^ 32) →
        Machine.emitted (received i) history = packets.map (fun p => (SendCtx.ofPacket p).handed) →
          s.writtenBy i ++ (s.clients i).inHand = packets := by
  refine ⟨writtenBy_run h i, fun packets hfit hsent => ?_⟩
  rw [writtenBy_run h i, hsent, List.filterMap_map]
  calc packets.filterMap (packetOf ∘ fun p => (SendCtx.ofPacket p).handed)
      = packets.filterMap some := List.filterMap_congr fun p hp => packetOf_handed (hfit p hp)
    _ = packets := List.filterMap_some

/-- A client comes up and is given a datagram, which its callback passes on. -/
def inboundSteps (i : Fin n) (data : Text) : List (Action n) :=
  Session.upSteps.map (asClient i) ++ [.datagram i 0 data, .inbound i 0, .inbound i 0]

theorem inbound_delivers_one : ∃ history s, (process 2).Run Blocks history s ∧
    s.writtenBy 1 = [[0x45, 0, 0, 20]] ∧
    [[0x45, 0, 0, 20]] = (Machine.emitted (received 1) history).filterMap packetOf := by
  have hexec : ((process 2).exec Blocks (process 2).init
      (inboundSteps 1 (SendCtx.ofPacket [0x45, 0, 0, 20]).handed)).any (fun s =>
        decide (s.writtenBy 1 = [[0x45, 0, 0, 20]] ∧ (s.clients 1).inHand = [])) = true := by decide
  obtain ⟨s, hs, hwritten, hnone⟩ := Machine.exists_reach_of_exec hexec
  obtain ⟨history, hrun⟩ := hs.exists_run
  have hdelivers := (inbound_delivers hrun 1).1
  rw [hwritten, hnone, List.append_nil] at hdelivers
  exact ⟨history, s, hrun, hwritten, hdelivers⟩

end Cfd.Main.Process
