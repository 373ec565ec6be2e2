import Cfd.Net.KernelRoute

/-!
# The requests of a sequence of calls

Calls one after another on one client of `src/net/netlink.cpp`, up to one whose answer does not pass, and
the bytes that they send, with the kernel's answers. `readRequest` reads such bytes as the kernel does, by
the type in the header; `Op.asks_of_writes` says that the bytes of an operation are read as what it was
called for.

`Client.sent_forall₂` is about a sequence that comes to its end: the requests that are sent are those of
the calls, one for each whose `send` succeeds, in the order of the calls.

Nothing is said of what the kernel makes of a request that it has answered with success. It does more than
it is asked for: with an address, for one, it adds a route of the prefix.
-/

set_option autoImplicit false

namespace Cfd.Net.Netlink

open Cfd.Base Cfd.Net

/-! ## Calls on one client -/

/-- The message of an operation, by its number and port. -/
def Op.build (host : ByteOrder) : Op → UInt32 → UInt32 → Option NlMsg
  | .linkUp i => linkUpMsg host i
  | .setMtu i mtu => setMtuMsg host i mtu
  | .addAddr i addr => addAddrMsg host i addr
  | .addRoute i dst => addRouteMsg host i dst

/-- A call in a sequence: what the system makes of it, and behind which answers the sequence goes on. -/
structure Call where
  op : Op
  exchange : Exchange
  passes : Option ErrorCode → Bool

/-- The calls in turn, up to one whose answer does not pass. -/
def Client.calls (host : ByteOrder) : Client → List Call → Option (Option ErrorCode)
  | _, [] => some none
  | c, call :: rest => do
    let r ← call.op.run host c call.exchange
    if call.passes r.ec then r.client.calls host rest else return r.ec

/-- A request that has reached the kernel, with what it decides. -/
structure Sent where
  wire : Text
  verdict : Option ErrorCode

/-- What an operation sends. -/
def Op.sent (host : ByteOrder) (c : Client) (x : Exchange) (op : Op) : List Sent :=
  match op.build host (c.seq + 1) c.pid with
  | none => []
  | some m => if x.send = none then [⟨m.header host ++ m.payload, x.verdict⟩] else []

/-- What the calls send. -/
def Client.sent (host : ByteOrder) : Client → List Call → List Sent
  | _, [] => []
  | c, call :: rest =>
    call.op.sent host c call.exchange ++
      match call.op.run host c call.exchange with
      | none => []
      | some r => if call.passes r.ec then r.client.sent host rest else []

/-! ## What a request says -/

/-- A request, as it is read by its type. -/
inductive Request where
  | newLink (r : LinkRequest)
  | newAddr (r : AddrRequest)
  | newRoute (r : RouteRequest)

/-- Read a request: `RTM_NEWLINK`, `RTM_NEWADDR` or `RTM_NEWROUTE`. -/
def readRequest (host : ByteOrder) (wire : Text) : Option Request :=
  match (headerOf host wire).nlmsgType with
  | 16 => some (.newLink (readLink host wire))
  | 20 => some (.newAddr (readAddr host wire))
  | 24 => some (.newRoute (readRoute host wire))
  | _ => none

/-- The bytes are read as a request for this operation: to set the interface up, or its MTU, or to give
it an address, or to lead a prefix to it. -/
def Op.Asks (host : ByteOrder) (wire : Text) : Op → Prop
  | .linkUp i => ∃ seq pid, readRequest host wire =
      some (.newLink ⟨⟨16, NLM_F_REQUEST ||| NLM_F_ACK, seq, pid⟩, 0, i, upRunning, upRunning, []⟩)
  | .setMtu i mtu => ∃ seq pid data, readRequest host wire =
      some (.newLink ⟨⟨16, NLM_F_REQUEST ||| NLM_F_ACK, seq, pid⟩, 0, i, 0, 0, [⟨4, data⟩]⟩) ∧
        host.readU32 data = mtu
  | .addAddr i addr => ∃ seq pid, readRequest host wire =
      some (.newAddr ⟨⟨20, createReplace, seq, pid⟩, afOf addr.addr.family, addr.prefixLen, 0, 0,
        i.toUInt32, [⟨2, addrData addr.addr⟩, ⟨1, addrData addr.addr⟩]⟩)
  | .addRoute i dst => ∃ seq pid oif, readRequest host wire =
      some (.newRoute ⟨⟨24, createReplace, seq, pid⟩, afOf dst.addr.family, dst.prefixLen, 0, 0, 254, 3,
        253, 1, 0, [⟨1, addrData dst.addr⟩, ⟨4, oif⟩]⟩) ∧ (host.readU32 oif).toInt32 = i

/-- The bytes are those of a message of the operation. -/
def Op.Writes (host : ByteOrder) (op : Op) (wire : Text) : Prop :=
  ∃ seq pid m, op.build host seq pid = some m ∧ wire = m.header host ++ m.payload

variable {host : ByteOrder}

theorem Op.build_requests (host : ByteOrder) (op : Op) : Requests (op.build host) := by
  cases op with
  | linkUp i => exact linkUpMsg_requests host i
  | setMtu i mtu => exact setMtuMsg_requests host i mtu
  | addAddr i addr => exact addAddrMsg_requests host i addr
  | addRoute i dst => exact addRouteMsg_requests host i dst

/-- A message that an operation builds is read off the bytes that are sent. -/
theorem Op.sentBytes_build {op : Op} {seq pid : UInt32} {m : NlMsg}
    (h : op.build host seq pid = some m) (outside : Mem) :
    sentBytes host (m.mem host outside) = m.header host ++ m.payload := by
  obtain ⟨req, len, hbuild, hreq, hlen⟩ := op.build_requests host seq pid
  rw [h] at hbuild
  cases hbuild
  refine sentBytes_mem ?_
  rw [hreq.len_eq]
  exact Nat.le_trans hlen (by decide)

/-- **`link_up` is read as it was asked.** -/
theorem linkUp_read (host : ByteOrder) (outside : Mem) (ifindex : Int32) (seq pid : UInt32) :
    ∃ m, linkUpMsg host ifindex seq pid = some m ∧
      readLink host (sentBytes host (m.mem host outside)) =
        ⟨⟨16, NLM_F_REQUEST ||| NLM_F_ACK, seq, pid⟩, 0, ifindex, upRunning, upRunning, []⟩ := by
  obtain ⟨m, -, hfold, ⟨s, hsent⟩, hattrs, -⟩ := putEach_sent host (Nat.le_refl 32) outside
    ⟨16, NLM_F_REQUEST ||| NLM_F_ACK, seq, pid, ifinfomsg host 0 ifindex upRunning upRunning⟩ []
    (by simp) (by simp) (by simp [NlMsg.nlmsgLen, kScratch])
  cases hfold
  refine ⟨_, rfl, ?_⟩
  simp only [length_ifinfomsg] at hattrs
  rw [hsent] at hattrs ⊢
  rw [readLink_wire, hattrs]

theorem readRequest_link {wire : Text} {r : LinkRequest} (h : readLink host wire = r)
    (htype : r.header.nlmsgType = 16) : readRequest host wire = some (.newLink r) := by
  subst h
  have hheader : (headerOf host wire).nlmsgType = 16 := htype
  simp only [readRequest, hheader]

theorem readRequest_addr {wire : Text} {r : AddrRequest} (h : readAddr host wire = r)
    (htype : r.header.nlmsgType = 20) : readRequest host wire = some (.newAddr r) := by
  subst h
  have hheader : (headerOf host wire).nlmsgType = 20 := htype
  simp only [readRequest, hheader]

theorem readRequest_route {wire : Text} {r : RouteRequest} (h : readRoute host wire = r)
    (htype : r.header.nlmsgType = 24) : readRequest host wire = some (.newRoute r) := by
  subst h
  have hheader : (headerOf host wire).nlmsgType = 24 := htype
  simp only [readRequest, hheader]

/-- **A request is read as the operation that it was built for.** -/
theorem Op.asks_of_writes {op : Op} {wire : Text} (h : op.Writes host wire) : op.Asks host wire := by
  obtain ⟨seq, pid, m, hbuild, rfl⟩ := h
  have hsent := Op.sentBytes_build hbuild fun _ => 0
  have hreadU32 : ∀ n : UInt32, host.readU32 (host.u32 n) = n := by
    intro n
    have hread := ByteOrder.readU32_u32 host n []
    rwa [List.append_nil] at hread
  cases op with
  | linkUp i =>
    obtain ⟨m', hm', hread⟩ := linkUp_read host (fun _ => 0) i seq pid
    rw [Op.build, hm'] at hbuild
    cases hbuild
    rw [hsent] at hread
    exact ⟨seq, pid, readRequest_link hread rfl⟩
  | setMtu i mtu =>
    obtain ⟨m', hm', -, hread⟩ := setMtu_read host (Nat.le_refl 32) (fun _ => 0) i mtu seq pid
    rw [Op.build, hm'] at hbuild
    cases hbuild
    rw [hsent] at hread
    exact ⟨seq, pid, _, readRequest_link hread rfl, hreadU32 mtu⟩
  | addAddr i addr =>
    obtain ⟨m', hm', -, hread⟩ := addAddr_read host (Nat.le_refl 32) (fun _ => 0) i addr seq pid
    rw [Op.build, hm'] at hbuild
    cases hbuild
    rw [hsent] at hread
    exact ⟨seq, pid, readRequest_addr hread rfl⟩
  | addRoute i dst =>
    obtain ⟨m', hm', -, hread⟩ := addRoute_read host (Nat.le_refl 32) (fun _ => 0) i dst seq pid
    rw [Op.build, hm'] at hbuild
    cases hbuild
    rw [hsent] at hread
    exact ⟨seq, pid, _, readRequest_route hread rfl, congrArg UInt32.toInt32 (hreadU32 i.toUInt32)⟩

/-! ## What is sent -/

/-- An operation sends its message, if its `send` succeeds. -/
theorem Op.sent_eq (host : ByteOrder) (op : Op) (c : Client) (x : Exchange) :
    (x.send = none → ∃ wire, op.sent host c x = [⟨wire, x.verdict⟩] ∧ op.Writes host wire) ∧
      (x.send ≠ none → op.sent host c x = []) := by
  obtain ⟨m, -, hbuild, -⟩ := op.build_requests host (c.seq + 1) c.pid
  have hbuild : op.build host (c.seq + 1) c.pid = some m := hbuild
  constructor
  · intro hsend
    refine ⟨_, ?_, _, _, m, hbuild, rfl⟩
    rw [Op.sent, hbuild]
    exact if_pos hsend
  · intro hsend
    rw [Op.sent, hbuild]
    exact if_neg hsend

/-- The request of a call reaches the kernel. -/
def Call.reaches (call : Call) : Bool := call.exchange.send.isNone

/-- The request of a call, with the kernel's answer. -/
def Call.Sends (host : ByteOrder) (call : Call) (x : Sent) : Prop :=
  call.op.Writes host x.wire ∧ x.verdict = call.exchange.verdict

/-- **Calls that come to their end have sent their requests**, in order, one for each `send` that
succeeded. -/
theorem Client.sent_forall₂ {calls : List Call} : ∀ {c : Client}, c.calls host calls = some none →
    (∀ call ∈ calls, call.passes none = true) →
    List.Forall₂ (Call.Sends host) (calls.filter Call.reaches) (c.sent host calls) := by
  induction calls with
  | nil => exact fun _ _ => .nil
  | cons first rest ih =>
    intro c hcalls hpasses
    rw [Client.calls, Option.bind_eq_bind, Option.bind_eq_some_iff] at hcalls
    obtain ⟨reply, hrun, hrest⟩ := hcalls
    have hpassed : first.passes reply.ec = true ∧ reply.client.calls host rest = some none := by
      split at hrest
      next hp => exact ⟨hp, hrest⟩
      next hp =>
        -- a call that answers nothing passes
        have hec : reply.ec = none := Option.some.inj hrest
        rw [hec] at hp
        exact absurd (hpasses first List.mem_cons_self) hp
    have hlater := ih hpassed.2 fun call hcall => hpasses call (List.mem_cons_of_mem _ hcall)
    obtain ⟨hsends, hfails⟩ := first.op.sent_eq host c first.exchange
    rw [Client.sent, hrun]
    simp only [if_pos hpassed.1]
    by_cases hsend : first.exchange.send = none
    · obtain ⟨wire, hsent, hwrites⟩ := hsends hsend
      have hreaches : first.reaches = true := Option.isNone_iff_eq_none.mpr hsend
      rw [List.filter_cons_of_pos hreaches, hsent]
      exact .cons ⟨hwrites, rfl⟩ hlater
    · have hreaches : ¬first.reaches = true := fun h => hsend (Option.isNone_iff_eq_none.mp h)
      rw [List.filter_cons_of_neg hreaches, hfails hsend]
      exact hlater

end Cfd.Net.Netlink
