import Cfd.Base.Machine
import Cfd.Base.Text
import Cfd.Net.Addr

/-!
# The RTNETLINK client

`src/net/netlink.cpp`: the request messages of `link_up`, `set_mtu`, `add_addr` and `add_route`,
and `talk`, which sends one request and takes the next datagram off the socket for its
acknowledgement. The socket is one `Client` with its receive queue. The kernel answers every request
that it receives with `NLM_F_ACK` set by one `NLMSG_ERROR` at the end of that queue, and `recv` may
fail and leave the queue as it is; which of this happens is the `Exchange`.

`talk` never looks at `nlmsg_seq`. `Op.own_acknowledgement` says what holds all the same: as long as
no reply to a request that was sent has been missed, an operation that succeeds took the
acknowledgement of its own request. `Client.Settles.stale` says what a missed reply leads to.

Nothing here establishes what the kernel does with a request that it acknowledges.
-/

set_option autoImplicit false

namespace Cfd.Net.Netlink

open Cfd.Base Cfd.Net

/-! ## Error codes and byte order -/

/-- A `std::error_code` that converts to `true`: its value is not zero. -/
structure ErrorCode where
  value : Int
  ne_zero : value ≠ 0
  deriving DecidableEq

namespace ErrorCode

/-- `EINTR`. -/
def EINTR : ErrorCode := ⟨4, by decide⟩
/-- `EAGAIN`. -/
def EAGAIN : ErrorCode := ⟨11, by decide⟩
/-- `EEXIST`. -/
def EEXIST : ErrorCode := ⟨17, by decide⟩
/-- `std::errc::invalid_argument`. -/
def EINVAL : ErrorCode := ⟨22, by decide⟩
/-- `std::errc::protocol_error`. -/
def EPROTO : ErrorCode := ⟨71, by decide⟩
/-- `std::errc::message_size`. -/
def EMSGSIZE : ErrorCode := ⟨90, by decide⟩

end ErrorCode

/-- The byte order of the machine. -/
inductive ByteOrder where
  | little
  | big
  deriving DecidableEq

/-- Bytes given from the least significant one, as they lie in memory. -/
def ByteOrder.lay : ByteOrder → Text → Text
  | .little, s => s
  | .big, s => s.reverse

/-- A `uint16_t` in memory. -/
def ByteOrder.u16 (host : ByteOrder) (n : UInt16) : Text :=
  host.lay [n.toUInt8, (n >>> 8).toUInt8]

/-- A `uint32_t` in memory. -/
def ByteOrder.u32 (host : ByteOrder) (n : UInt32) : Text :=
  host.lay [n.toUInt8, (n >>> 8).toUInt8, (n >>> 16).toUInt8, (n >>> 24).toUInt8]

@[simp] theorem ByteOrder.length_u16 (host : ByteOrder) (n : UInt16) :
    (host.u16 n).length = 2 := by
  cases host <;> rfl

@[simp] theorem ByteOrder.length_u32 (host : ByteOrder) (n : UInt32) :
    (host.u32 n).length = 4 := by
  cases host <;> rfl

/-! ## Messages -/

/-- A message under construction: its header, and the bytes from the header up to `nlmsg_len`. The
buffer behind `nlmsg_len` is still zero. -/
structure NlMsg where
  nlmsgType : UInt16
  nlmsgFlags : UInt16
  nlmsgSeq : UInt32
  nlmsgPid : UInt32
  payload : Text
  deriving DecidableEq

/-- `nlmsg_len`: sixteen bytes of header, and the payload. -/
def NlMsg.nlmsgLen (m : NlMsg) : Nat := 16 + m.payload.length

/-- `kScratch`. -/
def kScratch : Nat := 4096

/-- `NLMSG_ALIGN`. -/
def nlmsgAlign (n : Nat) : Nat := (n + 3) / 4 * 4

/-- `RTA_LENGTH`: four bytes of attribute header, and the data. -/
def rtaLength (n : Nat) : Nat := 4 + n

/-- `nla_put`; `none` where the source answers `false`. The bytes that the alignment skips are
zero. -/
def nlaPut (host : ByteOrder) (m : NlMsg) (cap : Nat) (type : UInt16) (data : Text) :
    Option NlMsg :=
  let aligned := nlmsgAlign m.nlmsgLen
  let need := aligned + rtaLength data.length
  if need > cap then none
  else
    some { m with
      payload := m.payload ++ List.replicate (aligned - m.nlmsgLen) 0 ++
        host.u16 (UInt16.ofNat (rtaLength data.length)) ++ host.u16 type ++ data }

/-- An attribute changes the payload alone. -/
theorem nlaPut_header {host : ByteOrder} {m m' : NlMsg} {cap : Nat} {type : UInt16} {data : Text}
    (h : nlaPut host m cap type data = some m') :
    m'.nlmsgFlags = m.nlmsgFlags ∧ m'.nlmsgSeq = m.nlmsgSeq ∧
      m'.nlmsgLen = nlmsgAlign m.nlmsgLen + rtaLength data.length := by
  simp only [nlaPut] at h
  split at h
  · cases h
  · cases h
    refine ⟨rfl, rfl, ?_⟩
    simp only [NlMsg.nlmsgLen, nlmsgAlign, rtaLength, List.length_append, List.length_replicate,
      ByteOrder.length_u16]
    omega

/-- An attribute that fits is appended. -/
theorem nlaPut_isSome (host : ByteOrder) (type : UInt16) {m : NlMsg} {cap : Nat} {data : Text}
    (h : nlmsgAlign m.nlmsgLen + rtaLength data.length ≤ cap) :
    ∃ m', nlaPut host m cap type data = some m' := by
  simp only [nlaPut, if_neg (Nat.not_lt_of_le h)]
  exact ⟨_, rfl⟩

/-- `NLM_F_REQUEST`. -/
def NLM_F_REQUEST : UInt16 := 0x1
/-- `NLM_F_ACK`. -/
def NLM_F_ACK : UInt16 := 0x4
/-- `NLM_F_REPLACE`. -/
def NLM_F_REPLACE : UInt16 := 0x100
/-- `NLM_F_CREATE`. -/
def NLM_F_CREATE : UInt16 := 0x400
/-- `IFF_UP | IFF_RUNNING`. -/
def upRunning : UInt32 := 0x41
/-- `NLMSG_ERROR`. -/
def NLMSG_ERROR : UInt16 := 2

/-- `AF_INET` or `AF_INET6`. -/
def afOf : Family → UInt8
  | .V4 => 2
  | .V6 => 10

/-- The bytes of an address, 4 or 16 of them by its family. -/
def addrData (a : IpAddr) : Text := a.bytes.toList.take a.family.addrLen

/-- A `struct ifinfomsg`. -/
def ifinfomsg (host : ByteOrder) (family : UInt8) (index : Int32) (flags change : UInt32) : Text :=
  [family, 0] ++ host.u16 0 ++ host.u32 index.toUInt32 ++ host.u32 flags ++ host.u32 change

/-- A `struct ifaddrmsg`. -/
def ifaddrmsg (host : ByteOrder) (family prefixlen flags scope : UInt8) (index : UInt32) : Text :=
  [family, prefixlen, flags, scope] ++ host.u32 index

/-- A `struct rtmsg`, `rtm_src_len`, `rtm_tos` and `rtm_flags` zero. -/
def rtmsg (host : ByteOrder) (family dstLen table protocol scope type : UInt8) : Text :=
  [family, dstLen, 0, 0, table, protocol, scope, type] ++ host.u32 0

/-- The message of `link_up`. -/
def linkUpMsg (host : ByteOrder) (ifindex : Int32) (seq pid : UInt32) : Option NlMsg :=
  some ⟨16, NLM_F_REQUEST ||| NLM_F_ACK, seq, pid, ifinfomsg host 0 ifindex upRunning upRunning⟩

/-- The message of `set_mtu`. -/
def setMtuMsg (host : ByteOrder) (ifindex : Int32) (mtu : UInt32) (seq pid : UInt32) :
    Option NlMsg :=
  let nlh : NlMsg := ⟨16, NLM_F_REQUEST ||| NLM_F_ACK, seq, pid, ifinfomsg host 0 ifindex 0 0⟩
  -- IFLA_MTU
  nlaPut host nlh kScratch 4 (host.u32 mtu)

/-- The message of `add_addr`. -/
def addAddrMsg (host : ByteOrder) (ifindex : Int32) (addr : Cidr) (seq pid : UInt32) :
    Option NlMsg := do
  let nlh : NlMsg := ⟨20, NLM_F_REQUEST ||| NLM_F_ACK ||| NLM_F_CREATE ||| NLM_F_REPLACE, seq, pid,
    ifaddrmsg host (afOf addr.addr.family) addr.prefixLen 0 0 ifindex.toUInt32⟩
  -- IFA_LOCAL, then IFA_ADDRESS
  let nlh ← nlaPut host nlh kScratch 2 (addrData addr.addr)
  nlaPut host nlh kScratch 1 (addrData addr.addr)

/-- The message of `add_route`. -/
def addRouteMsg (host : ByteOrder) (ifindex : Int32) (dst : Cidr) (seq pid : UInt32) :
    Option NlMsg := do
  -- RT_TABLE_MAIN, RTPROT_BOOT, RT_SCOPE_LINK, RTN_UNICAST
  let nlh : NlMsg := ⟨24, NLM_F_REQUEST ||| NLM_F_ACK ||| NLM_F_CREATE ||| NLM_F_REPLACE, seq, pid,
    rtmsg host (afOf dst.addr.family) dst.prefixLen 254 3 253 1⟩
  -- RTA_DST, then RTA_OIF
  let nlh ← nlaPut host nlh kScratch 1 (addrData dst.addr)
  nlaPut host nlh kScratch 4 (host.u32 ifindex.toUInt32)

/-! ## The socket -/

/-- A datagram the kernel queued: one message, of which `talk` reads these fields. -/
structure Datagram where
  nlmsgLen : Nat
  nlmsgType : UInt16
  nlmsgSeq : UInt32
  error : Int
  deriving DecidableEq

/-- The client and the receive queue of its socket. -/
structure Client where
  seq : UInt32
  pid : UInt32
  inbox : List Datagram
  deriving DecidableEq

/-- The client right after `open`. -/
def Client.opened (pid : UInt32) : Client := ⟨0, pid, []⟩

/-- What the system makes of one request: how `send` ends, what the kernel decides on the request if
it receives it, and how `recv` ends; `none` is success. Neither system call fails with `EEXIST`. -/
structure Exchange where
  send : Option ErrorCode
  verdict : Option ErrorCode
  recv : Option ErrorCode
  send_ne : send ≠ some .EEXIST
  recv_ne : recv ≠ some .EEXIST

/-- The kernel's acknowledgement: minus the error, and the request's own number. A refused request
is repeated in it. -/
def ack (req : NlMsg) : Option ErrorCode → Datagram
  | none => ⟨36, NLMSG_ERROR, req.nlmsgSeq, 0⟩
  | some ec => ⟨36 + req.payload.length, NLMSG_ERROR, req.nlmsgSeq, -ec.value⟩

/-- What the kernel queues for a request that it receives. -/
def kernelReply (req : NlMsg) (verdict : Option ErrorCode) : List Datagram :=
  if req.nlmsgFlags &&& NLM_F_ACK ≠ 0 then [ack req verdict] else []

/-- What an operation answers, the client after it, and the datagram that `recv` took. -/
structure Reply where
  ec : Option ErrorCode
  client : Client
  consumed : Option Datagram

/-- How `talk` judges the datagram that it took: `NLMSG_OK`, the type, the error. -/
def judge (d : Datagram) : Option ErrorCode :=
  let n := min d.nlmsgLen kScratch
  if ¬ (16 ≤ n ∧ 16 ≤ d.nlmsgLen ∧ d.nlmsgLen ≤ n) then some .EPROTO
  else if d.nlmsgType ≠ NLMSG_ERROR then some .EPROTO
  else if h : d.error = 0 then none
  else some ⟨-d.error, fun h0 => h (Int.neg_eq_zero.mp h0)⟩

/-- `Client::talk`; `none` where `recv` finds the queue empty and blocks. -/
def Client.talk (c : Client) (x : Exchange) (req : NlMsg) : Option Reply :=
  match x.send with
  | some ec => some ⟨some ec, c, none⟩
  | none =>
    let inbox := c.inbox ++ kernelReply req x.verdict
    match x.recv with
    | some ec => some ⟨some ec, { c with inbox }, none⟩
    | none =>
      match inbox with
      | [] => none
      | d :: inbox => some ⟨judge d, { c with inbox }, some d⟩

/-- What the operations share: take the next number, build the message, talk. -/
def Client.operate (c : Client) (x : Exchange) (build : UInt32 → UInt32 → Option NlMsg) :
    Option Reply :=
  let c := { c with seq := c.seq + 1 }
  match build c.seq c.pid with
  | none => some ⟨some .EMSGSIZE, c, none⟩
  | some req => c.talk x req

/-- `IFNAMSIZ`. -/
def ifNameSize : Nat := 16

/-- `Client::if_index`; `if_nametoindex` is the system's. -/
def Client.ifIndex (ifNametoindex : Text → Except ErrorCode UInt32) (name : Text) :
    Except ErrorCode Int32 :=
  if ifNameSize ≤ name.length then .error .EINVAL else (ifNametoindex name).map UInt32.toInt32

/-- `Client::link_up`. -/
def Client.linkUp (c : Client) (host : ByteOrder) (x : Exchange) (ifindex : Int32) :
    Option Reply :=
  c.operate x (linkUpMsg host ifindex)

/-- `Client::set_mtu`. -/
def Client.setMtu (c : Client) (host : ByteOrder) (x : Exchange) (ifindex : Int32) (mtu : UInt32) :
    Option Reply :=
  c.operate x (setMtuMsg host ifindex mtu)

/-- `Client::add_addr`. -/
def Client.addAddr (c : Client) (host : ByteOrder) (x : Exchange) (ifindex : Int32) (addr : Cidr) :
    Option Reply :=
  c.operate x (addAddrMsg host ifindex addr)

/-- `Client::add_route`. -/
def Client.addRoute (c : Client) (host : ByteOrder) (x : Exchange) (ifindex : Int32) (dst : Cidr) :
    Option Reply :=
  c.operate x (addRouteMsg host ifindex dst)

/-- A call of one of the operations. -/
inductive Op where
  | linkUp (ifindex : Int32)
  | setMtu (ifindex : Int32) (mtu : UInt32)
  | addAddr (ifindex : Int32) (addr : Cidr)
  | addRoute (ifindex : Int32) (dst : Cidr)
  deriving DecidableEq

/-- Make the call. -/
def Op.run (host : ByteOrder) (c : Client) (x : Exchange) : Op → Option Reply
  | .linkUp i => c.linkUp host x i
  | .setMtu i mtu => c.setMtu host x i mtu
  | .addAddr i addr => c.addAddr host x i addr
  | .addRoute i dst => c.addRoute host x i dst

/-- The runs of one client: any operations, any exchanges, after a successful `open`. -/
def client (host : ByteOrder) (pid : UInt32) : Machine Client (Op × Exchange) where
  init := .opened pid
  step := fun c a => (a.1.run host c a.2).map Reply.client

/-! ## What one operation can do -/

/-- A message of `len` bytes as the operations build it: numbered `seq`, and asking for an
acknowledgement. -/
structure NlMsg.Request (seq : UInt32) (len : Nat) (req : NlMsg) : Prop where
  seq_eq : req.nlmsgSeq = seq
  asks : req.nlmsgFlags &&& NLM_F_ACK ≠ 0
  len_eq : req.nlmsgLen = len

theorem length_addrData (a : IpAddr) : (addrData a).length = a.family.addrLen := by
  cases h : a.family <;> simp [addrData, h, Family.addrLen]

@[simp] theorem length_ifinfomsg (host : ByteOrder) (family : UInt8) (index : Int32)
    (flags change : UInt32) : (ifinfomsg host family index flags change).length = 16 := by
  simp [ifinfomsg]

@[simp] theorem length_ifaddrmsg (host : ByteOrder) (family prefixlen flags scope : UInt8)
    (index : UInt32) : (ifaddrmsg host family prefixlen flags scope index).length = 8 := by
  simp [ifaddrmsg]

@[simp] theorem length_rtmsg (host : ByteOrder) (family dstLen table protocol scope type : UInt8) :
    (rtmsg host family dstLen table protocol scope type).length = 12 := by
  simp [rtmsg]

/-- A header that asks for an acknowledgement begins a request. -/
theorem NlMsg.Request.start {type flags : UInt16} {seq pid : UInt32} {payload : Text} {len : Nat}
    (hasks : flags &&& NLM_F_ACK ≠ 0) (hlen : 16 + payload.length = len) :
    NlMsg.Request seq len ⟨type, flags, seq, pid, payload⟩ :=
  ⟨rfl, hasks, hlen⟩

/-- An attribute that fits makes a longer request. -/
theorem NlMsg.Request.nlaPut {seq : UInt32} {len : Nat} {req : NlMsg} (h : req.Request seq len)
    (host : ByteOrder) (type : UInt16) {data : Text} {n : Nat} (hn : data.length = n)
    (hfit : nlmsgAlign len + rtaLength n ≤ kScratch) :
    ∃ req', Netlink.nlaPut host req kScratch type data = some req' ∧
      req'.Request seq (nlmsgAlign len + rtaLength n) := by
  subst hn
  obtain ⟨req', hput⟩ := nlaPut_isSome host type (h.len_eq.symm ▸ hfit)
  obtain ⟨hflags, hseq, hlen⟩ := nlaPut_header hput
  exact ⟨req', hput, ⟨hseq.trans h.seq_eq, hflags ▸ h.asks, h.len_eq ▸ hlen⟩⟩

/-- A builder whose messages are requests: never refused for lack of room, and short enough for a
reply that repeats the message to fit `talk`'s buffer. -/
def Requests (build : UInt32 → UInt32 → Option NlMsg) : Prop :=
  ∀ seq pid, ∃ req len, build seq pid = some req ∧ req.Request seq len ∧ len ≤ 128

theorem linkUpMsg_requests (host : ByteOrder) (i : Int32) : Requests (linkUpMsg host i) :=
  fun _ _ => ⟨_, 32, rfl, .start (by decide) (by simp), by decide⟩

theorem setMtuMsg_requests (host : ByteOrder) (i : Int32) (mtu : UInt32) :
    Requests (setMtuMsg host i mtu) := by
  intro seq pid
  have hstart : NlMsg.Request seq 32
      ⟨16, NLM_F_REQUEST ||| NLM_F_ACK, seq, pid, ifinfomsg host 0 i 0 0⟩ :=
    .start (by decide) (by simp)
  obtain ⟨req, hput, hreq⟩ := hstart.nlaPut host 4 (host.length_u32 mtu) (by decide)
  exact ⟨req, _, hput, hreq, by decide⟩

theorem addAddrMsg_requests (host : ByteOrder) (i : Int32) (addr : Cidr) :
    Requests (addAddrMsg host i addr) := by
  intro seq pid
  have hstart : NlMsg.Request seq 24 ⟨20, NLM_F_REQUEST ||| NLM_F_ACK ||| NLM_F_CREATE |||
      NLM_F_REPLACE, seq, pid, ifaddrmsg host (afOf addr.addr.family) addr.prefixLen 0 0
        i.toUInt32⟩ :=
    .start (by decide) (by simp)
  have hdata := length_addrData addr.addr
  obtain ⟨req, hput, hreq⟩ := hstart.nlaPut host 2 hdata (by cases addr.addr.family <;> decide)
  obtain ⟨req', hput', hreq'⟩ := hreq.nlaPut host 1 hdata (by cases addr.addr.family <;> decide)
  refine ⟨req', _, ?_, hreq', by cases addr.addr.family <;> decide⟩
  simp only [addAddrMsg, hput, hput', Option.bind_eq_bind, Option.bind_some]

theorem addRouteMsg_requests (host : ByteOrder) (i : Int32) (dst : Cidr) :
    Requests (addRouteMsg host i dst) := by
  intro seq pid
  have hstart : NlMsg.Request seq 28 ⟨24, NLM_F_REQUEST ||| NLM_F_ACK ||| NLM_F_CREATE |||
      NLM_F_REPLACE, seq, pid, rtmsg host (afOf dst.addr.family) dst.prefixLen 254 3 253 1⟩ :=
    .start (by decide) (by simp)
  have hdata := length_addrData dst.addr
  obtain ⟨req, hput, hreq⟩ := hstart.nlaPut host 1 hdata (by cases dst.addr.family <;> decide)
  obtain ⟨req', hput', hreq'⟩ := hreq.nlaPut host 4 (host.length_u32 i.toUInt32)
    (by cases dst.addr.family <;> decide)
  refine ⟨req', _, ?_, hreq', by cases dst.addr.family <;> decide⟩
  simp only [addRouteMsg, hput, hput', Option.bind_eq_bind, Option.bind_some]

/-- `a` is the acknowledgement numbered `seq` of a request on which the kernel decided `verdict`,
and `talk` reads that verdict off it. -/
structure Datagram.Acks (a : Datagram) (seq : UInt32) (verdict : Option ErrorCode) : Prop where
  seq_eq : a.nlmsgSeq = seq
  error_eq : a.error = 0 ↔ verdict = none
  judge_eq : judge a = verdict

theorem NlMsg.Request.ack_acks {seq : UInt32} {len : Nat} {req : NlMsg} (h : req.Request seq len)
    (hshort : len ≤ 128) (verdict : Option ErrorCode) : (ack req verdict).Acks seq verdict := by
  rw [← h.len_eq] at hshort
  cases verdict with
  | none => exact ⟨h.seq_eq, by simp [ack], by simp [judge, ack, kScratch]⟩
  | some ec =>
    have herror : -ec.value ≠ 0 := fun h0 => ec.ne_zero (Int.neg_eq_zero.mp h0)
    refine ⟨h.seq_eq, by simp [ack, ec.ne_zero], ?_⟩
    have hlen : 36 + req.payload.length ≤ kScratch := by
      simp only [NlMsg.nlmsgLen] at hshort
      simp only [kScratch]
      omega
    simp only [judge, ack, Nat.min_eq_left hlen, herror, dif_neg, not_false_eq_true, ne_eq,
      not_true_eq_false, if_false, Int.neg_neg]
    rw [if_neg (by omega)]

/-- **What one operation can do**: `send` fails and nothing has happened; the request is sent, and
its acknowledgement stays unread in the queue because `recv` fails; or the oldest datagram of the
queue, with the new acknowledgement at its end, is taken and judged. The client's number grows by
one in every case. -/
inductive Client.Settles (c : Client) (x : Exchange) : Reply → Prop
  | unsent {ec : ErrorCode} : x.send = some ec →
      Settles c x ⟨some ec, ⟨c.seq + 1, c.pid, c.inbox⟩, none⟩
  | unheard {a : Datagram} {ec : ErrorCode} : x.send = none → x.recv = some ec →
      a.Acks (c.seq + 1) x.verdict →
      Settles c x ⟨some ec, ⟨c.seq + 1, c.pid, c.inbox ++ [a]⟩, none⟩
  | heard {a d : Datagram} {rest : List Datagram} : x.send = none → x.recv = none →
      a.Acks (c.seq + 1) x.verdict → c.inbox ++ [a] = d :: rest →
      Settles c x ⟨judge d, ⟨c.seq + 1, c.pid, rest⟩, some d⟩

/-- An operation whose message is a request returns, with one of the three outcomes. -/
theorem Client.operate_settles {c : Client} {x : Exchange}
    {build : UInt32 → UInt32 → Option NlMsg} (hbuild : Requests build) :
    ∃ r, c.operate x build = some r ∧ c.Settles x r := by
  obtain ⟨req, len, hreq, hrequest, hshort⟩ := hbuild (c.seq + 1) c.pid
  have hacks := hrequest.ack_acks hshort x.verdict
  have hreply : kernelReply req x.verdict = [ack req x.verdict] := if_pos hrequest.asks
  simp only [Client.operate, hreq, Client.talk, hreply]
  cases hsend : x.send with
  | some ec => exact ⟨_, rfl, .unsent hsend⟩
  | none =>
    cases hrecv : x.recv with
    | some ec => exact ⟨_, rfl, .unheard hsend hrecv hacks⟩
    | none =>
      cases hinbox : c.inbox ++ [ack req x.verdict] with
      | nil => exact absurd hinbox (by simp)
      | cons d rest => exact ⟨_, rfl, .heard hsend hrecv hacks hinbox⟩

/-- **Every operation returns**, with one of the three outcomes. -/
theorem Op.run_settles (host : ByteOrder) (c : Client) (x : Exchange) (op : Op) :
    ∃ r, op.run host c x = some r ∧ c.Settles x r := by
  cases op with
  | linkUp i => exact Client.operate_settles (linkUpMsg_requests host i)
  | setMtu i mtu => exact Client.operate_settles (setMtuMsg_requests host i mtu)
  | addAddr i addr => exact Client.operate_settles (addAddrMsg_requests host i addr)
  | addRoute i dst => exact Client.operate_settles (addRouteMsg_requests host i dst)

/-- With nothing left over in the queue, an operation ends as the kernel decided, by the
acknowledgement of its own request, and leaves nothing over; or it fails in `send` or `recv`, and
then not with `EEXIST`. -/
theorem Client.Settles.of_empty {c : Client} {x : Exchange} {r : Reply} (h : c.Settles x r)
    (hempty : c.inbox = []) :
    (x.send = none ∧ r.ec = x.verdict ∧ r.client.inbox = [] ∧
        ∃ d, r.consumed = some d ∧ d.Acks r.client.seq x.verdict) ∨
      (r.ec ≠ none ∧ r.ec ≠ some .EEXIST ∧ (x.send = none → x.recv ≠ none)) := by
  cases h with
  | unsent hsend =>
    exact Or.inr ⟨nofun, fun h => x.send_ne (hsend.trans h), fun h => by simp [h] at hsend⟩
  | unheard hsend hrecv ha =>
    exact Or.inr ⟨nofun, fun h => x.recv_ne (hrecv.trans h), fun _ h => by simp [h] at hrecv⟩
  | heard hsend hrecv ha hcons =>
    rw [hempty, List.nil_append] at hcons
    cases hcons
    exact Or.inl ⟨hsend, ha.judge_eq, rfl, _, rfl, ha⟩

/-! ## Runs -/

/-- The reply to a request that is sent is not missed. -/
def Heard (_ : Client) (a : Op × Exchange) : Prop := a.2.send = none → a.2.recv = none

/-- While no reply is missed, nothing is left over between two operations. -/
theorem inbox_of_reach {host : ByteOrder} {pid : UInt32} {c : Client}
    (h : (client host pid).Reach Heard c) : c.inbox = [] := by
  refine h.invariant (I := fun c => c.inbox = []) rfl fun c a c' _ hheard hstep hempty => ?_
  obtain ⟨r, hrun, hsettles⟩ := a.1.run_settles host c a.2
  obtain rfl : r.client = c' := by
    simpa only [client, hrun, Option.map_some, Option.some.injEq] using hstep
  cases hsettles with
  | unsent hsend => exact hempty
  | unheard hsend hrecv => exact absurd (hheard hsend) (by simp [hrecv])
  | heard hsend hrecv ha hcons =>
    rw [hempty, List.nil_append] at hcons
    cases hcons
    rfl

/-- The operation took the acknowledgement of its own request, with error zero. -/
def Reply.Own (r : Reply) : Prop :=
  ∃ d, r.consumed = some d ∧ d.nlmsgSeq = r.client.seq ∧ d.error = 0

/-- **A success belongs to its request** while no earlier reply has been missed. -/
theorem Op.own_acknowledgement {host : ByteOrder} {pid : UInt32} {c : Client}
    (h : (client host pid).Reach Heard c) {op : Op} {x : Exchange} {r : Reply}
    (hrun : op.run host c x = some r) (hok : r.ec = none) : r.Own := by
  obtain ⟨r', hrun', hsettles⟩ := op.run_settles host c x
  obtain rfl : r' = r := Option.some.inj (hrun'.symm.trans hrun)
  rcases hsettles.of_empty (inbox_of_reach h) with ⟨-, hec, -, d, hd, ha⟩ | ⟨hfail, -⟩
  · exact ⟨d, hd, ha.seq_eq, ha.error_eq.mpr (hec ▸ hok)⟩
  · exact absurd hok hfail

/-- **A missed reply shifts what follows.** With a datagram left over, an operation that sends and
receives ends as that datagram says, whatever the kernel decides on the request, and leaves as many
over as it found. -/
theorem Client.Settles.stale {c : Client} {x : Exchange} {r : Reply} {d : Datagram}
    {rest : List Datagram} (h : c.Settles x r) (hinbox : c.inbox = d :: rest)
    (hsend : x.send = none) (hrecv : x.recv = none) :
    r.ec = judge d ∧ r.consumed = some d ∧
      ∃ a, a.Acks (c.seq + 1) x.verdict ∧ r.client.inbox = rest ++ [a] := by
  cases h with
  | unsent hfail => simp [hfail] at hsend
  | unheard _ hfail => simp [hfail] at hrecv
  | @heard a d' rest' _ _ ha hcons =>
    rw [hinbox, List.cons_append] at hcons
    cases hcons
    exact ⟨rfl, rfl, a, ha, rfl⟩

end Cfd.Net.Netlink
