import Cfd.Net.NetlinkBuffer

/-!
# What the kernel reads in a request

The messages of `set_mtu`, `add_addr` and `add_route` as they are built in memory, up to `talk`, and
the reading of such a message: the header, the `struct` behind it, and the attributes behind that.
Each message is read as exactly the values it was built from (`setMtu_read`, `addAddr_read`,
`addRoute_read`). `nla_well_formed` puts this with the rules of `nla_put` itself, over any calls on
any message that begins without attributes.
-/

set_option autoImplicit false

namespace Cfd.Net.Netlink

open Cfd.Base Cfd.Net

/-! ## Building -/

/-- `nla_put` for each of these attributes in turn; `none` where one is refused, and the source
answers `message_size`. -/
def putEach (host : ByteOrder) (sizeBits : Nat) : Mem → List Attr → Option Mem
  | mem, [] => some mem
  | mem, a :: as =>
    let r := nlaPutMem host sizeBits mem kScratch a.type a.data
    if r.1 then putEach host sizeBits r.2 as else none

/-- The flags of a message that creates or replaces. -/
def createReplace : UInt16 := NLM_F_REQUEST ||| NLM_F_ACK ||| NLM_F_CREATE ||| NLM_F_REPLACE

/-- `set_mtu` up to `talk`, in a buffer with `outside` behind it. -/
def setMtuMem (host : ByteOrder) (sizeBits : Nat) (outside : Mem) (ifindex : Int32) (mtu : UInt32)
    (seq pid : UInt32) : Option Mem :=
  let nlh : NlMsg := ⟨16, NLM_F_REQUEST ||| NLM_F_ACK, seq, pid, ifinfomsg host 0 ifindex 0 0⟩
  -- IFLA_MTU
  putEach host sizeBits (nlh.mem host outside) [⟨4, host.u32 mtu⟩]

/-- `add_addr` up to `talk`. -/
def addAddrMem (host : ByteOrder) (sizeBits : Nat) (outside : Mem) (ifindex : Int32) (addr : Cidr)
    (seq pid : UInt32) : Option Mem :=
  let nlh : NlMsg := ⟨20, createReplace, seq, pid,
    ifaddrmsg host (afOf addr.addr.family) addr.prefixLen 0 0 ifindex.toUInt32⟩
  -- IFA_LOCAL, then IFA_ADDRESS
  putEach host sizeBits (nlh.mem host outside) [⟨2, addrData addr.addr⟩, ⟨1, addrData addr.addr⟩]

/-- `add_route` up to `talk`. -/
def addRouteMem (host : ByteOrder) (sizeBits : Nat) (outside : Mem) (ifindex : Int32) (dst : Cidr)
    (seq pid : UInt32) : Option Mem :=
  let nlh : NlMsg := ⟨24, createReplace, seq, pid,
    rtmsg host (afOf dst.addr.family) dst.prefixLen 254 3 253 1⟩
  -- RTA_DST, then RTA_OIF
  putEach host sizeBits (nlh.mem host outside)
    [⟨1, addrData dst.addr⟩, ⟨4, host.u32 ifindex.toUInt32⟩]

/-- **Short attributes are all put**, on memory as on messages. -/
theorem putEach_carries {host : ByteOrder} {sizeBits : Nat} {fixed : Text} {outside : Mem}
    {as : List Attr} (hshort : ∀ a ∈ as, a.data.length ≤ 16) (hbits : 32 ≤ sizeBits)
    (hfixed : 4 ∣ fixed.length) {m : NlMsg} {attrs : List Attr} (h : m.Carries host fixed attrs)
    (hroom : m.nlmsgLen + 24 * as.length ≤ kScratch) :
    ∃ m' : NlMsg, putEach host sizeBits (m.mem host outside) as = some (m'.mem host outside) ∧
      as.foldlM (fun nlh a => nlaPut host nlh kScratch a.type a.data) m = some m' ∧
      m'.Carries host fixed (attrs ++ as) ∧ m' = { m with payload := m'.payload } := by
  induction as generalizing m attrs with
  | nil => exact ⟨m, rfl, rfl, by rwa [List.append_nil], rfl⟩
  | cons a as ih =>
    have ha : a.data.length ≤ 16 := hshort a List.mem_cons_self
    rw [List.length_cons] at hroom
    have hneed : nlmsgAlign m.nlmsgLen + rtaLength a.data.length ≤ m.nlmsgLen + 24 := by
      rw [nlmsgAlign, rtaLength]
      omega
    have hfit : nlmsgAlign m.nlmsgLen + rtaLength a.data.length ≤ kScratch := by omega
    obtain ⟨m', hput⟩ := nlaPut_isSome host a.type hfit
    obtain ⟨-, -, hlen⟩ := nlaPut_header hput
    have hkeep : m' = { m with payload := m'.payload } := by
      simp only [nlaPut] at hput
      split at hput
      · cases hput
      · cases hput
        rfl
    obtain ⟨m'', hmem, hfold, hcarries, hkeep'⟩ :=
      ih (fun b hb => hshort b (List.mem_cons_of_mem a hb)) (h.put hfixed (Nat.le_refl _) hput)
        (by rw [hlen]; omega)
    refine ⟨m'', ?_, ?_, ?_, ?_⟩
    · rw [putEach, nlaPutMem_eq hbits (Nat.le_refl _) h.len a.type (by omega), hput]
      exact hmem
    · rw [List.foldlM_cons, hput]
      exact hfold
    · rwa [List.append_assoc] at hcarries
    · rw [hkeep', hkeep]

/-! ## Reading -/

/-- The fields of `struct nlmsghdr` behind the length. -/
structure Header where
  nlmsgType : UInt16
  nlmsgFlags : UInt16
  nlmsgSeq : UInt32
  nlmsgPid : UInt32

/-- Read the header. -/
def headerOf (host : ByteOrder) (wire : Text) : Header :=
  ⟨host.readU16 (wire.drop 4), host.readU16 (wire.drop 6), host.readU32 (wire.drop 8),
    host.readU32 (wire.drop 12)⟩

/-- A byte of a message. -/
def byteOf (wire : Text) (i : Nat) : UInt8 := (wire[i]?).getD 0

/-- An `RTM_NEWLINK` request. -/
structure LinkRequest where
  header : Header
  ifiFamily : UInt8
  ifiIndex : Int32
  ifiFlags : UInt32
  ifiChange : UInt32
  attrs : List Attr

/-- Read an `RTM_NEWLINK` request. -/
def readLink (host : ByteOrder) (wire : Text) : LinkRequest :=
  ⟨headerOf host wire, byteOf wire 16, (host.readU32 (wire.drop 20)).toInt32,
    host.readU32 (wire.drop 24), host.readU32 (wire.drop 28), attrsOf host 16 wire⟩

/-- An `RTM_NEWADDR` request. -/
structure AddrRequest where
  header : Header
  ifaFamily : UInt8
  ifaPrefixlen : UInt8
  ifaFlags : UInt8
  ifaScope : UInt8
  ifaIndex : UInt32
  attrs : List Attr

/-- Read an `RTM_NEWADDR` request. -/
def readAddr (host : ByteOrder) (wire : Text) : AddrRequest :=
  ⟨headerOf host wire, byteOf wire 16, byteOf wire 17, byteOf wire 18, byteOf wire 19,
    host.readU32 (wire.drop 20), attrsOf host 8 wire⟩

/-- An `RTM_NEWROUTE` request. -/
structure RouteRequest where
  header : Header
  rtmFamily : UInt8
  rtmDstLen : UInt8
  rtmSrcLen : UInt8
  rtmTos : UInt8
  rtmTable : UInt8
  rtmProtocol : UInt8
  rtmScope : UInt8
  rtmType : UInt8
  rtmFlags : UInt32
  attrs : List Attr

/-- Read an `RTM_NEWROUTE` request. -/
def readRoute (host : ByteOrder) (wire : Text) : RouteRequest :=
  ⟨headerOf host wire, byteOf wire 16, byteOf wire 17, byteOf wire 18, byteOf wire 19,
    byteOf wire 20, byteOf wire 21, byteOf wire 22, byteOf wire 23, host.readU32 (wire.drop 24),
    attrsOf host 12 wire⟩

variable {host : ByteOrder} {m : NlMsg}

/-- The header of a message is read as it was written. -/
theorem headerOf_wire (s : Text) :
    headerOf host (m.header host ++ s) =
      ⟨m.nlmsgType, m.nlmsgFlags, m.nlmsgSeq, m.nlmsgPid⟩ := by
  have h4 : (m.header host ++ s).drop 4 = host.u16 m.nlmsgType ++ (host.u16 m.nlmsgFlags ++
      (host.u32 m.nlmsgSeq ++ (host.u32 m.nlmsgPid ++ s))) := by cases host <;> rfl
  have h6 : (m.header host ++ s).drop 6 = host.u16 m.nlmsgFlags ++
      (host.u32 m.nlmsgSeq ++ (host.u32 m.nlmsgPid ++ s)) := by cases host <;> rfl
  have h8 : (m.header host ++ s).drop 8 = host.u32 m.nlmsgSeq ++ (host.u32 m.nlmsgPid ++ s) := by
    cases host <;> rfl
  have h12 : (m.header host ++ s).drop 12 = host.u32 m.nlmsgPid ++ s := by cases host <;> rfl
  rw [headerOf, h4, h6, h8, h12]
  simp only [ByteOrder.readU16_u16, ByteOrder.readU32_u32]

/-- What is behind the header begins at its seventeenth byte. -/
theorem drop_wire (s : Text) (n : Nat) : (m.header host ++ s).drop (16 + n) = s.drop n := by
  rw [← List.drop_drop, List.drop_left' (m.length_header host)]

theorem byteOf_wire (s : Text) (n : Nat) : byteOf (m.header host ++ s) (16 + n) = byteOf s n := by
  rw [byteOf, byteOf, List.getElem?_append_right (by rw [m.length_header]; omega), m.length_header,
    Nat.add_sub_cancel_left]

/-- Read what `ifinfomsg` laid out. -/
theorem readLink_wire (family : UInt8) (index : Int32) (flags change : UInt32) (s : Text) :
    readLink host (m.header host ++ (ifinfomsg host family index flags change ++ s)) =
      ⟨⟨m.nlmsgType, m.nlmsgFlags, m.nlmsgSeq, m.nlmsgPid⟩, family, index, flags, change,
        attrsOf host 16 (m.header host ++ (ifinfomsg host family index flags change ++ s))⟩ := by
  have h4 : (ifinfomsg host family index flags change ++ s).drop 4 =
      host.u32 index.toUInt32 ++ (host.u32 flags ++ (host.u32 change ++ s)) := by cases host <;> rfl
  have h8 : (ifinfomsg host family index flags change ++ s).drop 8 =
      host.u32 flags ++ (host.u32 change ++ s) := by cases host <;> rfl
  have h12 : (ifinfomsg host family index flags change ++ s).drop 12 = host.u32 change ++ s := by
    cases host <;> rfl
  rw [readLink, headerOf_wire, drop_wire _ 4, drop_wire _ 8, drop_wire _ 12, byteOf_wire _ 0, h4, h8,
    h12]
  simp only [ByteOrder.readU32_u32, Int32.toInt32_toUInt32]
  rfl

/-- Read what `ifaddrmsg` laid out. -/
theorem readAddr_wire (family prefixlen flags scope : UInt8) (index : UInt32) (s : Text) :
    readAddr host (m.header host ++ (ifaddrmsg host family prefixlen flags scope index ++ s)) =
      ⟨⟨m.nlmsgType, m.nlmsgFlags, m.nlmsgSeq, m.nlmsgPid⟩, family, prefixlen, flags, scope, index,
        attrsOf host 8
          (m.header host ++ (ifaddrmsg host family prefixlen flags scope index ++ s))⟩ := by
  have h4 : (ifaddrmsg host family prefixlen flags scope index ++ s).drop 4 =
      host.u32 index ++ s := by cases host <;> rfl
  rw [readAddr, headerOf_wire, drop_wire _ 4, byteOf_wire _ 0, byteOf_wire _ 1, byteOf_wire _ 2,
    byteOf_wire _ 3, h4, ByteOrder.readU32_u32]
  rfl

/-- Read what `rtmsg` laid out. -/
theorem readRoute_wire (family dstLen table protocol scope type : UInt8) (s : Text) :
    readRoute host
        (m.header host ++ (rtmsg host family dstLen table protocol scope type ++ s)) =
      ⟨⟨m.nlmsgType, m.nlmsgFlags, m.nlmsgSeq, m.nlmsgPid⟩, family, dstLen, 0, 0, table, protocol,
        scope, type, 0, attrsOf host 12
          (m.header host ++ (rtmsg host family dstLen table protocol scope type ++ s))⟩ := by
  have h8 : (rtmsg host family dstLen table protocol scope type ++ s).drop 8 = host.u32 0 ++ s := by
    cases host <;> rfl
  rw [readRoute, headerOf_wire, drop_wire _ 8, byteOf_wire _ 0, byteOf_wire _ 1, byteOf_wire _ 2,
    byteOf_wire _ 3, byteOf_wire _ 4, byteOf_wire _ 5, byteOf_wire _ 6, byteOf_wire _ 7, h8,
    ByteOrder.readU32_u32]
  rfl

/-! ## Each message is read as it was asked -/

/-- A message with a fixed part, as it is sent after its attributes have been put. -/
theorem putEach_sent (host : ByteOrder) {sizeBits : Nat} (hbits : 32 ≤ sizeBits) (outside : Mem)
    (m : NlMsg) (as : List Attr) (hfixed : 4 ∣ m.payload.length)
    (hshort : ∀ a ∈ as, a.data.length ≤ 16) (hroom : m.nlmsgLen + 24 * as.length ≤ kScratch) :
    ∃ m' : NlMsg, putEach host sizeBits (m.mem host outside) as = some (m'.mem host outside) ∧
      as.foldlM (fun nlh a => nlaPut host nlh kScratch a.type a.data) m = some m' ∧
      (∃ s, sentBytes host (m'.mem host outside) = m'.header host ++ (m.payload ++ s)) ∧
      attrsOf host m.payload.length (sentBytes host (m'.mem host outside)) = as ∧
      m' = { m with payload := m'.payload } := by
  have hstart : m.Carries host m.payload [] :=
    ⟨by rw [Tlv.Format.layout, List.append_nil], nofun, by omega⟩
  obtain ⟨m', hmem, hfold, hcarries, hkeep⟩ := putEach_carries hshort hbits hfixed hstart hroom
  refine ⟨m', hmem, hfold, ⟨(rtattr host).layout as, ?_⟩, hcarries.attrsOf_sent outside, hkeep⟩
  rw [sentBytes_mem hcarries.len, hcarries.payload]
  rfl

/-- **`set_mtu` is read as it was asked.** -/
theorem setMtu_read (host : ByteOrder) {sizeBits : Nat} (hbits : 32 ≤ sizeBits) (outside : Mem)
    (ifindex : Int32) (mtu seq pid : UInt32) :
    ∃ m, setMtuMsg host ifindex mtu seq pid = some m ∧
      setMtuMem host sizeBits outside ifindex mtu seq pid = some (m.mem host outside) ∧
      readLink host (sentBytes host (m.mem host outside)) =
        ⟨⟨16, NLM_F_REQUEST ||| NLM_F_ACK, seq, pid⟩, 0, ifindex, 0, 0, [⟨4, host.u32 mtu⟩]⟩ := by
  obtain ⟨m, hmem, hfold, ⟨s, hsent⟩, hattrs, hkeep⟩ := putEach_sent host hbits outside
    ⟨16, NLM_F_REQUEST ||| NLM_F_ACK, seq, pid, ifinfomsg host 0 ifindex 0 0⟩
    [⟨4, host.u32 mtu⟩] (by simp) (by simp) (by simp [NlMsg.nlmsgLen, kScratch])
  refine ⟨m, by simpa [setMtuMsg] using hfold, hmem, ?_⟩
  simp only [length_ifinfomsg] at hattrs
  rw [hsent] at hattrs ⊢
  rw [readLink_wire, hattrs, hkeep]

/-- **`add_addr` is read as it was asked.** -/
theorem addAddr_read (host : ByteOrder) {sizeBits : Nat} (hbits : 32 ≤ sizeBits) (outside : Mem)
    (ifindex : Int32) (addr : Cidr) (seq pid : UInt32) :
    ∃ m, addAddrMsg host ifindex addr seq pid = some m ∧
      addAddrMem host sizeBits outside ifindex addr seq pid = some (m.mem host outside) ∧
      readAddr host (sentBytes host (m.mem host outside)) =
        ⟨⟨20, createReplace, seq, pid⟩, afOf addr.addr.family, addr.prefixLen, 0, 0,
          ifindex.toUInt32, [⟨2, addrData addr.addr⟩, ⟨1, addrData addr.addr⟩]⟩ := by
  have hdata : (addrData addr.addr).length ≤ 16 := by
    rw [length_addrData]
    cases addr.addr.family <;> decide
  obtain ⟨m, hmem, hfold, ⟨s, hsent⟩, hattrs, hkeep⟩ := putEach_sent host hbits outside
    ⟨20, createReplace, seq, pid,
      ifaddrmsg host (afOf addr.addr.family) addr.prefixLen 0 0 ifindex.toUInt32⟩
    [⟨2, addrData addr.addr⟩, ⟨1, addrData addr.addr⟩] (by simp) (by simp [hdata])
    (by simp [NlMsg.nlmsgLen, kScratch])
  refine ⟨m, by simpa [addAddrMsg, createReplace] using hfold, hmem, ?_⟩
  simp only [length_ifaddrmsg] at hattrs
  rw [hsent] at hattrs ⊢
  rw [readAddr_wire, hattrs, hkeep]

/-- **`add_route` is read as it was asked.** -/
theorem addRoute_read (host : ByteOrder) {sizeBits : Nat} (hbits : 32 ≤ sizeBits) (outside : Mem)
    (ifindex : Int32) (dst : Cidr) (seq pid : UInt32) :
    ∃ m, addRouteMsg host ifindex dst seq pid = some m ∧
      addRouteMem host sizeBits outside ifindex dst seq pid = some (m.mem host outside) ∧
      readRoute host (sentBytes host (m.mem host outside)) =
        ⟨⟨24, createReplace, seq, pid⟩, afOf dst.addr.family, dst.prefixLen, 0, 0, 254, 3, 253, 1, 0,
          [⟨1, addrData dst.addr⟩, ⟨4, host.u32 ifindex.toUInt32⟩]⟩ := by
  have hdata : (addrData dst.addr).length ≤ 16 := by
    rw [length_addrData]
    cases dst.addr.family <;> decide
  obtain ⟨m, hmem, hfold, ⟨s, hsent⟩, hattrs, hkeep⟩ := putEach_sent host hbits outside
    ⟨24, createReplace, seq, pid, rtmsg host (afOf dst.addr.family) dst.prefixLen 254 3 253 1⟩
    [⟨1, addrData dst.addr⟩, ⟨4, host.u32 ifindex.toUInt32⟩] (by simp) (by simp [hdata])
    (by simp [NlMsg.nlmsgLen, kScratch])
  refine ⟨m, by simpa [addRouteMsg, createReplace] using hfold, hmem, ?_⟩
  simp only [length_rtmsg] at hattrs
  rw [hsent] at hattrs ⊢
  rw [readRoute_wire, hattrs, hkeep]

/-! ## Messages are well formed -/

/-- **Netlink messages are well formed.** After any calls of `nla_put` on a message that began without
attributes, the receiver finds the attributes that were taken, and one call more is accepted exactly
when the attribute fits; then the receiver finds it behind the others, and otherwise nothing has
changed; bytes before the old length (its own field apart) and from `cap` on are left. The messages of
`set_mtu`, `add_addr` and `add_route` are read as the values they were given. -/
theorem nla_well_formed (host : ByteOrder) {sizeBits : Nat} (hbits : 32 ≤ sizeBits)
    (outside : Mem) :
    (∀ (cap : Nat) (start : NlMsg) (calls : List Attr), cap ≤ kScratch →
      4 ∣ start.payload.length → start.nlmsgLen ≤ kScratch →
      (∀ a ∈ calls, a.data.length < 2 ^ 31) →
      ∀ mem, mem = putAll host sizeBits cap (start.mem host outside) calls →
        attrsOf host start.payload.length (sentBytes host mem) =
            putTaken host sizeBits cap (start.mem host outside) calls ∧
          ∀ a : Attr, a.data.length < 2 ^ 31 →
            WellPut host cap start.payload.length mem a
              (nlaPutMem host sizeBits mem cap a.type a.data)) ∧
      (∀ (ifindex : Int32) (mtu seq pid : UInt32), ∃ mem data,
        setMtuMem host sizeBits outside ifindex mtu seq pid = some mem ∧
        readLink host (sentBytes host mem) =
          ⟨⟨16, NLM_F_REQUEST ||| NLM_F_ACK, seq, pid⟩, 0, ifindex, 0, 0, [⟨4, data⟩]⟩ ∧
        host.readU32 data = mtu) ∧
      (∀ (ifindex : Int32) (addr : Cidr) (seq pid : UInt32), ∃ mem,
        addAddrMem host sizeBits outside ifindex addr seq pid = some mem ∧
        readAddr host (sentBytes host mem) =
          ⟨⟨20, createReplace, seq, pid⟩, afOf addr.addr.family, addr.prefixLen, 0, 0,
            ifindex.toUInt32, [⟨2, addrData addr.addr⟩, ⟨1, addrData addr.addr⟩]⟩ ∧
        (addrData addr.addr).length = addr.addr.family.addrLen) ∧
      ∀ (ifindex : Int32) (dst : Cidr) (seq pid : UInt32), ∃ mem oif,
        addRouteMem host sizeBits outside ifindex dst seq pid = some mem ∧
        readRoute host (sentBytes host mem) =
          ⟨⟨24, createReplace, seq, pid⟩, afOf dst.addr.family, dst.prefixLen, 0, 0, 254, 3, 253, 1,
            0, [⟨1, addrData dst.addr⟩, ⟨4, oif⟩]⟩ ∧
        (addrData dst.addr).length = dst.addr.family.addrLen ∧
        (host.readU32 oif).toInt32 = ifindex := by
  refine ⟨?_, ?_, ?_, ?_⟩
  · rintro cap start calls hcap hfixed hfit hcalls mem rfl
    have hstart : start.Carries host start.payload [] :=
      ⟨by rw [Tlv.Format.layout, List.append_nil], nofun, hfit⟩
    obtain ⟨m, hmem, hcarries⟩ := hstart.putAll hcalls hbits hcap hfixed
    rw [hmem]
    exact ⟨hcarries.attrsOf_sent outside, fun a ha => hcarries.wellPut hbits hcap hfixed ha⟩
  · intro ifindex mtu seq pid
    obtain ⟨m, -, hmem, hread⟩ := setMtu_read host hbits outside ifindex mtu seq pid
    refine ⟨_, _, hmem, hread, ?_⟩
    have hmtu := host.readU32_u32 mtu []
    rwa [List.append_nil] at hmtu
  · intro ifindex addr seq pid
    obtain ⟨m, -, hmem, hread⟩ := addAddr_read host hbits outside ifindex addr seq pid
    exact ⟨_, hmem, hread, length_addrData addr.addr⟩
  · intro ifindex dst seq pid
    obtain ⟨m, -, hmem, hread⟩ := addRoute_read host hbits outside ifindex dst seq pid
    refine ⟨_, _, hmem, hread, length_addrData dst.addr, ?_⟩
    have hoif := host.readU32_u32 ifindex.toUInt32 []
    rw [List.append_nil] at hoif
    rw [hoif, Int32.toInt32_toUInt32]

/-- Two attributes, the first of odd length, on the message of `set_mtu`. -/
theorem nla_well_formed_two :
    let start : NlMsg := ⟨16, NLM_F_REQUEST ||| NLM_F_ACK, 1, 0, ifinfomsg .little 0 1 0 0⟩
    let calls : List Attr := [⟨4, [1, 2, 3]⟩, ⟨3, []⟩]
    attrsOf .little start.payload.length (sentBytes .little
        (putAll .little 32 kScratch (start.mem .little fun _ => 0) calls)) =
      putTaken .little 32 kScratch (start.mem .little fun _ => 0) calls :=
  ((nla_well_formed .little (Nat.le_refl 32) _).1 kScratch _ _ (by decide) (by decide) (by decide)
    (by decide) _ rfl).1

end Cfd.Net.Netlink
