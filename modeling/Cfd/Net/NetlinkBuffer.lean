import Cfd.Base.Memory
import Cfd.Base.Tlv
import Cfd.Net.Netlink
import Mathlib.Algebra.Group.Nat.Defs

/-!
# Netlink messages in memory

`nla_put` of `src/net/netlink.cpp` as it works on the bytes of a buffer, and what a receiver reads
back. A message under construction is a zeroed buffer of `kScratch` bytes with memory behind it;
`nla_put` reads `nlmsg_len` from the buffer and stores into it, at addresses that it computes in
`size_t`. `nlaPutMem_eq` says that this is `nlaPut` of `Cfd.Net.Netlink`.

The receiver's side is the walk of `RTA_OK` and `RTA_NEXT` over the bytes between the fixed part of
the message and `nlmsg_len`. `NlMsg.Carries.put` is the step: a message whose fixed part is followed by
a sequence of attributes is extended to one that carries one attribute more.
-/

set_option autoImplicit false

namespace Cfd.Net.Netlink

open Cfd.Base Cfd.Net

/-! ## Reading scalars -/

/-- The number whose bytes are these, from the least significant one. -/
def littleNat : Text → Nat
  | [] => 0
  | c :: s => c.toNat + 256 * littleNat s

/-- A `uint16_t` read from memory. -/
def ByteOrder.readU16 (host : ByteOrder) (s : Text) : UInt16 :=
  UInt16.ofNat (littleNat (host.lay (s.take 2)))

/-- A `uint32_t` read from memory. -/
def ByteOrder.readU32 (host : ByteOrder) (s : Text) : UInt32 :=
  UInt32.ofNat (littleNat (host.lay (s.take 4)))

@[simp] theorem ByteOrder.lay_lay (host : ByteOrder) (s : Text) : host.lay (host.lay s) = s := by
  cases host with
  | little => rfl
  | big => exact List.reverse_reverse s

@[simp] theorem ByteOrder.readU16_u16 (host : ByteOrder) (n : UInt16) (s : Text) :
    host.readU16 (host.u16 n ++ s) = n := by
  have htake : (host.u16 n ++ s).take 2 = host.u16 n := List.take_left' (host.length_u16 n)
  apply UInt16.toNat_inj.mp
  have hlt := n.toNat_lt
  rw [ByteOrder.readU16, htake, ByteOrder.u16, lay_lay]
  simp only [littleNat, UInt16.toNat_ofNat', UInt16.toNat_toUInt8, UInt16.toNat_shiftRight,
    Nat.shiftRight_eq_div_pow, UInt16.reduceToNat, Nat.reduceMod, Nat.reducePow]
  omega

@[simp] theorem ByteOrder.readU32_u32 (host : ByteOrder) (n : UInt32) (s : Text) :
    host.readU32 (host.u32 n ++ s) = n := by
  have htake : (host.u32 n ++ s).take 4 = host.u32 n := List.take_left' (host.length_u32 n)
  apply UInt32.toNat_inj.mp
  have hlt := n.toNat_lt
  rw [ByteOrder.readU32, htake, ByteOrder.u32, lay_lay]
  simp only [littleNat, UInt32.toNat_ofNat', UInt32.toNat_toUInt8, UInt32.toNat_shiftRight,
    Nat.shiftRight_eq_div_pow, UInt32.reduceToNat, Nat.reduceMod, Nat.reducePow]
  omega

/-! ## The buffer -/

/-- The header of a message: `nlmsg_len`, then the type, the flags, the number and the port. -/
def NlMsg.header (host : ByteOrder) (m : NlMsg) : Text :=
  host.u32 (UInt32.ofNat m.nlmsgLen) ++ (host.u16 m.nlmsgType ++ host.u16 m.nlmsgFlags ++
    host.u32 m.nlmsgSeq ++ host.u32 m.nlmsgPid)

/-- The memory from the header on: the message, zeros up to `kScratch`, and what is behind the
buffer. -/
def NlMsg.mem (host : ByteOrder) (m : NlMsg) (outside : Mem) : Mem :=
  .buffer kScratch (m.header host ++ m.payload) outside

/-- `nlh->nlmsg_len`. -/
def nlmsgLenAt (host : ByteOrder) (mem : Mem) : Nat := (host.readU32 (mem.load 0 4)).toNat

/-- `nla_put` on the memory at `nlh`, with a `size_t` of `sizeBits` bits. -/
def nlaPutMem (host : ByteOrder) (sizeBits : Nat) (mem : Mem) (cap : Nat) (type : UInt16)
    (data : Text) : Bool × Mem :=
  let aligned := nlmsgAlign (nlmsgLenAt host mem) % 2 ^ 32
  let need := (aligned + rtaLength data.length) % 2 ^ sizeBits
  if need > cap then (false, mem)
  else
    -- `rta_type` stands behind `rta_len`
    let mem := mem.store (aligned + 2) (host.u16 type)
    let mem := mem.store aligned (host.u16 (UInt16.ofNat (rtaLength data.length)))
    let mem := mem.store (aligned + rtaLength 0) data
    (true, mem.store 0 (host.u32 (UInt32.ofNat need)))

@[simp] theorem NlMsg.length_header (host : ByteOrder) (m : NlMsg) : (m.header host).length = 16 := by
  simp [NlMsg.header]

theorem NlMsg.length_wire (host : ByteOrder) (m : NlMsg) :
    (m.header host ++ m.payload).length = m.nlmsgLen := by
  rw [List.length_append, NlMsg.length_header, NlMsg.nlmsgLen]

/-- The length that the buffer holds. -/
theorem nlmsgLenAt_mem {host : ByteOrder} {m : NlMsg} {outside : Mem} (h : m.nlmsgLen ≤ kScratch) :
    nlmsgLenAt host (m.mem host outside) = m.nlmsgLen := by
  have hload : (m.mem host outside).load 0 4 = host.u32 (UInt32.ofNat m.nlmsgLen) := by
    have hwire := m.length_wire host
    rw [NlMsg.mem, NlMsg.header, List.append_assoc]
    rw [NlMsg.header, List.append_assoc] at hwire
    have hfront := Mem.load_buffer_front outside (hwire.trans_le h)
    rwa [host.length_u32] at hfront
  have hread := host.readU32_u32 (UInt32.ofNat m.nlmsgLen) []
  rw [List.append_nil] at hread
  rw [nlmsgLenAt, hload, hread, UInt32.toNat_ofNat', Nat.mod_eq_of_lt]
  exact Nat.lt_of_le_of_lt h (by decide)

/-- The addresses that `nla_put` computes do not wrap around. -/
theorem nlaPut_need {sizeBits len n : Nat} (hbits : 32 ≤ sizeBits) (hlen : len ≤ kScratch)
    (hn : n < 2 ^ 31) :
    nlmsgAlign len % 2 ^ 32 = nlmsgAlign len ∧
      (nlmsgAlign len + rtaLength n) % 2 ^ sizeBits = nlmsgAlign len + rtaLength n := by
  have hscratch : kScratch = 4096 := rfl
  have hwide : 2 ^ 32 ≤ 2 ^ sizeBits := Nat.pow_le_pow_right (by decide) hbits
  refine ⟨Nat.mod_eq_of_lt ?_, Nat.mod_eq_of_lt ?_⟩
  · rw [nlmsgAlign]
    omega
  · rw [nlmsgAlign, rtaLength]
    omega

/-- **`nla_put` on memory is `nla_put` on messages.** -/
theorem nlaPutMem_eq {host : ByteOrder} {sizeBits cap : Nat} {m : NlMsg} {outside : Mem}
    (hbits : 32 ≤ sizeBits) (hcap : cap ≤ kScratch) (hm : m.nlmsgLen ≤ kScratch) (type : UInt16)
    {data : Text} (hdata : data.length < 2 ^ 31) :
    nlaPutMem host sizeBits (m.mem host outside) cap type data =
      match nlaPut host m cap type data with
      | none => (false, m.mem host outside)
      | some m' => (true, m'.mem host outside) := by
  have hscratch : kScratch = 4096 := rfl
  obtain ⟨haligned, hneed⟩ := nlaPut_need hbits hm hdata
  simp only [nlaPutMem, nlaPut, nlmsgLenAt_mem hm, haligned, hneed]
  split
  · rfl
  next hfit =>
    congr 1
    have hle : m.nlmsgLen ≤ nlmsgAlign m.nlmsgLen := by
      rw [nlmsgAlign]
      omega
    have hlen : rtaLength data.length = 4 + data.length := rfl
    -- the attribute is stored in three parts, which are one behind the other
    have hattr : ((m.mem host outside).store (nlmsgAlign m.nlmsgLen + 2) (host.u16 type)).store
        (nlmsgAlign m.nlmsgLen) (host.u16 (UInt16.ofNat (rtaLength data.length))) =
        (m.mem host outside).store (nlmsgAlign m.nlmsgLen)
          (host.u16 (UInt16.ofNat (rtaLength data.length)) ++ host.u16 type) := by
      rw [Mem.store_comm _ (by rw [host.length_u16]), Mem.store_append, host.length_u16]
    have hdata' : nlmsgAlign m.nlmsgLen + rtaLength 0 = nlmsgAlign m.nlmsgLen +
        (host.u16 (UInt16.ofNat (rtaLength data.length)) ++ host.u16 type).length := by
      simp [rtaLength]
    rw [hattr, hdata', ← Mem.store_append, NlMsg.mem, Mem.store_buffer_back, m.length_wire host]
    · have hput : NlMsg.nlmsgLen { m with
          payload := m.payload ++ (List.replicate (nlmsgAlign m.nlmsgLen - m.nlmsgLen) 0 ++
            (host.u16 (UInt16.ofNat (rtaLength data.length)) ++ (host.u16 type ++ data))) } =
          nlmsgAlign m.nlmsgLen + rtaLength data.length := by
        simp only [NlMsg.nlmsgLen, List.length_append, List.length_replicate, host.length_u16] at hle ⊢
        omega
      rw [NlMsg.header, List.append_assoc, List.append_assoc, List.append_assoc,
        Mem.store_buffer_front]
      · simp only [NlMsg.mem, NlMsg.header, List.append_assoc, hput]
      · rw [host.length_u32, host.length_u32]
      · rw [host.length_u32]
        decide
    · rw [m.length_wire host]
      exact hle
    · simp only [List.length_append, host.length_u16]
      omega

/-- **`nla_put` stays in its place**: besides the length field it writes from the old length on, and
below `cap`. -/
theorem nlaPutMem_frame {host : ByteOrder} {sizeBits cap : Nat} {mem : Mem} {type : UInt16}
    {data : Text} (hbits : 32 ≤ sizeBits) (hlen : nlmsgLenAt host mem ≤ kScratch)
    (hdata : data.length < 2 ^ 31) {i : Nat} (hi : 4 ≤ i)
    (hout : i < nlmsgLenAt host mem ∨ cap ≤ i) :
    (nlaPutMem host sizeBits mem cap type data).2 i = mem i := by
  obtain ⟨haligned, hneed⟩ := nlaPut_need hbits hlen hdata
  have hle : nlmsgLenAt host mem ≤ nlmsgAlign (nlmsgLenAt host mem) := by
    rw [nlmsgAlign]
    omega
  simp only [nlaPutMem, haligned, hneed]
  generalize nlmsgAlign (nlmsgLenAt host mem) = aligned at hle ⊢
  split
  · rfl
  next hfit =>
    have hrta : ∀ n, rtaLength n = 4 + n := fun _ => rfl
    have h16 := host.length_u16
    dsimp only
    rw [Mem.store_of_ge _ (by rw [host.length_u32]; exact hi)]
    rcases hout with hbefore | hbehind
    · rw [Mem.store_of_lt _ _ (by omega), Mem.store_of_lt _ _ (by omega),
        Mem.store_of_lt _ _ (by omega)]
    · have hcap := Nat.le_of_not_lt hfit
      rw [hrta] at hcap
      rw [Mem.store_of_ge _ (by rw [hrta]; omega), Mem.store_of_ge _ (by rw [h16]; omega),
        Mem.store_of_ge _ (by rw [h16]; omega)]

/-! ## Attributes -/

/-- `struct rtattr`: `rta_len`, then `rta_type`. -/
def rtattr (host : ByteOrder) : Tlv.Format UInt16 where
  headLen := 4
  unit := 4
  limit := 2 ^ 16
  head n type := host.u16 (UInt16.ofNat n) ++ host.u16 type
  readHead s := ((host.readU16 s).toNat, host.readU16 (s.drop 2))
  headLen_pos := Nat.succ_pos 3
  unit_pos := Nat.succ_pos 3
  length_head n type := by simp
  readHead_head type s hn := by
    rw [List.append_assoc, host.readU16_u16, List.drop_left' (host.length_u16 _), host.readU16_u16,
      UInt16.toNat_ofNat', Nat.mod_eq_of_lt hn]

/-- An attribute of a netlink message. -/
abbrev Attr := Tlv.Attr UInt16

theorem rtattr_align (host : ByteOrder) (n : Nat) : (rtattr host).align n = nlmsgAlign n := by
  simp only [Tlv.Format.align, Tlv.Format.pad, rtattr, nlmsgAlign]
  omega

/-- The message is its fixed part with these attributes behind it, and fits the buffer. -/
structure NlMsg.Carries (host : ByteOrder) (fixed : Text) (attrs : List Attr) (m : NlMsg) :
    Prop where
  payload : m.payload = fixed ++ (rtattr host).layout attrs
  fits : ∀ a ∈ attrs, (rtattr host).Fits a
  len : m.nlmsgLen ≤ kScratch

/-- **An attribute that fits is carried behind the others.** -/
theorem NlMsg.Carries.put {host : ByteOrder} {fixed : Text} {attrs : List Attr} {m m' : NlMsg}
    {cap : Nat} {a : Attr} (h : m.Carries host fixed attrs) (hfixed : 4 ∣ fixed.length)
    (hcap : cap ≤ kScratch) (hput : nlaPut host m cap a.type a.data = some m') :
    m'.Carries host fixed (attrs ++ [a]) := by
  obtain ⟨-, -, hlen⟩ := nlaPut_header hput
  have hpad : nlmsgAlign m.nlmsgLen - m.nlmsgLen =
      (rtattr host).pad ((rtattr host).layout attrs).length := by
    have hdvd : (rtattr host).unit ∣ 16 + fixed.length := Nat.dvd_add (show 4 ∣ 16 by decide) hfixed
    rw [← rtattr_align host, Tlv.Format.align, Nat.add_sub_cancel_left, NlMsg.nlmsgLen, h.payload,
      List.length_append, ← Nat.add_assoc]
    exact (rtattr host).pad_add hdvd _
  have hfit : nlmsgAlign m.nlmsgLen + rtaLength a.data.length ≤ cap := by
    rw [nlaPut] at hput
    split at hput
    · cases hput
    next hle => exact Nat.le_of_not_lt hle
  refine ⟨?_, ?_, ?_⟩
  · simp only [nlaPut, if_neg (Nat.not_lt_of_le hfit), Option.some.injEq] at hput
    rw [← hput, (rtattr host).layout_snoc, ← hpad]
    simp only [h.payload, Tlv.Format.encode, rtattr, rtaLength, List.append_assoc]
  · intro b hb
    rcases List.mem_append.mp hb with hold | hnew
    · exact h.fits b hold
    · obtain rfl := List.mem_singleton.mp hnew
      have hscratch : kScratch = 4096 := rfl
      have hrta : rtaLength b.data.length = 4 + b.data.length := rfl
      change 4 + b.data.length < 2 ^ 16
      omega
  · exact hlen ▸ Nat.le_trans hfit hcap

/-! ## The receiver -/

/-- The bytes that `talk` sends. -/
def sentBytes (host : ByteOrder) (mem : Mem) : Text := mem.load 0 (nlmsgLenAt host mem)

/-- The attributes of a message with a fixed part of `fixedLen` bytes: `RTA_OK` and `RTA_NEXT`, up to
`nlmsg_len`. -/
def attrsOf (host : ByteOrder) (fixedLen : Nat) (wire : Text) : List Attr :=
  (rtattr host).walk (wire.drop (16 + fixedLen)) ((host.readU32 wire).toNat - (16 + fixedLen))

theorem sentBytes_mem {host : ByteOrder} {m : NlMsg} {outside : Mem} (h : m.nlmsgLen ≤ kScratch) :
    sentBytes host (m.mem host outside) = m.header host ++ m.payload := by
  have hlen : (m.header host ++ m.payload ++ []).length ≤ kScratch := by
    rw [List.append_nil, m.length_wire host]
    exact h
  have hload := Mem.load_buffer_front outside hlen
  rw [List.append_nil, m.length_wire host] at hload
  rw [sentBytes, nlmsgLenAt_mem h]
  exact hload

/-- **The receiver finds the attributes that a message carries.** -/
theorem NlMsg.Carries.attrsOf_sent {host : ByteOrder} {fixed : Text} {attrs : List Attr} {m : NlMsg}
    (h : m.Carries host fixed attrs) (outside : Mem) :
    attrsOf host fixed.length (sentBytes host (m.mem host outside)) = attrs := by
  have hlen : (host.readU32 (m.header host ++ m.payload)).toNat = m.nlmsgLen := by
    have hscratch : kScratch = 4096 := rfl
    have hle := h.len
    rw [NlMsg.header, List.append_assoc, host.readU32_u32, UInt32.toNat_ofNat', Nat.mod_eq_of_lt]
    omega
  have hsize : m.nlmsgLen - (16 + fixed.length) = ((rtattr host).layout attrs).length := by
    rw [NlMsg.nlmsgLen, h.payload, List.length_append]
    omega
  have hdrop : (m.header host ++ m.payload).drop (16 + fixed.length) =
      (rtattr host).layout attrs := by
    rw [h.payload, ← List.append_assoc]
    apply List.drop_left'
    rw [List.length_append, m.length_header]
  have hwalk := (rtattr host).walk_layout h.fits []
  rw [List.append_nil] at hwalk
  rw [sentBytes_mem h.len, attrsOf, hlen, hsize, hdrop, hwalk]

/-! ## Runs of `nla_put` -/

/-- `nla_put` for each of these attributes in turn. -/
def putAll (host : ByteOrder) (sizeBits cap : Nat) : Mem → List Attr → Mem
  | mem, [] => mem
  | mem, a :: as => putAll host sizeBits cap (nlaPutMem host sizeBits mem cap a.type a.data).2 as

/-- The attributes among these for which `nla_put` answers `true`. -/
def putTaken (host : ByteOrder) (sizeBits cap : Nat) : Mem → List Attr → List Attr
  | _, [] => []
  | mem, a :: as =>
    let r := nlaPutMem host sizeBits mem cap a.type a.data
    (if r.1 then [a] else []) ++ putTaken host sizeBits cap r.2 as

/-- What one call of `nla_put` on `mem` may do, for a message with a fixed part of `fixedLen` bytes. -/
structure WellPut (host : ByteOrder) (cap fixedLen : Nat) (mem : Mem) (a : Attr) (r : Bool × Mem) :
    Prop where
  accepts : r.1 = true ↔ nlmsgAlign (nlmsgLenAt host mem) + 4 + a.data.length ≤ cap
  refuses : r.1 = false → r.2 = mem
  keeps : ∀ i, 4 ≤ i → i < nlmsgLenAt host mem → r.2 i = mem i
  inside : ∀ i, cap ≤ i → r.2 i = mem i
  walks : r.1 = true →
    attrsOf host fixedLen (sentBytes host r.2) = attrsOf host fixedLen (sentBytes host mem) ++ [a]

section

variable {host : ByteOrder} {sizeBits cap : Nat} {fixed : Text} {outside : Mem}

/-- One call, on a message that carries attributes. -/
theorem NlMsg.Carries.wellPut {m : NlMsg} {attrs : List Attr} (h : m.Carries host fixed attrs)
    (hbits : 32 ≤ sizeBits) (hcap : cap ≤ kScratch) (hfixed : 4 ∣ fixed.length) {a : Attr}
    (ha : a.data.length < 2 ^ 31) :
    WellPut host cap fixed.length (m.mem host outside) a
      (nlaPutMem host sizeBits (m.mem host outside) cap a.type a.data) := by
  have hlen : nlmsgLenAt host (m.mem host outside) = m.nlmsgLen := nlmsgLenAt_mem h.len
  have hput : nlaPutMem host sizeBits (m.mem host outside) cap a.type a.data = _ :=
    nlaPutMem_eq hbits hcap h.len a.type ha
  have haccepts : (nlaPutMem host sizeBits (m.mem host outside) cap a.type a.data).1 = true ↔
      nlmsgAlign (nlmsgLenAt host (m.mem host outside)) + 4 + a.data.length ≤ cap := by
    have hadd : nlmsgAlign m.nlmsgLen + 4 + a.data.length =
        nlmsgAlign m.nlmsgLen + rtaLength a.data.length := Nat.add_assoc _ _ _
    rw [hput, hlen, nlaPut, hadd]
    by_cases hfit : nlmsgAlign m.nlmsgLen + rtaLength a.data.length > cap
    · simp [hfit]
    · simp [hfit, Nat.le_of_not_lt hfit]
  have hrefuses : (nlaPutMem host sizeBits (m.mem host outside) cap a.type a.data).1 = false →
      (nlaPutMem host sizeBits (m.mem host outside) cap a.type a.data).2 = m.mem host outside := by
    rw [hput]
    cases nlaPut host m cap a.type a.data with
    | none =>
      intro _
      rfl
    | some m' =>
      intro hfalse
      cases hfalse
  refine ⟨haccepts, hrefuses, fun i hi hlt => ?_, fun i hge => ?_, ?_⟩
  · exact nlaPutMem_frame hbits (hlen.symm ▸ h.len) ha hi (Or.inl hlt)
  · cases htaken : (nlaPutMem host sizeBits (m.mem host outside) cap a.type a.data).1 with
    | false => rw [hrefuses htaken]
    | true =>
      have hfit := haccepts.mp htaken
      exact nlaPutMem_frame hbits (hlen.symm ▸ h.len) ha (by omega) (Or.inr hge)
  · rw [hput]
    cases hm' : nlaPut host m cap a.type a.data with
    | none =>
      intro hfalse
      cases hfalse
    | some m' =>
      intro _
      rw [h.attrsOf_sent]
      exact (h.put hfixed hcap hm').attrsOf_sent outside

/-- **After any calls the message carries what was taken.** -/
theorem NlMsg.Carries.putAll {calls : List Attr} (hcalls : ∀ a ∈ calls, a.data.length < 2 ^ 31)
    (hbits : 32 ≤ sizeBits) (hcap : cap ≤ kScratch) (hfixed : 4 ∣ fixed.length) {m : NlMsg}
    {attrs : List Attr} (h : m.Carries host fixed attrs) :
    ∃ m' : NlMsg, Netlink.putAll host sizeBits cap (m.mem host outside) calls = m'.mem host outside ∧
      m'.Carries host fixed
        (attrs ++ putTaken host sizeBits cap (m.mem host outside) calls) := by
  induction calls generalizing m attrs with
  | nil => exact ⟨m, rfl, by rwa [putTaken, List.append_nil]⟩
  | cons a as ih =>
    have ha := hcalls a List.mem_cons_self
    have has := fun b hb => hcalls b (List.mem_cons_of_mem a hb)
    rw [Netlink.putAll, putTaken, nlaPutMem_eq hbits hcap h.len a.type ha]
    cases hput : nlaPut host m cap a.type a.data with
    | none => exact ih has h
    | some m' =>
      obtain ⟨m'', hmem, hcarries⟩ := ih has (h.put hfixed hcap hput)
      refine ⟨m'', hmem, ?_⟩
      rwa [List.append_assoc] at hcarries

end

end Cfd.Net.Netlink
