import Cfd.Net.CidrText
import Cfd.Net.LpmTrie
import Cfd.Net.NetlinkRequests

/-!
# Kernel routes and user-space policy

A configured block is used three times: `Cidr::contains` compares it, `LpmTrie::insert` makes a path
of it, and `add_route` copies its bytes into a message. The first two stop at the prefix length. The
third does not, and the kernel refuses a route that has a destination bit set behind it.

`route_agrees_iff` says when the three agree. The route always denotes the addresses the block
contains; it is accepted, and the same for every way of writing a block, exactly when the bits behind
the prefix are zero.
-/

set_option autoImplicit false

namespace Cfd.Net.Netlink

open Cfd.Base Cfd.Net

/-! ## What the kernel is asked for -/

/-- Bit `i` of a destination, most significant first. -/
def dstBit (dst : Text) (i : Nat) : Bool := (byteOf dst (i / 8)).toNat.testBit (7 - i % 8)

/-- The prefix of an `RTM_NEWROUTE` request: `rtm_family`, `rtm_dst_len` and `RTA_DST`. -/
structure KernelRoute where
  family : UInt8
  dstLen : UInt8
  dst : Text
  deriving DecidableEq

/-- The prefix in a request; `none` when it has no `RTA_DST`. -/
def RouteRequest.route (r : RouteRequest) : Option KernelRoute :=
  (r.attrs.find? fun a => a.type = 1).map fun a => ⟨r.rtmFamily, r.rtmDstLen, a.data⟩

namespace KernelRoute

/-- The kernel's condition: every bit of the destination from `rtm_dst_len` on is zero. -/
def Accepted (r : KernelRoute) : Prop :=
  ∀ i < 8 * r.dst.length, r.dstLen.toNat ≤ i → dstBit r.dst i = false

instance (r : KernelRoute) : Decidable r.Accepted :=
  inferInstanceAs (Decidable (∀ i < 8 * r.dst.length, _))

/-- The addresses a route is for: those of its family with its leading bits. -/
def Denotes (r : KernelRoute) (a : IpAddr) : Prop :=
  afOf a.family = r.family ∧ ∀ i < r.dstLen.toNat, dstBit r.dst i = bitOf a i

/-- The three uses of a block agree: the route is accepted, it denotes the addresses the block
contains, and a trie with only this block answers for the same ones. -/
structure Agrees (r : KernelRoute) (c : Cidr) : Prop where
  accepted : r.Accepted
  contains : ∀ a, r.Denotes a ↔ c.contains a = true
  answers : ∀ {T : Type} [Inhabited T] (v : T) (a : IpAddr),
    r.Denotes a ↔ ((LpmTrie.ofInserts [(c, v)]).lookup a).isSome = true

end KernelRoute

/-- The prefix the kernel reads in the message of `add_route`. -/
def addedRoute (host : ByteOrder) (sizeBits : Nat) (outside : Mem) (ifindex : Int32) (dst : Cidr)
    (seq pid : UInt32) : Option KernelRoute :=
  (addRouteMem host sizeBits outside ifindex dst seq pid).bind fun mem =>
    (readRoute host (sentBytes host mem)).route

end Cfd.Net.Netlink

namespace Cfd.Net.Cidr

/-- No bit is set behind the prefix. -/
def HostBitsZero (c : Cidr) : Prop :=
  ∀ i < c.addr.family.maxBits, c.prefixLen.toNat ≤ i → bitOf c.addr i = false

instance (c : Cidr) : Decidable c.HostBitsZero :=
  inferInstanceAs (Decidable (∀ i < c.addr.family.maxBits, _))

/-- Two ways of writing one block: same family, same prefix length, same addresses. -/
def SameBlock (c c' : Cidr) : Prop :=
  c.addr.family = c'.addr.family ∧ c.prefixLen = c'.prefixLen ∧ ∀ a, c.contains a = c'.contains a

end Cfd.Net.Cidr

namespace Cfd.Net.Netlink

open Cfd.Base Cfd.Net

/-! ## The bytes of an address and its bits -/

theorem afOf_inj {f g : Family} : afOf f = afOf g ↔ f = g := by
  cases f <;> cases g <;> decide

theorem addrLen_bits (f : Family) : 8 * f.addrLen = f.maxBits := by
  cases f <;> rfl

/-- The bytes copied into a message are the address's own. -/
theorem byteOf_addrData (a : IpAddr) {k : Nat} (hk : k < a.family.addrLen) :
    byteOf (addrData a) k = a.byte k := by
  rw [byteOf, addrData, List.getElem?_take_of_lt hk, IpAddr.byte, Vector.getElem?_toList]

/-- So are their bits. -/
theorem dstBit_addrData (a : IpAddr) {i : Nat} (hi : i < a.family.maxBits) :
    dstBit (addrData a) i = bitOf a i := by
  have hbits := addrLen_bits a.family
  rw [dstBit, byteOf_addrData a (by omega), bitOf_eq_testBit]

/-- Addresses of one family with the same bits have the same bytes. -/
theorem addrData_ext {a b : IpAddr} (hfamily : a.family = b.family)
    (hbits : ∀ i < a.family.maxBits, bitOf a i = bitOf b i) : addrData a = addrData b := by
  have hlen := addrLen_bits a.family
  have hbytes : ∀ k < a.family.addrLen, a.byte k = b.byte k :=
    (bytes_eq_iff a b _).mpr fun i hi => hbits i (by omega)
  refine List.ext_getElem? fun k => ?_
  by_cases hk : k < a.family.addrLen
  · have ha : k < (addrData a).length := by rwa [length_addrData]
    have hb : k < (addrData b).length := by rwa [length_addrData, ← hfamily]
    have hbyte : byteOf (addrData a) k = byteOf (addrData b) k := by
      rw [byteOf_addrData a hk, byteOf_addrData b (hfamily ▸ hk), hbytes k hk]
    rw [byteOf, byteOf, List.getElem?_eq_getElem ha, List.getElem?_eq_getElem hb] at hbyte
    rw [List.getElem?_eq_getElem ha, List.getElem?_eq_getElem hb]
    exact congrArg some hbyte
  · rw [List.getElem?_eq_none (by rw [length_addrData]; omega),
      List.getElem?_eq_none (by rw [length_addrData, ← hfamily]; omega)]

/-! ## The route of a block -/

/-- The route `add_route` asks for. -/
def blockRoute (c : Cidr) : KernelRoute := ⟨afOf c.addr.family, c.prefixLen, addrData c.addr⟩

/-- **The kernel reads the block's own bytes**, host bits included. -/
theorem addedRoute_eq (host : ByteOrder) {sizeBits : Nat} (hbits : 32 ≤ sizeBits) (outside : Mem)
    (ifindex : Int32) (dst : Cidr) (seq pid : UInt32) :
    addedRoute host sizeBits outside ifindex dst seq pid = some (blockRoute dst) := by
  obtain ⟨m, -, hmem, hread⟩ := addRoute_read host hbits outside ifindex dst seq pid
  rw [addedRoute, hmem, Option.bind_some, hread]
  rfl

/-- A block's route is accepted exactly when no bit is set behind the prefix. -/
theorem blockRoute_accepted (c : Cidr) : (blockRoute c).Accepted ↔ c.HostBitsZero := by
  unfold KernelRoute.Accepted Cidr.HostBitsZero
  simp only [blockRoute, length_addrData, addrLen_bits]
  refine forall₂_congr fun i hi => ?_
  rw [dstBit_addrData c.addr hi]

/-- The route of a valid block is for the addresses the block contains. -/
theorem blockRoute_denotes {c : Cidr} (hc : c.Valid) (a : IpAddr) :
    (blockRoute c).Denotes a ↔ c.contains a = true := by
  rw [contains_iff, KernelRoute.Denotes]
  simp only [blockRoute, afOf_inj]
  refine and_congr_right fun _ => forall₂_congr fun i hi => ?_
  rw [dstBit_addrData c.addr (Nat.lt_of_lt_of_le hi hc)]

/-- A trie with one valid block answers for the addresses the block contains. -/
theorem lookup_singleton {T : Type} [Inhabited T] {c : Cidr} (hc : c.Valid) (v : T) (a : IpAddr) :
    ((LpmTrie.ofInserts [(c, v)]).lookup a).isSome = true ↔ c.contains a = true := by
  have hvalid : ∀ e ∈ [(c, v)], e.1.Valid := by simpa using hc
  have hnone := LpmTrie.lookup_ofInserts_eq_none hvalid a
  rw [Option.isSome_iff_ne_none, ne_eq, hnone]
  simp

/-- **The three uses of a valid block agree exactly when its host bits are zero.** -/
theorem blockRoute_agrees {c : Cidr} (hc : c.Valid) :
    (blockRoute c).Agrees c ↔ c.HostBitsZero := by
  constructor
  · intro h
    exact (blockRoute_accepted c).mp h.accepted
  · intro hzero
    refine ⟨(blockRoute_accepted c).mpr hzero, blockRoute_denotes hc, fun v a => ?_⟩
    rw [blockRoute_denotes hc, lookup_singleton hc]

/-- A valid block contains its own address. -/
theorem contains_self (c : Cidr) : c.contains c.addr = true :=
  (contains_iff c c.addr).mpr ⟨rfl, fun _ _ => rfl⟩

/-- **One block, one route**: two ways of writing a block without host bits ask for the same
route. -/
theorem blockRoute_canonical {c c' : Cidr} (hzero : c.HostBitsZero) (hzero' : c'.HostBitsZero)
    (hsame : c.SameBlock c') : blockRoute c = blockRoute c' := by
  obtain ⟨hfamily, hlen, haddrs⟩ := hsame
  have hleading : ∀ i < c.prefixLen.toNat, bitOf c.addr i = bitOf c'.addr i := by
    -- each block's own address is in the other
    have hmem := haddrs c'.addr
    rw [contains_self c'] at hmem
    exact ((contains_iff c c'.addr).mp hmem).2
  have hbits : ∀ i < c.addr.family.maxBits, bitOf c.addr i = bitOf c'.addr i := by
    intro i hi
    by_cases hprefix : i < c.prefixLen.toNat
    · exact hleading i hprefix
    · have hbehind := Nat.le_of_not_lt hprefix
      rw [hzero i hi hbehind, hzero' i (hfamily ▸ hi) (hlen ▸ hbehind)]
  rw [blockRoute, blockRoute, hfamily, hlen, addrData_ext hfamily hbits]

/-! ## Parsed blocks -/

variable {pton : InetPton}

/-- **Kernel routes agree with user-space policy exactly on blocks without host bits.** For any two
parsed blocks and any requests for them: both routes are accepted, denote what their block contains and
what a trie of it answers, and are the same if the blocks are, exactly when no bit is set behind either
prefix. -/
theorem route_agrees_iff (host : ByteOrder) {sizeBits : Nat} (hbits : 32 ≤ sizeBits) (outside : Mem)
    (ifindex : Int32) (seq seq' pid : UInt32) {s s' : Text} {c c' : Cidr}
    (hparse : Cidr.parse pton s = some c) (hparse' : Cidr.parse pton s' = some c') :
    (∃ r r', addedRoute host sizeBits outside ifindex c seq pid = some r ∧
      addedRoute host sizeBits outside ifindex c' seq' pid = some r' ∧
      r.Agrees c ∧ r'.Agrees c' ∧ (c.SameBlock c' → r = r')) ↔
      c.HostBitsZero ∧ c'.HostBitsZero := by
  have hc := Cidr.parse_valid hparse
  have hc' := Cidr.parse_valid hparse'
  simp only [addedRoute_eq host hbits, Option.some.injEq, exists_and_left, exists_eq_left']
  rw [blockRoute_agrees hc, blockRoute_agrees hc']
  constructor
  · rintro ⟨hzero, hzero', -⟩
    exact ⟨hzero, hzero'⟩
  · rintro ⟨hzero, hzero'⟩
    exact ⟨hzero, hzero', blockRoute_canonical hzero hzero'⟩

/-- A block written with its network address, and one of a length that is no multiple of eight. -/
theorem route_agrees_iff_network :
    ∃ r r', addedRoute .little 32 (fun _ => 0) 3 ⟨.v4 10 99 0 0, 16⟩ 1 0 = some r ∧
      addedRoute .little 32 (fun _ => 0) 3 ⟨.v4 10 64 0 0, 10⟩ 2 0 = some r' ∧
      r.Agrees ⟨.v4 10 99 0 0, 16⟩ ∧ r'.Agrees ⟨.v4 10 64 0 0, 10⟩ ∧
      (Cidr.SameBlock ⟨.v4 10 99 0 0, 16⟩ ⟨.v4 10 64 0 0, 10⟩ → r = r') :=
  (route_agrees_iff .little (Nat.le_refl 32) (fun _ => 0) 3 1 2 0
    (show Cidr.parse ipv4Pton (ascii "10.99.0.0/16") = some ⟨.v4 10 99 0 0, 16⟩ by decide)
    (show Cidr.parse ipv4Pton (ascii "10.64.0.0/10") = some ⟨.v4 10 64 0 0, 10⟩ by decide)).mpr
    ⟨by decide, by decide⟩

/-- The address of a host stands for its network: the block of `10.99.5.7/16` is that of
`10.99.0.0/16`, but the kernel refuses the route of the first and accepts that of the second. -/
theorem route_with_host_bits :
    Cidr.parse ipv4Pton (ascii "10.99.5.7/16") = some ⟨.v4 10 99 5 7, 16⟩ ∧
      Cidr.SameBlock ⟨.v4 10 99 5 7, 16⟩ ⟨.v4 10 99 0 0, 16⟩ ∧
      (∃ r, addedRoute .little 32 (fun _ => 0) 3 ⟨.v4 10 99 5 7, 16⟩ 1 0 = some r ∧
        ¬ r.Accepted) ∧
      (∃ r, addedRoute .little 32 (fun _ => 0) 3 ⟨.v4 10 99 0 0, 16⟩ 1 0 = some r ∧
        r.Accepted) := by
  refine ⟨by decide, ⟨rfl, rfl, fun a => ?_⟩, ?_, ?_⟩
  · rw [Bool.eq_iff_iff, contains_iff, contains_iff]
    refine and_congr_right fun _ => forall₂_congr fun i hi => ?_
    have hbit : ∀ i < 16, bitOf (.v4 10 99 5 7) i = bitOf (.v4 10 99 0 0) i := by decide
    rw [hbit i hi]
  · exact ⟨_, addedRoute_eq .little (Nat.le_refl 32) _ _ _ _ _, by decide⟩
  · exact ⟨_, addedRoute_eq .little (Nat.le_refl 32) _ _ _ _ _, by decide⟩

end Cfd.Net.Netlink
