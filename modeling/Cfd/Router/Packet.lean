import Cfd.Net.LpmTrie

/-!
# Packets and routes

What `src/router/router.cpp` decides about one packet: `dst_from_packet`, the lookup in `routes_` and
the test of the action. A packet is the first `n` bytes of a buffer, which is used again for each
packet and so holds bytes of earlier ones behind them.

`Forwarded` says which packets the tunnel is to have, in terms of the bytes of a packet and of the
list of routes. `forwards_iff` is that the code decides it.
-/

set_option autoImplicit false

namespace Cfd.Router

open Cfd.Base Cfd.Net

/-! ## The buffer -/

/-- `kPacketMtu`. -/
abbrev kPacketMtu : Nat := 1500

/-- A `Buffer` of `kPacketMtu` bytes. -/
structure Buffer where
  data : List UInt8
  size : data.length = kPacketMtu

/-- What a read of `buf.capacity()` bytes at most may return, when it returns bytes. -/
abbrev Packet := { bytes : List UInt8 // 0 < bytes.length ∧ bytes.length ≤ kPacketMtu }

/-- `Buffer buf(kPacketMtu)`. -/
def Buffer.new : Buffer :=
  ⟨List.replicate kPacketMtu 0, List.length_replicate⟩

/-- The buffer after a read into its start. -/
def Buffer.fill (buf : Buffer) (p : Packet) : Buffer :=
  ⟨p.val ++ buf.data.drop p.val.length, by
    rw [List.length_append, List.length_drop, buf.size]
    exact Nat.add_sub_cancel' p.property.2⟩

@[simp] theorem Buffer.take_fill (buf : Buffer) (p : Packet) :
    (buf.fill p).data.take p.val.length = p.val :=
  List.take_left

/-! ## The source -/

/-- `Action`: what a route says of a packet. -/
inductive Action
  | Drop
  | ToTunnel
  | ToTun
  deriving DecidableEq, Inhabited

/-- `p[i]`. -/
def byteAt (p : List UInt8) (i : Nat) : UInt8 := p.getD i 0

/-- The four bytes from `p + 16`, and zeros behind them. -/
def dstV4 (p : List UInt8) : IpAddr :=
  ⟨.V4, .ofFn fun i => if i.val < 4 then byteAt p (16 + i) else 0⟩

/-- The sixteen bytes from `p + 24`. -/
def dstV6 (p : List UInt8) : IpAddr := ⟨.V6, .ofFn fun i => byteAt p (24 + i)⟩

/-- `dst_from_packet`, with `out` for its result. -/
def dstFromPacket (p : List UInt8) (len : Nat) : Option IpAddr :=
  if len < 1 then none
  else
    let version := byteAt p 0 >>> 4
    if version = 4 then
      if len < 20 then none
      else some (dstV4 p)
    else if version = 6 then
      if len < 40 then none
      else some (dstV6 p)
    else none

/-- `Router::add_route`. -/
def addRoute (routes : LpmTrie Action) (c : Cidr) (a : Action) : LpmTrie Action :=
  routes.insert c a

/-- Does the loop hand the packet of `len` bytes at `p` to `tunnel_`? -/
def forwards (routes : LpmTrie Action) (tunnel : Bool) (p : List UInt8) (len : Nat) : Bool :=
  match dstFromPacket p len with
  | none => false
  | some dst =>
    match routes.lookup dst with
    | none => false
    | some act => if act = .Drop then false else act = .ToTunnel && tunnel

/-! ## The policy -/

/-- Routes in the order in which they were added, each in the documented range. -/
structure RouteTable where
  routes : List (Cidr × Action)
  valid : ∀ r ∈ routes, r.1.Valid

/-- `routes_` after they were added. -/
def RouteTable.trie (t : RouteTable) : LpmTrie Action :=
  t.routes.foldl (fun routes r => addRoute routes r.1 r.2) .empty

/-- The destination of a packet: bytes 16 to 19 if its first nibble is 4 and it has at least 20
bytes, bytes 24 to 39 if its first nibble is 6 and it has at least 40. -/
def Destination (p : List UInt8) (dst : IpAddr) : Prop :=
  ((byteAt p 0).toNat / 16 = 4 ∧ 20 ≤ p.length ∧ dst.family = .V4 ∧
      ∀ i < 4, dst.byte i = byteAt p (16 + i)) ∨
    ((byteAt p 0).toNat / 16 = 6 ∧ 40 ≤ p.length ∧ dst.family = .V6 ∧
      ∀ i < 16, dst.byte i = byteAt p (24 + i))

/-- The packets the tunnel is to have: those with a destination for which the longest matching
route says `ToTunnel`. -/
def Forwarded (t : RouteTable) (p : List UInt8) : Prop :=
  ∃ dst c, Destination p dst ∧
    LastLongest t.routes (fun r => r.1.contains dst = true) (fun r => r.1.prefixLen.toNat)
      (c, .ToTunnel)

/-! ## The code decides the policy -/

theorem shiftRight_four_eq (x k : UInt8) : x >>> 4 = k ↔ x.toNat / 16 = k.toNat := by
  have hshift : (x >>> 4).toNat = x.toNat / 16 := by
    rw [UInt8.toNat_shiftRight, Nat.shiftRight_eq_div_pow]
    rfl
  rw [← hshift]
  exact ⟨fun h => congrArg UInt8.toNat h, UInt8.toNat_inj.mp⟩

theorem byteAt_take {p : List UInt8} {len i : Nat} (h : i < len) :
    byteAt (p.take len) i = byteAt p i := by
  rw [byteAt, byteAt, List.getD_eq_getElem?_getD, List.getD_eq_getElem?_getD,
    List.getElem?_take_of_lt h]

theorem byte_ofFn (f : Family) (g : Fin 16 → UInt8) {i : Nat} (hi : i < 16) :
    IpAddr.byte ⟨f, .ofFn g⟩ i = g ⟨i, hi⟩ := by
  rw [IpAddr.byte, Vector.getElem?_ofFn, dif_pos hi]
  rfl

/-- Two addresses with the same family and the same bytes of that family. -/
def SameAddr (a b : IpAddr) : Prop :=
  a.family = b.family ∧ ∀ i < a.family.addrLen, a.byte i = b.byte i

/-- A valid block does not look behind the bytes of its family. -/
theorem contains_congr {c : Cidr} (hc : c.Valid) {a b : IpAddr} (h : SameAddr a b) :
    c.contains a = true ↔ c.contains b = true := by
  rw [contains_iff, contains_iff, ← h.1]
  refine and_congr_right fun hfamily => forall₂_congr fun i hi => ?_
  have hbyte : a.byte (i / 8) = b.byte (i / 8) := by
    refine h.2 _ ?_
    have hlt : i < a.family.maxBits := Nat.lt_of_lt_of_le hi (hfamily ▸ hc)
    cases hf : a.family with
    | V4 =>
      rw [hf] at hlt
      exact Nat.div_lt_of_lt_mul hlt
    | V6 =>
      rw [hf] at hlt
      exact Nat.div_lt_of_lt_mul hlt
  rw [bitOf, bitOf, bitOf, hbyte]

/-- What the code reads is the packet's destination. -/
theorem destination_of_dstFromPacket {p : List UInt8} {len : Nat} (hlen : len ≤ p.length)
    {dst : IpAddr} (h : dstFromPacket p len = some dst) : Destination (p.take len) dst := by
  have htake : (p.take len).length = len := List.length_take_of_le hlen
  unfold dstFromPacket at h
  split at h
  next => cases h
  next hpos =>
    have hfirst : byteAt (p.take len) 0 = byteAt p 0 := byteAt_take (by omega)
    simp only at h
    split at h
    next hversion =>
      split at h
      next => cases h
      next hshort =>
        cases h
        refine Or.inl ⟨?_, ?_, rfl, fun i hi => ?_⟩
        · rw [hfirst]
          exact (shiftRight_four_eq _ 4).mp hversion
        · omega
        · rw [dstV4, byte_ofFn .V4 _ (by omega), byteAt_take (by omega)]
          exact if_pos hi
    next =>
      split at h
      next hversion =>
        split at h
        next => cases h
        next hshort =>
          cases h
          refine Or.inr ⟨?_, ?_, rfl, fun i hi => ?_⟩
          · rw [hfirst]
            exact (shiftRight_four_eq _ 6).mp hversion
          · omega
          · rw [dstV6, byte_ofFn .V6 _ hi, byteAt_take (by omega)]
      next => cases h

/-- A packet with a destination is one in which the code finds it. -/
theorem dstFromPacket_of_destination {p : List UInt8} {len : Nat} (hlen : len ≤ p.length)
    {dst : IpAddr} (h : Destination (p.take len) dst) :
    ∃ dst', dstFromPacket p len = some dst' ∧ SameAddr dst' dst := by
  have htake : (p.take len).length = len := List.length_take_of_le hlen
  rcases h with ⟨hversion, hshort, hfamily, hbytes⟩ | ⟨hversion, hshort, hfamily, hbytes⟩
  · rw [byteAt_take (by omega)] at hversion
    refine ⟨dstV4 p, ?_, ?_⟩
    · rw [dstFromPacket, if_neg (by omega)]
      simp only
      rw [if_pos ((shiftRight_four_eq _ 4).mpr hversion), if_neg (by omega)]
    · refine ⟨hfamily.symm, fun i hi => ?_⟩
      have hi4 : i < 4 := hi
      rw [dstV4, byte_ofFn .V4 _ (by omega), hbytes i hi4, byteAt_take (by omega)]
      exact if_pos hi4
  · rw [byteAt_take (by omega)] at hversion
    refine ⟨dstV6 p, ?_, ?_⟩
    · rw [dstFromPacket, if_neg (by omega)]
      simp only
      have h4 : byteAt p 0 >>> 4 ≠ 4 := fun h4 => by
        have hcontra := (shiftRight_four_eq _ 4).mp h4
        rw [hversion] at hcontra
        cases hcontra
      rw [if_neg h4, if_pos ((shiftRight_four_eq _ 6).mpr hversion), if_neg (by omega)]
    · refine ⟨hfamily.symm, fun i hi => ?_⟩
      have hi16 : i < 16 := hi
      rw [dstV6, byte_ofFn .V6 _ hi16, hbytes i hi16, byteAt_take (by omega)]

theorem RouteTable.trie_eq (t : RouteTable) : t.trie = LpmTrie.ofInserts t.routes := rfl

/-- **The code decides the policy**: with a sink, it hands on exactly the packets that the tunnel is
to have, whatever the buffer holds behind them. -/
theorem forwards_iff (t : RouteTable) {p : List UInt8} {len : Nat} (hlen : len ≤ p.length) :
    forwards t.trie true p len = true ↔ Forwarded t (p.take len) := by
  have hlookup := fun dst => LpmTrie.lookup_ofInserts_eq_some t.valid dst Action.ToTunnel
  constructor
  · intro h
    unfold forwards at h
    split at h
    next => cases h
    next dst hdst =>
      split at h
      next => cases h
      next act hact =>
        have htunnel : act = .ToTunnel := by
          by_cases hdrop : act = .Drop
          · rw [if_pos hdrop] at h
            cases h
          · rw [if_neg hdrop, Bool.and_true] at h
            exact of_decide_eq_true h
        subst htunnel
        obtain ⟨c, hc⟩ := (hlookup dst).mp hact
        exact ⟨dst, c, destination_of_dstFromPacket hlen hdst, hc⟩
  · rintro ⟨dst, c, hdst, hc⟩
    obtain ⟨dst', hdst', hsame⟩ := dstFromPacket_of_destination hlen hdst
    have hc' : LastLongest t.routes (fun r => r.1.contains dst' = true)
        (fun r => r.1.prefixLen.toNat) (c, .ToTunnel) :=
      (lastLongest_congr (fun r hr => contains_congr (t.valid r hr) hsame)
        (fun _ _ => Iff.rfl) _).mpr hc
    have hact := (hlookup dst').mpr ⟨c, hc'⟩
    rw [← RouteTable.trie_eq] at hact
    rw [forwards, hdst']
    simp only [hact]
    rfl

instance (t : RouteTable) (p : List UInt8) : Decidable (Forwarded t p) :=
  decidable_of_iff (forwards t.trie true p p.length = true) (by
    rw [forwards_iff t (Nat.le_refl _), List.take_length])

end Cfd.Router
