import Cfd.Base.Decimal
import Cfd.Net.InetText
import Mathlib.Data.List.TFAE
import Mathlib.Tactic.TFAE

/-!
# The printed form of addresses and blocks

`IpAddr::to_string` and `Cidr::to_string` of `src/net/cidr.cpp`, over any `InetNtop`.

`Cidr.printed_tfae` says which blocks there are texts for: the printed form of a block is read as the
block exactly if any text is, and these are the blocks in the documented range whose unused bytes are
zero. So printing what has been parsed, and parsing that, gives the same block again, also where the
parser was lenient.
-/

set_option autoImplicit false

namespace Cfd.Net

open Cfd.Base

/-! ## The source -/

/-- The bytes of an address that `AF_INET` uses. -/
def IpAddr.inet (a : IpAddr) : Vector UInt8 4 := #v[a.byte 0, a.byte 1, a.byte 2, a.byte 3]

variable {pton : InetPton}

/-- `IpAddr::to_string`. -/
def IpAddr.toString (ntop : InetNtop pton) (a : IpAddr) : Text :=
  match a.family with
  | .V4 => ntop.v4 a.inet
  | .V6 => ntop.v6 a.bytes

/-- `char buf[INET6_ADDRSTRLEN + 8]`, less its terminator. -/
def Cidr.bufLen : Nat := 46 + 8 - 1

/-- `Cidr::to_string`: `snprintf` of `"%s/%u"`. -/
def Cidr.toString (ntop : InetNtop pton) (c : Cidr) : Text :=
  (c.addr.toString ntop ++ 47 :: Text.print c.prefixLen.toNat).take Cidr.bufLen

/-! ## Reading it back -/

/-- The bytes that the family does not use are zero. -/
def IpAddr.Canonical (a : IpAddr) : Prop := a.family = .V4 → a = .ofV4 a.inet

instance (a : IpAddr) : Decidable a.Canonical := inferInstanceAs (Decidable (_ → _))

theorem Cidr.zero_canonical : Cidr.zero.addr.Canonical := by decide

theorem IpAddr.inet_ofV4 (b : Vector UInt8 4) : (IpAddr.ofV4 b).inet = b := by
  apply Vector.ext
  intro i hi
  match i, hi with
  | 0, _ | 1, _ | 2, _ | 3, _ => rfl

/-- What a text denotes is canonical. -/
theorem InetPton.Denotes.canonical {t : Text} {a : IpAddr} (h : pton.Denotes t a) :
    a.Canonical := by
  intro hfamily
  rcases h with ⟨b, -, rfl⟩ | ⟨b, -, rfl⟩
  · rw [IpAddr.inet_ofV4]
  · cases hfamily

/-- The printed form of a canonical address denotes it. -/
theorem IpAddr.denotes_toString (ntop : InetNtop pton) {a : IpAddr} (h : a.Canonical) :
    pton.Denotes (a.toString ntop) a := by
  unfold IpAddr.toString
  cases hfamily : a.family with
  | V4 => exact Or.inl ⟨a.inet, ntop.read_v4 _, h hfamily⟩
  | V6 =>
    refine Or.inr ⟨a.bytes, ntop.read_v6 _, ?_⟩
    rw [← hfamily]

theorem IpAddr.plain_toString (ntop : InetNtop pton) (a : IpAddr) :
    ∀ c ∈ a.toString ntop, InetNtop.plain c = true := by
  unfold IpAddr.toString
  cases a.family with
  | V4 => exact ntop.plain_v4 _
  | V6 => exact ntop.plain_v6 _

/-- Other bytes are not written. -/
theorem IpAddr.notMem_toString (ntop : InetNtop pton) (a : IpAddr) {c : UInt8}
    (hc : InetNtop.plain c = false) : c ∉ a.toString ntop := by
  intro hmem
  rw [a.plain_toString ntop c hmem] at hc
  cases hc

theorem IpAddr.length_toString (ntop : InetNtop pton) (a : IpAddr) :
    (a.toString ntop).length < 46 := by
  unfold IpAddr.toString
  cases a.family with
  | V4 => exact Nat.lt_trans (pton.length_v4 (ntop.read_v4 _)) (by decide)
  | V6 => exact pton.length_v6 (ntop.read_v6 _)

/-- The buffer is long enough: nothing is cut. -/
theorem Cidr.toString_eq (ntop : InetNtop pton) (c : Cidr) :
    c.toString ntop = c.addr.toString ntop ++ 47 :: Text.print c.prefixLen.toNat := by
  have haddr := c.addr.length_toString ntop
  have hplen : (Text.print c.prefixLen.toNat).length ≤ 3 :=
    Text.length_print (by decide) (Nat.lt_trans c.prefixLen.toNat_lt (by decide))
  apply List.take_of_length_le
  rw [List.length_append, List.length_cons, Cidr.bufLen]
  omega

/-- What a block is written with. -/
theorem Cidr.plain_toString (ntop : InetNtop pton) (c : Cidr) {b : UInt8}
    (h : b ∈ c.toString ntop) : InetNtop.plain b = true ∨ b = 47 := by
  rw [c.toString_eq ntop, List.mem_append, List.mem_cons] at h
  rcases h with haddr | rfl | hplen
  · exact Or.inl (c.addr.plain_toString ntop b haddr)
  · exact Or.inr rfl
  · left
    unfold InetNtop.plain
    rw [Text.print_isDigit hplen]
    rfl

/-- The printed form is in the grammar of blocks. -/
theorem Cidr.grammar_toString (ntop : InetNtop pton) {c : Cidr} (hvalid : c.Valid)
    (hcanon : c.addr.Canonical) : Cidr.Grammar pton (c.toString ntop) c := by
  have hslash : 47 ∉ c.addr.toString ntop := c.addr.notMem_toString ntop (by decide)
  have hnul : 0 ∉ c.addr.toString ntop := c.addr.notMem_toString ntop (by decide)
  exact ⟨c.addr.toString ntop, Text.print c.prefixLen.toNat, c.toString_eq ntop, hslash, hnul,
    IpAddr.denotes_toString ntop hcanon, Text.print_ne_nil _, fun _ hd => Text.print_isDigit hd,
    Text.decimal_print _, hvalid⟩

/-- What has been parsed is canonical. -/
theorem Cidr.canonical_of_parse {s : Text} {c : Cidr} (h : Cidr.parse pton s = some c) :
    c.addr.Canonical := by
  obtain ⟨A, P, -, -, haddr, -⟩ := Cidr.parse_eq_some.mp h
  exact (IpAddr.parse_eq_some.mp haddr).2.canonical

/-- **Which blocks can be written.** A block is read back from its printed form; it is what the grammar
makes of its printed form; it is read from some text at all; and it is in the documented range with
zeros in the bytes its family does not use: these are the same. -/
theorem Cidr.printed_tfae (ntop : InetNtop pton) (c : Cidr) :
    [Cidr.parse pton (c.toString ntop) = some c, Cidr.Grammar pton (c.toString ntop) c,
      ∃ s, Cidr.parse pton s = some c, c.Valid ∧ c.addr.Canonical].TFAE := by
  tfae_have 2 → 1 := Cidr.parse_of_grammar
  tfae_have 1 → 3 := fun h => ⟨_, h⟩
  tfae_have 3 → 4 := by
    intro h
    obtain ⟨s, hs⟩ := h
    exact ⟨Cidr.parse_valid hs, Cidr.canonical_of_parse hs⟩
  tfae_have 4 → 2 := by
    intro h
    exact Cidr.grammar_toString ntop h.1 h.2
  tfae_finish

/-- `2001:db8::/32`. -/
def documentationBlock : Cidr := ⟨⟨.V6, #v[0x20, 1, 0x0d, 0xb8, 0, 0, 0, 0, 0, 0, 0, 0, 0, 0, 0, 0]⟩, 32⟩

/-- A block of each family is read back from its printed form, and one with host bytes in the unused
part is read from no text. -/
theorem Cidr.printed_tfae_families :
    documentationBlock.toString Inet.ntop = ascii "2001:db8::/32" ∧
      Cidr.parse Inet.pton (documentationBlock.toString Inet.ntop) = some documentationBlock ∧
      Cidr.parse Inet.pton (Cidr.toString Inet.ntop ⟨.v4 10 99 0 2, 24⟩) = some ⟨.v4 10 99 0 2, 24⟩ ∧
      ¬ ∃ s, Cidr.parse Inet.pton s = some ⟨⟨.V4, Vector.replicate 16 1⟩, 24⟩ := by
  have hread : ∀ c : Cidr, c.Valid ∧ c.addr.Canonical →
      Cidr.parse Inet.pton (c.toString Inet.ntop) = some c :=
    fun c => ((Cidr.printed_tfae Inet.ntop c).out 0 3).mpr
  have hvalid : ∀ c : Cidr, (∃ s, Cidr.parse Inet.pton s = some c) → c.Valid ∧ c.addr.Canonical :=
    fun c => ((Cidr.printed_tfae Inet.ntop c).out 2 3).mp
  refine ⟨by decide, hread _ (by decide), hread _ (by decide), fun h => ?_⟩
  have hcanonical := (hvalid _ h).2
  revert hcanonical
  decide

end Cfd.Net
