/-!
# Addresses and CIDR blocks

`IpAddr` and `Cidr` of `include/cfd/cidr.hpp`, and `Cidr::contains` of `src/net/cidr.cpp`. Both
families share one sixteen-byte array; an IPv4 address uses its first four bytes. The text forms
are `Cfd.Net.CidrText`.

The source leaves `prefix_len` an arbitrary `uint8_t` and documents its range; `Cidr.Valid` is
that range. `Cidr::parse` produces valid blocks only.
-/

set_option autoImplicit false

namespace Cfd.Net

/-- Address family. -/
inductive Family
  | V4
  | V6
  deriving DecidableEq, Repr

/-- `(family == V4) ? 32 : 128`, the bits of an address. -/
def Family.maxBits : Family → Nat
  | .V4 => 32
  | .V6 => 128

/-- `(family == V4) ? 4 : 16`, the bytes of an address. -/
def Family.addrLen : Family → Nat
  | .V4 => 4
  | .V6 => 16

theorem Family.maxBits_le (f : Family) : f.maxBits ≤ 128 := by
  cases f <;> decide

/-- An address: for V4 the first 4 bytes are used. -/
structure IpAddr where
  family : Family
  bytes : Vector UInt8 16
  deriving DecidableEq, Repr

/-- The default-constructed address, `0.0.0.0`. -/
def IpAddr.zero : IpAddr := ⟨.V4, Vector.replicate 16 0⟩

/-- The IPv4 address `a.b.c.d`. -/
def IpAddr.v4 (a b c d : UInt8) : IpAddr := ⟨.V4, #v[a, b, c, d, 0, 0, 0, 0, 0, 0, 0, 0, 0, 0, 0, 0]⟩

/-- `a.bytes[i]`. Every use in the source has `i < 16`, where the prefix lengths are in their
documented range. -/
def IpAddr.byte (a : IpAddr) (i : Nat) : UInt8 := (a.bytes[i]?).getD 0

/-- A CIDR block, host bits included as they were given. -/
structure Cidr where
  addr : IpAddr
  prefixLen : UInt8
  deriving DecidableEq, Repr

/-- The default-constructed block, `0.0.0.0/0`. -/
def Cidr.zero : Cidr := ⟨.zero, 0⟩

/-- The documented range of `prefix_len`: 0..32 for V4, 0..128 for V6. -/
def Cidr.Valid (c : Cidr) : Prop := c.prefixLen.toNat ≤ c.addr.family.maxBits

instance (c : Cidr) : Decidable c.Valid := inferInstanceAs (Decidable (_ ≤ _))

theorem Cidr.zero_valid : Cidr.zero.Valid := by decide

/-- `0xFFu << (8u - r) & 0xFFu`, the mask of the `r` leading bits of a byte. -/
def leadingMask (r : Nat) : UInt8 := UInt8.ofNat ((0xFF <<< (8 - r)) &&& 0xFF)

/-- `Cidr::contains`: whole bytes first, then the leading bits of the byte after them. -/
def Cidr.contains (c : Cidr) (other : IpAddr) : Bool :=
  if other.family ≠ c.addr.family then false
  else
    let bytes := c.prefixLen.toNat / 8
    let mask := leadingMask (c.prefixLen.toNat % 8)
    if (List.range bytes).any (fun i => c.addr.byte i != other.byte i) then false
    else if c.prefixLen.toNat % 8 ≠ 0 then
      if (c.addr.byte bytes &&& mask) ≠ (other.byte bytes &&& mask) then false
      else true
    else true

end Cfd.Net
