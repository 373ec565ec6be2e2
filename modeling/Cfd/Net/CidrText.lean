import Cfd.Base.Text
import Cfd.Net.Addr

/-!
# The text form of addresses and blocks

`IpAddr::parse` and `Cidr::parse` of `src/net/cidr.cpp`. `inet_pton` and `inet_ntop` are the C
library's, so they are parameters: `InetPton` and `InetNtop` are functions on NUL-free text together
with the documented facts the callers rely on. `Cfd.Net.InetText` has such a pair.

`Cidr.parse_eq_some` says what an accepted text is. It is wider than the grammar a block is
written in (`Cidr.Grammar`) at two places: the digit loop accepts an empty prefix length as 0, and
the copy into a C string ends at the first NUL byte, so what follows it is not read.
`parse_exact_iff` says that these two are the only places.
-/

set_option autoImplicit false

namespace Cfd.Net

open Cfd.Base

/-! ## The source -/

/-- The IPv4 address with these bytes; the rest of the array stays zero. -/
def IpAddr.ofV4 (b : Vector UInt8 4) : IpAddr := .v4 b[0] b[1] b[2] b[3]

/-- `inet_pton(AF_INET, ..)` and `inet_pton(AF_INET6, ..)` on NUL-free text. An accepted text with
its terminator fits `INET_ADDRSTRLEN` (16) or `INET6_ADDRSTRLEN` (46) bytes, and no text is an
address of both families. -/
structure InetPton where
  v4 : Text → Option (Vector UInt8 4)
  v6 : Text → Option (Vector UInt8 16)
  length_v4 : ∀ {s : Text} {b : Vector UInt8 4}, v4 s = some b → s.length < 16
  length_v6 : ∀ {s : Text} {b : Vector UInt8 16}, v6 s = some b → s.length < 46
  disjoint : ∀ {s : Text} {b : Vector UInt8 4}, v4 s = some b → v6 s = none

/-- What an address is written with: digits, `a` to `f`, a dot and a colon. -/
def InetNtop.plain (c : UInt8) : Bool := Text.isDigit c || (97 ≤ c && c ≤ 102) || c = 46 || c = 58

/-- `inet_ntop` into a buffer of `INET6_ADDRSTRLEN` bytes, which any address fits: the text before the
terminator. `inet_pton` reads back what it writes. -/
structure InetNtop (pton : InetPton) where
  v4 : Vector UInt8 4 → Text
  v6 : Vector UInt8 16 → Text
  read_v4 : ∀ b, pton.v4 (v4 b) = some b
  read_v6 : ∀ b, pton.v6 (v6 b) = some b
  plain_v4 : ∀ b, ∀ c ∈ v4 b, InetNtop.plain c = true
  plain_v6 : ∀ b, ∀ c ∈ v6 b, InetNtop.plain c = true

/-- What a NUL-terminated buffer that holds these bytes reads as. -/
def cString (s : Text) : Text := s.takeWhile (· != 0)

/-- `IpAddr::parse`. -/
def IpAddr.parse (pton : InetPton) (s : Text) : Option IpAddr :=
  if 64 ≤ s.length then none
  else
    let buf := cString s
    match pton.v4 buf with
    | some b => some (.ofV4 b)
    | none =>
      match pton.v6 buf with
      | some b => some ⟨.V6, b⟩
      | none => none

/-- The digit loop of `Cidr::parse`. -/
def plenFrom : Nat → Text → Option Nat
  | plen, [] => some plen
  | plen, c :: s =>
    if ¬ Text.isDigit c then none
    else
      let plen := plen * 10 + Text.digitVal c
      if plen > 128 then none else plenFrom plen s

/-- `Cidr::parse`. -/
def Cidr.parse (pton : InetPton) (s : Text) : Option Cidr :=
  match Text.cut 47 s with
  | none => none
  | some (addrPart, plenPart) =>
    match IpAddr.parse pton addrPart with
    | none => none
    | some a =>
      match plenFrom 0 plenPart with
      | none => none
      | some plen => if plen > a.family.maxBits then none else some ⟨a, UInt8.ofNat plen⟩

/-! ## What is accepted -/

/-- `t` is, as a whole, a textual form of `a`. -/
def InetPton.Denotes (pton : InetPton) (t : Text) (a : IpAddr) : Prop :=
  (∃ b, pton.v4 t = some b ∧ a = .ofV4 b) ∨ (∃ b, pton.v6 t = some b ∧ a = ⟨.V6, b⟩)

variable {pton : InetPton}

theorem InetPton.Denotes.length_lt {t : Text} {a : IpAddr} (h : pton.Denotes t a) :
    t.length < 46 := by
  rcases h with ⟨b, hb, -⟩ | ⟨b, hb, -⟩
  · exact Nat.lt_trans (pton.length_v4 hb) (by decide)
  · exact pton.length_v6 hb

/-- **`IpAddr::parse` reads the text up to its first NUL.** -/
theorem IpAddr.parse_eq_some {s : Text} {a : IpAddr} :
    IpAddr.parse pton s = some a ↔ s.length < 64 ∧ pton.Denotes (cString s) a := by
  unfold IpAddr.parse
  by_cases hlen : 64 ≤ s.length
  · simp only [hlen, if_true, reduceCtorEq, false_iff, not_and]
    exact fun hlt => absurd hlen (Nat.not_le_of_lt hlt)
  · simp only [hlen, if_false, Nat.lt_of_not_le hlen, true_and, InetPton.Denotes]
    cases h4 : pton.v4 (cString s) with
    | some b => simp [pton.disjoint h4, eq_comm]
    | none =>
      cases h6 : pton.v6 (cString s) with
      | some b => simp [eq_comm]
      | none => simp

/-- The digit loop answers the value of the digits, when there are only digits and their value
never passes the cap. -/
theorem plenFrom_eq_some {s : Text} {n v : Nat} (hn : n ≤ 128) :
    plenFrom n s = some v ↔ (∀ c ∈ s, Text.isDigit c) ∧ Text.decimalFrom n s = v ∧ v ≤ 128 := by
  induction s generalizing n with
  | nil =>
    simp only [plenFrom, Option.some.injEq, List.not_mem_nil, false_implies, implies_true, true_and,
      Text.decimalFrom]
    exact ⟨fun h => ⟨h, h ▸ hn⟩, And.left⟩
  | cons c s ih =>
    unfold plenFrom Text.decimalFrom
    generalize n * 10 + Text.digitVal c = m
    by_cases hc : Text.isDigit c
    · by_cases hcap : m > 128
      · -- the value only grows from here, so it stays past the cap
        have hgrow := Text.decimalFrom_mono s m
        simp only [hc, not_true_eq_false, if_false, hcap, if_true, reduceCtorEq, false_iff, not_and]
        omega
      · simp only [hc, not_true_eq_false, if_false, hcap, ih (Nat.le_of_not_gt hcap),
          List.mem_cons, forall_eq_or_imp, true_and]
    · simp [hc]

/-- The digit loop from its start, on a text that is then cast to `uint8_t`. -/
theorem plenFrom_zero_eq_some {s : Text} {v : Nat} :
    plenFrom 0 s = some v ↔ (∀ c ∈ s, Text.isDigit c) ∧ Text.decimal s = v ∧ v ≤ 128 :=
  plenFrom_eq_some (by decide)

/-- **The accepted texts.** A text is accepted as `c` exactly when it is an address part that reads
as `c`'s address, a slash, and digits, possibly none, whose value is `c`'s prefix length and in
the range of its family. -/
theorem Cidr.parse_eq_some {s : Text} {c : Cidr} :
    Cidr.parse pton s = some c ↔
      ∃ A P, s = A ++ 47 :: P ∧ 47 ∉ A ∧ IpAddr.parse pton A = some c.addr ∧
        (∀ d ∈ P, Text.isDigit d) ∧ Text.decimal P = c.prefixLen.toNat ∧ c.Valid := by
  unfold Cidr.parse
  constructor
  · intro h
    split at h
    · cases h
    next A P hcut =>
      obtain ⟨hs, hA⟩ := Text.cut_eq_some.mp hcut
      split at h
      · cases h
      next a ha =>
        split at h
        · cases h
        next plen hplen =>
          obtain ⟨hdigits, hvalue, hle⟩ := plenFrom_zero_eq_some.mp hplen
          split at h
          · cases h
          next hmax =>
            cases h
            have hnat : (UInt8.ofNat plen).toNat = plen := by
              rw [UInt8.toNat_ofNat', Nat.mod_eq_of_lt (by omega)]
            refine ⟨A, P, hs, hA, ha, hdigits, by rw [hnat, hvalue], ?_⟩
            rw [Cidr.Valid, hnat]
            exact Nat.le_of_not_gt hmax
  · rintro ⟨A, P, rfl, hA, ha, hdigits, hvalue, hvalid⟩
    have hle : c.prefixLen.toNat ≤ 128 := Nat.le_trans hvalid c.addr.family.maxBits_le
    rw [Text.cut_eq_some.mpr ⟨rfl, hA⟩]
    simp only [ha, plenFrom_zero_eq_some.mpr ⟨hdigits, hvalue, hle⟩]
    rw [if_neg (Nat.not_lt_of_le hvalid), UInt8.ofNat_toNat]

/-- An accepted block is in the documented range. -/
theorem Cidr.parse_valid {s : Text} {c : Cidr} (h : Cidr.parse pton s = some c) : c.Valid := by
  obtain ⟨_, _, -, -, -, -, -, hvalid⟩ := Cidr.parse_eq_some.mp h
  exact hvalid

/-! ## The grammar -/

/-- The grammar of a block: an address part without slash or NUL that is, as a whole, an address
of `c`'s family, then a slash, then at least one digit, of value at most 32 or 128. -/
def Cidr.Grammar (pton : InetPton) (s : Text) (c : Cidr) : Prop :=
  ∃ A P, s = A ++ 47 :: P ∧ 47 ∉ A ∧ 0 ∉ A ∧ pton.Denotes A c.addr ∧ P ≠ [] ∧
    (∀ d ∈ P, Text.isDigit d) ∧ Text.decimal P = c.prefixLen.toNat ∧ c.Valid

/-- The texts outside the grammar that are accepted all the same. The address part, read up to its
first NUL, is an address; and either nothing follows the slash, or the address part does contain
a NUL and what follows the slash is in order. -/
def Cidr.Lenient (pton : InetPton) (s : Text) : Prop :=
  ∃ A P a, s = A ++ 47 :: P ∧ 47 ∉ A ∧ A.length < 64 ∧ pton.Denotes (cString A) a ∧
    (P = [] ∨ (0 ∈ A ∧ (∀ d ∈ P, Text.isDigit d) ∧ Text.decimal P ≤ a.family.maxBits))

theorem cString_eq_self {s : Text} (h : 0 ∉ s) : cString s = s := by
  rw [cString, List.takeWhile_eq_self_iff]
  intro c hc
  exact bne_iff_ne.mpr fun h0 => h (h0 ▸ hc)

/-- The grammar's decomposition is the cut at the first slash. -/
theorem Cidr.Grammar.cut {s : Text} {c : Cidr} (h : Cidr.Grammar pton s c) :
    ∃ A P, Text.cut 47 s = some (A, P) ∧ 0 ∉ A ∧ P ≠ [] := by
  obtain ⟨A, P, hs, hslash, hnul, -, hne, -⟩ := h
  exact ⟨A, P, Text.cut_eq_some.mpr ⟨hs, hslash⟩, hnul, hne⟩

/-- Whatever the grammar admits is accepted. -/
theorem Cidr.parse_of_grammar {s : Text} {c : Cidr} (h : Cidr.Grammar pton s c) :
    Cidr.parse pton s = some c := by
  obtain ⟨A, P, hs, hslash, hnul, ha, -, hdigits, hvalue, hvalid⟩ := h
  refine Cidr.parse_eq_some.mpr ⟨A, P, hs, hslash, ?_, hdigits, hvalue, hvalid⟩
  refine IpAddr.parse_eq_some.mpr ⟨Nat.lt_trans ha.length_lt (by decide), ?_⟩
  rwa [cString_eq_self hnul]

/-- A lenient text is accepted, and the grammar admits none of them. -/
theorem Cidr.parse_of_lenient {s : Text} (h : Cidr.Lenient pton s) :
    ∃ c, Cidr.parse pton s = some c ∧ ¬ Cidr.Grammar pton s c := by
  obtain ⟨A, P, a, rfl, hslash, hlen, ha, hP⟩ := h
  have haddr : IpAddr.parse pton A = some a := IpAddr.parse_eq_some.mpr ⟨hlen, ha⟩
  have hdigits : (∀ d ∈ P, Text.isDigit d) ∧ Text.decimal P ≤ a.family.maxBits := by
    rcases hP with rfl | ⟨-, hd, hle⟩
    · exact ⟨by simp, Nat.zero_le _⟩
    · exact ⟨hd, hle⟩
  have hle := Nat.le_trans hdigits.2 a.family.maxBits_le
  have hnat : (UInt8.ofNat (Text.decimal P)).toNat = Text.decimal P := by
    rw [UInt8.toNat_ofNat', Nat.mod_eq_of_lt (by omega)]
  refine ⟨⟨a, UInt8.ofNat (Text.decimal P)⟩, Cidr.parse_eq_some.mpr
    ⟨A, P, rfl, hslash, haddr, hdigits.1, hnat.symm, ?_⟩, ?_⟩
  · rw [Cidr.Valid, hnat]
    exact hdigits.2
  · intro hgram
    obtain ⟨A', P', hcut', hnul, hne⟩ := hgram.cut
    have hcut : Text.cut 47 (A ++ 47 :: P) = some (A, P) := Text.cut_eq_some.mpr ⟨rfl, hslash⟩
    rw [hcut] at hcut'
    cases hcut'
    rcases hP with rfl | ⟨hmem, -⟩
    · exact hne rfl
    · exact hnul hmem

/-- **The parser is exact up to the lenient texts**: on a text it accepts what the grammar admits,
with the same result, exactly when the text is not lenient. -/
theorem Cidr.parse_exact_iff (pton : InetPton) (s : Text) :
    (∀ c, Cidr.parse pton s = some c ↔ Cidr.Grammar pton s c) ↔ ¬ Cidr.Lenient pton s := by
  constructor
  · intro hexact hlen
    obtain ⟨c, hparse, hgram⟩ := Cidr.parse_of_lenient hlen
    exact hgram ((hexact c).mp hparse)
  · refine fun hlen c => ⟨fun hparse => ?_, Cidr.parse_of_grammar⟩
    obtain ⟨A, P, rfl, hslash, haddr, hdigits, hvalue, hvalid⟩ := Cidr.parse_eq_some.mp hparse
    obtain ⟨hshort, ha⟩ := IpAddr.parse_eq_some.mp haddr
    have hnul : 0 ∉ A := fun hmem => hlen ⟨A, P, c.addr, rfl, hslash, hshort, ha,
      Or.inr ⟨hmem, hdigits, by rw [hvalue]; exact hvalid⟩⟩
    have hne : P ≠ [] := fun hnil => hlen ⟨A, P, c.addr, rfl, hslash, hshort, ha, Or.inl hnil⟩
    rw [cString_eq_self hnul] at ha
    exact ⟨A, P, rfl, hslash, hnul, ha, hne, hdigits, hvalue, hvalid⟩

/-! ## The IPv4 half of `inet_pton` -/

/-- One to three digits, no leading zero, of value at most 255. -/
def octet (s : Text) : Option UInt8 :=
  if s.length ≤ 3 ∧ s.all Text.isDigit ∧ s ≠ [] ∧ (s.head? = some 48 → s.length = 1) ∧
      Text.decimal s ≤ 255 then
    some (UInt8.ofNat (Text.decimal s))
  else none

/-- Four octets with a dot between them. -/
def dottedQuad (s : Text) : Option (Vector UInt8 4) := do
  let (a, s) ← Text.cut 46 s
  let (b, s) ← Text.cut 46 s
  let (c, d) ← Text.cut 46 s
  let w ← octet a
  let x ← octet b
  let y ← octet c
  let z ← octet d
  return #v[w, x, y, z]

theorem octet_length {s : Text} {b : UInt8} (h : octet s = some b) : s.length ≤ 3 := by
  unfold octet at h
  split at h
  next hs => exact hs.1
  next => cases h

theorem dottedQuad_length {s : Text} {b : Vector UInt8 4} (h : dottedQuad s = some b) :
    s.length < 16 := by
  simp only [dottedQuad, Option.bind_eq_bind, Option.bind_eq_some_iff, Prod.exists] at h
  obtain ⟨a, r, h1, b, r', h2, c, d, h3, w, ha, x, hb, y, hc, z, hd, -⟩ := h
  obtain ⟨rfl, -⟩ := Text.cut_eq_some.mp h1
  obtain ⟨rfl, -⟩ := Text.cut_eq_some.mp h2
  obtain ⟨rfl, -⟩ := Text.cut_eq_some.mp h3
  have hla := octet_length ha
  have hlb := octet_length hb
  have hlc := octet_length hc
  have hld := octet_length hd
  simp only [List.length_append, List.length_cons]
  omega

/-- `inet_pton` on the texts that are no IPv6 address. -/
def ipv4Pton : InetPton where
  v4 := dottedQuad
  v6 := fun _ => none
  length_v4 := dottedQuad_length
  length_v6 := fun h => nomatch h
  disjoint := fun _ => rfl

/-- A text that ends at the slash is accepted as the block of all addresses. -/
theorem parse_bare_slash :
    Cidr.parse ipv4Pton (ascii "10.0.0.0/") = some ⟨.v4 10 0 0 0, 0⟩ ∧
      ¬ Cidr.Grammar ipv4Pton (ascii "10.0.0.0/") ⟨.v4 10 0 0 0, 0⟩ := by
  refine ⟨by decide, fun hgram => ?_⟩
  obtain ⟨A, P, hcut, -, hne⟩ := hgram.cut
  have hbare : Text.cut 47 (ascii "10.0.0.0/") = some (ascii "10.0.0.0", []) := by decide
  rw [hbare] at hcut
  cases hcut
  exact hne rfl

example : Cidr.parse ipv4Pton (ascii "10.99.0.0/16") = some ⟨.v4 10 99 0 0, 16⟩ := by decide

example : Cidr.parse ipv4Pton (ascii "10.0.0.0/33") = none := by decide

end Cfd.Net
