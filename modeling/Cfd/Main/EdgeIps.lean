import Cfd.Base.Deal
import Cfd.Net.CidrPrint

/-!
# The addresses of the edge

`resolve_edge_ips` of `src/main.cpp`: the numeric addresses that a DNS lookup has found, or the host
itself where it has found none, dealt to the connections in turn. The lookup is a parameter:
`AddrInfo` is an entry of the list that `getaddrinfo` leaves, and `inet_ntop` is `InetNtop`.

`edge_ips_spread` says that there are as many entries as connections, where each of them comes from,
and that no place of the list is given to more or fewer connections than its part.
-/

set_option autoImplicit false

namespace Cfd.Main

open Cfd.Base Cfd.Net

/-! ## The source -/

/-- An `addrinfo`: its `ai_family` with the address, where the family is one that the loop reads. -/
inductive AddrInfo where
  | inet (b : Vector UInt8 4)
  | inet6 (b : Vector UInt8 16)
  | other

variable {pton : InetPton}

/-- The C string in `buf` behind the two branches. -/
def AddrInfo.buf (ntop : InetNtop pton) : AddrInfo → Text
  | .inet b => ntop.v4 b
  | .inet6 b => ntop.v6 b
  | .other => []

/-- The loop over the list; `res` is `none` where `getaddrinfo` fails or leaves no list. -/
def numericIps (ntop : InetNtop pton) (res : Option (List AddrInfo)) : List Text :=
  ((res.getD []).map fun a => a.buf ntop).filter fun buf => buf ≠ []

/-- `found`, behind the fallback. -/
def foundIps (ntop : InetNtop pton) (res : Option (List AddrInfo)) (host : Text) : List Text :=
  if numericIps ntop res = [] then [host] else numericIps ntop res

theorem foundIps_ne_nil (ntop : InetNtop pton) (res : Option (List AddrInfo)) (host : Text) :
    foundIps ntop res host ≠ [] := by
  unfold foundIps
  split
  next => exact List.cons_ne_nil _ _
  next h => exact h

theorem length_foundIps (ntop : InetNtop pton) (res : Option (List AddrInfo)) (host : Text) :
    0 < (foundIps ntop res host).length :=
  List.length_pos_iff.mpr (foundIps_ne_nil ntop res host)

/-- `found[i % found.size()]` -/
def dealtIp (ntop : InetNtop pton) (res : Option (List AddrInfo)) (host : Text) (i : Nat) : Text :=
  (foundIps ntop res host).get ⟨i % (foundIps ntop res host).length,
    Nat.mod_lt i (length_foundIps ntop res host)⟩

/-- `resolve_edge_ips`; its one caller asks for `kNumHaConns` entries. -/
def resolveEdgeIps (ntop : InetNtop pton) (res : Option (List AddrInfo)) (host : Text) (want : Nat) :
    List Text :=
  (List.range want).map (dealtIp ntop res host)

/-! ## What the connections get -/

/-- Where an address comes from: from an entry of the lookup's list, or it is the host and the lookup
has found nothing. -/
def Resolved (ntop : InetNtop pton) (res : Option (List AddrInfo)) (host t : Text) : Prop :=
  (∃ a ∈ res.getD [], t = a.buf ntop ∧ t ≠ []) ∨
    ((∀ a ∈ res.getD [], a.buf ntop = []) ∧ t = host)

theorem mem_numericIps {ntop : InetNtop pton} {res : Option (List AddrInfo)} {t : Text} :
    t ∈ numericIps ntop res ↔ ∃ a ∈ res.getD [], t = a.buf ntop ∧ t ≠ [] := by
  rw [numericIps, List.mem_filter, List.mem_map, decide_eq_true_eq]
  constructor
  · rintro ⟨⟨a, ha, rfl⟩, hne⟩
    exact ⟨a, ha, rfl, hne⟩
  · rintro ⟨a, ha, rfl, hne⟩
    exact ⟨⟨a, ha, rfl⟩, hne⟩

theorem mem_foundIps {ntop : InetNtop pton} {res : Option (List AddrInfo)} {host t : Text} :
    t ∈ foundIps ntop res host ↔ Resolved ntop res host t := by
  unfold foundIps Resolved
  split
  next hnil =>
    have hempty : ∀ a ∈ res.getD [], a.buf ntop = [] := by
      intro a ha
      by_contra hne
      have hmem := mem_numericIps.mpr ⟨a, ha, rfl, hne⟩
      rw [hnil] at hmem
      cases hmem
    rw [List.mem_singleton]
    constructor
    · exact fun h => Or.inr ⟨hempty, h⟩
    · rintro (⟨a, ha, rfl, hne⟩ | ⟨-, h⟩)
      · exact absurd (hempty a ha) hne
      · exact h
  next hne =>
    rw [mem_numericIps]
    constructor
    · exact Or.inl
    · rintro (h | ⟨hempty, -⟩)
      · exact h
      · obtain ⟨t', ht'⟩ := List.exists_mem_of_ne_nil _ hne
        obtain ⟨a, ha, rfl, hne'⟩ := mem_numericIps.mp ht'
        exact absurd (hempty a ha) hne'

/-- How often an address has been found, counted by the places. -/
theorem count_foundIps (l : List Text) (t : Text) :
    l.length.count (fun k => l[k]? = some t) = l.count t := by
  rw [List.count, ← Deal.countP_eq_count]
  intro j x hx
  rw [hx, Option.some_inj, beq_iff_eq]

/-- How many connections get an address. -/
theorem count_resolveEdgeIps (ntop : InetNtop pton) (res : Option (List AddrInfo)) (host : Text)
    (want : Nat) (t : Text) :
    (resolveEdgeIps ntop res host want).count t =
      want.count fun j =>
        (foundIps ntop res host)[(0 + j) % (foundIps ntop res host).length]? = some t := by
  have hlen : (resolveEdgeIps ntop res host want).length = want := by
    rw [resolveEdgeIps, List.length_map, List.length_range]
  conv_rhs => rw [← hlen]
  apply Deal.countP_eq_count
  intro j x hx
  rw [resolveEdgeIps, List.getElem?_map, Option.map_eq_some_iff] at hx
  obtain ⟨i, hi, rfl⟩ := hx
  obtain ⟨hlt, heq⟩ := List.getElem?_eq_some_iff.mp hi
  rw [List.getElem_range] at heq
  subst heq
  have hmod := Nat.mod_lt j (length_foundIps ntop res host)
  rw [beq_iff_eq, Nat.zero_add, List.getElem?_eq_getElem hmod, Option.some_inj]
  rfl

theorem getElem?_resolveEdgeIps (ntop : InetNtop pton) (res : Option (List AddrInfo)) (host : Text)
    {want i : Nat} (hi : i < want) : (resolveEdgeIps ntop res host want)[i]? =
      (foundIps ntop res host)[i % (foundIps ntop res host).length]? := by
  have hmod := Nat.mod_lt i (length_foundIps ntop res host)
  rw [resolveEdgeIps, List.getElem?_map, List.getElem?_range hi, List.getElem?_eq_getElem hmod]
  rfl

/-- **The connections are spread over the addresses of the edge.** There is an entry for each
connection; each is an address that the lookup has found, or the host where it has found none. The
connections go round the list of what was found, place by place, so each place of it serves its part of
them, rounded down or up. An address that is in the list several times serves as many parts; one that
is in it once serves one. -/
theorem edge_ips_spread (ntop : InetNtop pton) (res : Option (List AddrInfo)) (host : Text)
    (want : Nat) :
    (resolveEdgeIps ntop res host want).length = want ∧
    (∀ t ∈ resolveEdgeIps ntop res host want, Resolved ntop res host t) ∧
    (∀ i < want, (resolveEdgeIps ntop res host want)[i]? =
      (foundIps ntop res host)[i % (foundIps ntop res host).length]?) ∧
    (∀ k < (foundIps ntop res host).length,
      want / (foundIps ntop res host).length ≤
          (want.count fun i => i % (foundIps ntop res host).length = k) ∧
        (want.count fun i => i % (foundIps ntop res host).length = k) ≤
          (want + (foundIps ntop res host).length - 1) / (foundIps ntop res host).length) ∧
    (∀ t, (foundIps ntop res host).count t * (want / (foundIps ntop res host).length) ≤
        (resolveEdgeIps ntop res host want).count t ∧
      (resolveEdgeIps ntop res host want).count t ≤ (foundIps ntop res host).count t *
        ((want + (foundIps ntop res host).length - 1) / (foundIps ntop res host).length)) ∧
    ((foundIps ntop res host).Nodup → ∀ t ∈ foundIps ntop res host,
      want / (foundIps ntop res host).length ≤ (resolveEdgeIps ntop res host want).count t ∧
      (resolveEdgeIps ntop res host want).count t ≤
        (want + (foundIps ntop res host).length - 1) / (foundIps ntop res host).length) := by
  have hcount : ∀ t, (foundIps ntop res host).count t * (want / (foundIps ntop res host).length) ≤
        (resolveEdgeIps ntop res host want).count t ∧
      (resolveEdgeIps ntop res host want).count t ≤ (foundIps ntop res host).count t *
        ((want + (foundIps ntop res host).length - 1) / (foundIps ntop res host).length) := by
    intro t
    have hbounds := Deal.count_mod_bounds (length_foundIps ntop res host)
      (fun k => (foundIps ntop res host)[k]? = some t) 0 want
    rw [count_foundIps] at hbounds
    rw [count_resolveEdgeIps]
    exact hbounds
  refine ⟨?_, ?_, ?_, ?_, hcount, ?_⟩
  · rw [resolveEdgeIps, List.length_map, List.length_range]
  · intro t ht
    obtain ⟨i, -, rfl⟩ := List.mem_map.mp ht
    exact mem_foundIps.mp (List.get_mem _ _)
  · intro i hi
    exact getElem?_resolveEdgeIps ntop res host hi
  · intro k hk
    have hle := Deal.le_share hk 0 want
    have hge := Deal.share_le hk 0 want
    simp only [Deal.share, Nat.zero_add] at hle hge
    exact ⟨hle, hge⟩
  · intro hnodup t ht
    have hbounds := hcount t
    rw [List.count_eq_one_of_mem hnodup ht, Nat.one_mul, Nat.one_mul] at hbounds
    exact hbounds

/-- A lookup with an address of each family, and an entry of another one. -/
def twoEntries : List AddrInfo :=
  [.inet #v[198, 41, 192, 7], .other, .inet6 #v[0x26, 6, 0x47, 0, 0, 0xa8, 0, 0, 0, 0, 0, 0, 0, 0, 0, 1]]

/-- Four connections get two addresses in turn, two each. -/
theorem edge_ips_spread_two :
    foundIps Inet.ntop (some twoEntries) (ascii "h") =
        [ascii "198.41.192.7", ascii "2606:4700:a8::1"] ∧
      (resolveEdgeIps Inet.ntop (some twoEntries) (ascii "h") 4).length = 4 ∧
      ∀ t ∈ foundIps Inet.ntop (some twoEntries) (ascii "h"),
        2 ≤ (resolveEdgeIps Inet.ntop (some twoEntries) (ascii "h") 4).count t ∧
        (resolveEdgeIps Inet.ntop (some twoEntries) (ascii "h") 4).count t ≤ 2 := by
  have hfound : foundIps Inet.ntop (some twoEntries) (ascii "h") =
      [ascii "198.41.192.7", ascii "2606:4700:a8::1"] := by decide
  obtain ⟨hlen, -, -, -, -, hspread⟩ := edge_ips_spread Inet.ntop (some twoEntries) (ascii "h") 4
  have hlength : (foundIps Inet.ntop (some twoEntries) (ascii "h")).length = 2 :=
    congrArg List.length hfound
  rw [hlength] at hspread
  exact ⟨hfound, hlen, hspread (by rw [hfound]; decide)⟩

end Cfd.Main
