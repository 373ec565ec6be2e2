import Cfd.Base.PrefixTree
import Cfd.Net.Addr

/-!
# The longest-prefix-match trie

`LpmTrie<T>` of `include/cfd/lpm_trie.hpp`: two binary tries, one per address family, walked bit
by bit from the most significant bit of the first byte. A `Node*` is `Node T`, with `null` for the
null pointer; the nodes in memory and their owners are `Cfd.Net.TrieHeap` and `Cfd.Net.TrieOwners`.

The trie answers for the blocks it was given exactly as `Cidr::contains` does. The two encode
"matches" independently, one as a bit walk and one as a byte and mask comparison, so the proof
has two halves:

* `contains_iff`: the byte and mask comparison is equality of the leading `prefix_len` bits;
* `abs_insert` and `lookup_eq_longest`: the trie refines the prefix tree over the key
  `family :: bits`, so its law is the prefix tree's.

`lookup_ofInserts` composes them.
-/

set_option autoImplicit false

namespace Cfd.Net

open Cfd.Base

/-! ## The source -/

/-- `LpmTrie::bit_of`: bit `bit` of an address, most significant first. -/
def bitOf (a : IpAddr) (bit : Nat) : Bool :=
  ((a.byte (bit / 8)).toNat >>> (7 - bit % 8)) &&& 1 != 0

/-- `LpmTrie::Node*`. -/
inductive Node (T : Type) : Type
  | null
  | mk (left right : Node T) (value : T) (hasValue : Bool)

namespace Node

variable {T : Type} [Inhabited T]

def left : Node T → Node T
  | null => null
  | mk l _ _ _ => l

def right : Node T → Node T
  | null => null
  | mk _ r _ _ => r

def value : Node T → T
  | null => default
  | mk _ _ v _ => v

def hasValue : Node T → Bool
  | null => false
  | mk _ _ _ h => h

/-- `if (!*cur) *cur = std::make_unique<Node>().release();` -/
def orNew : Node T → Node T
  | null => mk null null default false
  | n => n

/-- The loop of `insert` over the remaining bit indices, and the store at its end. -/
def insertFrom (a : IpAddr) (v : T) : List Nat → Node T → Node T
  | [], cur =>
    let n := cur.orNew
    mk n.left n.right v true
  | bit :: bits, cur =>
    let n := cur.orNew
    if bitOf a bit then mk n.left (insertFrom a v bits n.right) n.value n.hasValue
    else mk (insertFrom a v bits n.left) n.right n.value n.hasValue

/-- The loop of `lookup` over the remaining bit indices; the empty list is `bit == max_bits`. -/
def lookupFrom (a : IpAddr) : List Nat → Node T → Option T → Option T
  | _, null, best => best
  | [], mk _ _ v h, best => if h then some v else best
  | bit :: bits, mk l r v h, best =>
    lookupFrom a bits (if bitOf a bit then r else l) (if h then some v else best)

end Node

/-- `LpmTrie<T>`. -/
structure LpmTrie (T : Type) where
  rootV4 : Node T
  rootV6 : Node T

namespace LpmTrie

variable {T : Type} [Inhabited T]

/-- The default-constructed trie. -/
def empty : LpmTrie T := ⟨.null, .null⟩

/-- `LpmTrie::insert`. -/
def insert (t : LpmTrie T) (c : Cidr) (v : T) : LpmTrie T :=
  match c.addr.family with
  | .V4 => { t with rootV4 := t.rootV4.insertFrom c.addr v (List.range c.prefixLen.toNat) }
  | .V6 => { t with rootV6 := t.rootV6.insertFrom c.addr v (List.range c.prefixLen.toNat) }

/-- `LpmTrie::lookup`. -/
def lookup (t : LpmTrie T) (a : IpAddr) : Option T :=
  let cur := match a.family with
    | .V4 => t.rootV4
    | .V6 => t.rootV6
  cur.lookupFrom a (List.range a.family.maxBits) none

/-- The trie after inserting the entries in order into an empty one. -/
def ofInserts (es : List (Cidr × T)) : LpmTrie T := es.foldl (fun t e => t.insert e.1 e.2) empty

end LpmTrie

/-! ## `contains` is a comparison of leading bits -/

theorem bitOf_eq_testBit (a : IpAddr) (bit : Nat) :
    bitOf a bit = (a.byte (bit / 8)).toNat.testBit (7 - bit % 8) := by
  rw [bitOf, Nat.testBit, Nat.and_comm]

theorem leadingMask_testBit {r i : Nat} (hr : r ≤ 8) :
    (leadingMask r).toNat.testBit i = decide (i < 8 ∧ 8 - r ≤ i) := by
  have hlt : ((0xFF <<< (8 - r)) &&& 0xFF) < 2 ^ 8 := Nat.and_lt_two_pow _ (by decide)
  have hval : (leadingMask r).toNat = (0xFF <<< (8 - r)) &&& 0xFF := by
    rw [leadingMask, UInt8.toNat_ofNat', Nat.mod_eq_of_lt hlt]
  rw [hval, Nat.testBit_and, Nat.testBit_shiftLeft, show (0xFF : Nat) = 2 ^ 8 - 1 from rfl,
    Nat.testBit_two_pow_sub_one, Nat.testBit_two_pow_sub_one]
  grind

/-- Bytes agree under the mask exactly when their leading bits agree. -/
theorem masked_eq_iff {r : Nat} (hr : r ≤ 8) (x y : UInt8) :
    x &&& leadingMask r = y &&& leadingMask r ↔
      ∀ j < r, x.toNat.testBit (7 - j) = y.toNat.testBit (7 - j) := by
  rw [← UInt8.toNat_inj, UInt8.toNat_and, UInt8.toNat_and]
  constructor
  · intro h j hj
    have hbit := congrArg (fun n => Nat.testBit n (7 - j)) h
    simp only [Nat.testBit_and, leadingMask_testBit hr] at hbit
    rw [decide_eq_true (by omega), Bool.and_true, Bool.and_true] at hbit
    exact hbit
  · intro h
    refine Nat.eq_of_testBit_eq fun i => ?_
    rw [Nat.testBit_and, Nat.testBit_and, leadingMask_testBit hr]
    by_cases hi : i < 8 ∧ 8 - r ≤ i
    · have hbit := h (7 - i) (by omega)
      rw [show 7 - (7 - i) = i by omega] at hbit
      rw [hbit]
    · rw [decide_eq_false hi, Bool.and_false, Bool.and_false]

/-- Whole bytes are the case of all eight leading bits. -/
theorem byte_eq_iff (x y : UInt8) :
    x = y ↔ ∀ j < 8, x.toNat.testBit (7 - j) = y.toNat.testBit (7 - j) := by
  rw [← masked_eq_iff (Nat.le_refl 8), show leadingMask 8 = (-1 : UInt8) by decide]
  simp only [UInt8.and_neg_one]

/-- Bit `j` of byte `k`, in walk order. -/
theorem bitOf_byte (a : IpAddr) (k : Nat) {j : Nat} (hj : j < 8) :
    bitOf a (k * 8 + j) = (a.byte k).toNat.testBit (7 - j) := by
  rw [bitOf_eq_testBit, show (k * 8 + j) / 8 = k by omega, show (k * 8 + j) % 8 = j by omega]

/-- Equal leading bytes are equal leading bits. -/
theorem bytes_eq_iff (a b : IpAddr) (k : Nat) :
    (∀ i < k, a.byte i = b.byte i) ↔ ∀ i < k * 8, bitOf a i = bitOf b i := by
  constructor
  · intro h i hi
    rw [bitOf_eq_testBit, bitOf_eq_testBit, h (i / 8) (by omega)]
  · intro h i hi
    refine (byte_eq_iff _ _).mpr fun j hj => ?_
    rw [← bitOf_byte a i hj, ← bitOf_byte b i hj]
    exact h (i * 8 + j) (by omega)

/-- The masked byte after them is the remaining leading bits. -/
theorem masked_byte_eq_iff (a b : IpAddr) (k : Nat) {r : Nat} (hr : r < 8) :
    a.byte k &&& leadingMask r = b.byte k &&& leadingMask r ↔
      ∀ j < r, bitOf a (k * 8 + j) = bitOf b (k * 8 + j) := by
  rw [masked_eq_iff hr.le]
  refine forall₂_congr fun j hj => ?_
  rw [bitOf_byte a k (by omega), bitOf_byte b k (by omega)]

/-- `contains` with its early returns read as a conjunction. -/
theorem contains_eq (c : Cidr) (a : IpAddr) :
    c.contains a = true ↔
      a.family = c.addr.family ∧
      (∀ i < c.prefixLen.toNat / 8, c.addr.byte i = a.byte i) ∧
      (c.prefixLen.toNat % 8 ≠ 0 →
        c.addr.byte (c.prefixLen.toNat / 8) &&& leadingMask (c.prefixLen.toNat % 8) =
          a.byte (c.prefixLen.toNat / 8) &&& leadingMask (c.prefixLen.toNat % 8)) := by
  unfold Cidr.contains
  by_cases hf : a.family = c.addr.family
  · by_cases hr : c.prefixLen.toNat % 8 = 0
    · simp [hf, hr]
    · simp [hf, hr]
  · simp [hf]

/-- **`Cidr::contains` compares the family and the leading `prefix_len` bits.** -/
theorem contains_iff (c : Cidr) (a : IpAddr) :
    c.contains a = true ↔
      a.family = c.addr.family ∧ ∀ i < c.prefixLen.toNat, bitOf c.addr i = bitOf a i := by
  rw [contains_eq, bytes_eq_iff, masked_byte_eq_iff _ _ _ (Nat.mod_lt _ (by decide))]
  generalize c.prefixLen.toNat = n
  refine and_congr_right fun _ => ⟨fun ⟨hwhole, hrest⟩ i hi => ?_, fun h => ⟨fun i hi => ?_, ?_⟩⟩
  · by_cases hlt : i < n / 8 * 8
    · exact hwhole i hlt
    · have hbit := hrest (by omega) (i % 8) (by omega)
      rwa [show n / 8 * 8 + i % 8 = i by omega] at hbit
  · exact h i (by omega)
  · exact fun _ j hj => h _ (by omega)

/-! ## The trie refines a prefix tree -/

/-- The leading `n` bits of an address, in walk order. -/
def leadingBits (a : IpAddr) (n : Nat) : List Bool := (List.range n).map (bitOf a)

@[simp] theorem length_leadingBits (a : IpAddr) (n : Nat) : (leadingBits a n).length = n := by
  simp [leadingBits]

/-- One bit per family, the first of every key. -/
def familyBit : Family → Bool
  | .V4 => false
  | .V6 => true

theorem familyBit_inj {f g : Family} : familyBit f = familyBit g ↔ f = g := by
  cases f <;> cases g <;> decide

/-- The key of a block: its family, then its `prefix_len` leading bits. -/
def Cidr.key (c : Cidr) : List Bool :=
  familyBit c.addr.family :: leadingBits c.addr c.prefixLen.toNat

/-- The key of an address: its family, then all its bits. -/
def IpAddr.key (a : IpAddr) : List Bool :=
  familyBit a.family :: leadingBits a a.family.maxBits

@[simp] theorem Cidr.length_key (c : Cidr) : c.key.length = c.prefixLen.toNat + 1 := by
  simp [Cidr.key]

/-- Leading bits are a prefix of other leading bits exactly when they are no longer and agree. -/
theorem leadingBits_prefix_iff (a b : IpAddr) {n m : Nat} (hnm : n ≤ m) :
    leadingBits a n <+: leadingBits b m ↔ ∀ i < n, bitOf a i = bitOf b i := by
  rw [List.prefix_iff_eq_take]
  have htake : (leadingBits b m).take n = leadingBits b n := by
    rw [leadingBits, ← List.map_take, List.take_range, Nat.min_eq_left hnm]
    rfl
  rw [length_leadingBits, htake, leadingBits, leadingBits, List.map_inj_left]
  simp only [List.mem_range]

/-- **A valid block contains an address exactly when its key is a prefix of the address's key.** -/
theorem contains_iff_key {c : Cidr} (hc : c.Valid) (a : IpAddr) :
    c.contains a = true ↔ c.key <+: a.key := by
  rw [contains_iff, Cidr.key, IpAddr.key, List.cons_prefix_cons, familyBit_inj, eq_comm]
  refine and_congr_right fun hf => ?_
  rw [leadingBits_prefix_iff]
  rw [← hf]
  exact hc

namespace Node

variable {T : Type} [Inhabited T]

/-- The prefix tree a node stands for: a node without `has_value` carries nothing. -/
def abs : Node T → PrefixTree T
  | null => .leaf
  | mk l r v h => .node l.abs r.abs (if h then some v else none)

theorem abs_insertFrom (a : IpAddr) (v : T) : ∀ (bits : List Nat) (n : Node T),
    (n.insertFrom a v bits).abs = n.abs.insert (bits.map (bitOf a)) v
  | [], null => rfl
  | [], mk _ _ _ _ => rfl
  | bit :: bits, null => by
    have ih := abs_insertFrom a v bits null
    cases hb : bitOf a bit <;>
      simp [insertFrom, orNew, hb, abs, left, right, value, hasValue, PrefixTree.insert,
        PrefixTree.child, PrefixTree.root, ih]
  | bit :: bits, mk l r w h => by
    have ihl := abs_insertFrom a v bits l
    have ihr := abs_insertFrom a v bits r
    cases hb : bitOf a bit <;>
      simp [insertFrom, orNew, hb, abs, left, right, value, hasValue, PrefixTree.insert,
        PrefixTree.child, PrefixTree.root, ihl, ihr]

omit [Inhabited T] in
theorem lookupFrom_eq_longestFrom (a : IpAddr) : ∀ (bits : List Nat) (n : Node T)
    (best : Option T),
    n.lookupFrom a bits best = n.abs.longestFrom (bits.map (bitOf a)) best
  | bits, null, best => by
    rw [abs, PrefixTree.longestFrom_eq_or,
      (PrefixTree.longest_eq_none _ _).mpr fun p _ => PrefixTree.find_leaf p, Option.none_or]
    cases bits <;> rfl
  | [], mk l r v h, best => by
    cases h <;> rfl
  | bit :: bits, mk l r v h, best => by
    have hbest : (if h then some v else best) = (if h then some v else none).or best := by
      cases h <;> rfl
    have hchild : (if bitOf a bit then r else l).abs = (mk l r v h).abs.child (bitOf a bit) := by
      cases bitOf a bit <;> rfl
    rw [lookupFrom, lookupFrom_eq_longestFrom a bits, hbest, hchild]
    rfl

end Node

namespace LpmTrie

variable {T : Type} [Inhabited T]

/-- One prefix tree for both families. -/
def abs (t : LpmTrie T) : PrefixTree T := .node t.rootV4.abs t.rootV6.abs none

theorem abs_insert (t : LpmTrie T) (c : Cidr) (v : T) :
    (t.insert c v).abs = t.abs.insert c.key v := by
  unfold insert Cidr.key
  cases c.addr.family <;> simp only [abs, Node.abs_insertFrom] <;> rfl

omit [Inhabited T] in
theorem lookup_eq_longest (t : LpmTrie T) (a : IpAddr) : t.lookup a = t.abs.longest a.key := by
  unfold lookup IpAddr.key
  cases a.family <;> simp only [Node.lookupFrom_eq_longestFrom] <;> rfl

theorem abs_foldl_insert : ∀ (es : List (Cidr × T)) (t : LpmTrie T),
    (es.foldl (fun t e => t.insert e.1 e.2) t).abs =
      t.abs.insertAll (es.map fun e => (e.1.key, e.2))
  | [], _ => rfl
  | e :: es, t => by
    rw [List.foldl_cons, abs_foldl_insert es, abs_insert]
    rfl

omit [Inhabited T] in
/-- The empty trie denotes the empty map. -/
theorem find_abs_empty : ∀ p : List Bool, (empty : LpmTrie T).abs.find p = none
  | [] => rfl
  | false :: p => PrefixTree.find_leaf p
  | true :: p => PrefixTree.find_leaf p

/-- What a list of insertions answers is what the prefix tree of its keys answers. -/
theorem lookup_ofInserts_eq_longest (es : List (Cidr × T)) (a : IpAddr) :
    (ofInserts es).lookup a =
      (PrefixTree.ofEntries (es.map fun e => (e.1.key, e.2))).longest a.key := by
  rw [lookup_eq_longest, ofInserts, abs_foldl_insert]
  refine PrefixTree.longest_congr _ (PrefixTree.find_insertAll_congr _ fun p => ?_)
  rw [find_abs_empty, PrefixTree.find_leaf]

theorem lookup_ofInserts_eq_none {es : List (Cidr × T)} (hvalid : ∀ e ∈ es, e.1.Valid)
    (a : IpAddr) :
    (ofInserts es).lookup a = none ↔ ∀ e ∈ es, e.1.contains a = false := by
  rw [lookup_ofInserts_eq_longest, PrefixTree.longest_ofEntries_eq_none]
  simp only [List.forall_mem_map]
  refine forall₂_congr fun e he => ?_
  rw [← contains_iff_key (hvalid e he), Bool.not_eq_true]

theorem lookup_ofInserts_eq_some {es : List (Cidr × T)} (hvalid : ∀ e ∈ es, e.1.Valid)
    (a : IpAddr) (v : T) :
    (ofInserts es).lookup a = some v ↔
      ∃ c, LastLongest es (fun e => e.1.contains a = true) (fun e => e.1.prefixLen.toNat)
        (c, v) := by
  have hselect : ∀ x : Cidr × T,
      LastLongest es (fun e => e.1.key <+: a.key) (fun e => e.1.key.length) x ↔
        LastLongest es (fun e => e.1.contains a = true) (fun e => e.1.prefixLen.toNat) x :=
    lastLongest_congr (fun e he => (contains_iff_key (hvalid e he) a).symm) fun e e' => by
      simp only [Cidr.length_key, Nat.add_le_add_iff_right]
  rw [lookup_ofInserts_eq_longest, PrefixTree.longest_ofEntries]
  simp only [lastLongest_map, hselect, Prod.mk.injEq]
  constructor
  · rintro ⟨p, ⟨c, w⟩, ⟨-, rfl⟩, hsel⟩
    exact ⟨c, hsel⟩
  · rintro ⟨c, hsel⟩
    exact ⟨c.key, (c, v), ⟨rfl, rfl⟩, hsel⟩

/-- Blocks of the other family have no influence on a lookup. -/
theorem lookup_ofInserts_filter {es : List (Cidr × T)} (hvalid : ∀ e ∈ es, e.1.Valid)
    (a : IpAddr) :
    (ofInserts (es.filter fun e => e.1.addr.family = a.family)).lookup a =
      (ofInserts es).lookup a := by
  have hvalid' : ∀ e ∈ es.filter fun e => decide (e.1.addr.family = a.family), e.1.Valid :=
    fun e he => hvalid e (List.mem_filter.mp he).1
  refine Option.ext fun v => ?_
  rw [lookup_ofInserts_eq_some hvalid', lookup_ofInserts_eq_some hvalid]
  refine exists_congr fun c => lastLongest_filter _ (fun e he => ?_) es (c, v)
  exact decide_eq_true ((contains_iff e.1 a).mp he).1.symm

/-- **Longest-prefix match.** Over any sequence of insertions of valid blocks into an empty trie,
of either family and with any host bits: a lookup is empty exactly when no inserted block contains
the address; otherwise it answers the value of the last inserted block among those that contain
the address at the greatest prefix length. Blocks of the other family have no influence. -/
theorem lookup_ofInserts (es : List (Cidr × T)) (hvalid : ∀ e ∈ es, e.1.Valid) (a : IpAddr) :
    ((ofInserts es).lookup a = none ↔ ∀ e ∈ es, e.1.contains a = false) ∧
    (∀ v, (ofInserts es).lookup a = some v ↔
      ∃ c, LastLongest es (fun e => e.1.contains a = true) (fun e => e.1.prefixLen.toNat)
        (c, v)) ∧
    (ofInserts (es.filter fun e => e.1.addr.family = a.family)).lookup a =
      (ofInserts es).lookup a :=
  ⟨lookup_ofInserts_eq_none hvalid a, lookup_ofInserts_eq_some hvalid a,
    lookup_ofInserts_filter hvalid a⟩

/-- Routes of both families: a default route, a block with host bits, and one prefix given twice. -/
def sampleRoutes : List (Cidr × Nat) :=
  [(⟨.v4 0 0 0 0, 0⟩, 1), (⟨.v4 10 99 5 7, 16⟩, 2), (⟨⟨.V6, Vector.replicate 16 0⟩, 128⟩, 3),
    (⟨.v4 10 99 0 0, 16⟩, 4), (⟨.v4 10 0 0 0, 8⟩, 5)]

theorem lookup_ofInserts_sample :
    ∃ c, LastLongest sampleRoutes (fun e => e.1.contains (.v4 10 99 8 8) = true)
      (fun e => e.1.prefixLen.toNat) (c, 4) :=
  ((lookup_ofInserts sampleRoutes (by decide) (.v4 10 99 8 8)).2.1 4).mp (by decide)

end LpmTrie

end Cfd.Net
