import Cfd.Base.LinkedTree
import Cfd.Net.LpmTrie

/-!
# The nodes of the trie in memory

`LpmTrie<T>` of `include/cfd/lpm_trie.hpp` with its pointers: a trie object is two root pointers,
and `insert`, `lookup` and `destroy` walk from node to node. `Cfd.Net.LpmTrie` has the same
functions on trees as values.

Nodes have the number of their allocation for an address, so an address is not used again. A
dereference of a pointer to a deleted node, and a `delete` of one, is undefined behaviour and has no
result.

The bits of an address beyond its sixteen bytes, which an insertion asks for if the prefix length is
out of its documented range, are zero. No statement about owners depends on them.

## What is proved

`Holds m cur t` says that the tree `t` stands in memory at the pointer variable `cur`, and
`Turns m cur t m' t'` that an operation has put `t'` there and changed nothing else.

* `insertLoop_spec`: `insert` turns a tree into the one that the insertion into a value gives.
* `destroy_spec`: `destroy` turns a tree into none, and the number of its nodes is fuel enough.
* `lookupLoop_spec`: `lookup` answers what the lookup in the value does.
-/

set_option autoImplicit false

namespace Cfd.Net.TrieHeap

open Cfd.Base

/-- The fields of `Node` other than its links. -/
structure Payload (T : Type) where
  value : T
  hasValue : Bool

/-- `LpmTrie`: its root pointers. -/
structure Trie where
  rootV4 : Option Nat
  rootV6 : Option Nat
  deriving DecidableEq

namespace Trie

/-- `root_for`, as a value. -/
def root (t : Trie) : Family → Option Nat
  | .V4 => t.rootV4
  | .V6 => t.rootV6

/-- `*root_for(f) = p`. -/
def setRoot (t : Trie) (f : Family) (p : Option Nat) : Trie :=
  match f with
  | .V4 => { t with rootV4 := p }
  | .V6 => { t with rootV6 := p }

theorem setRoot_root (t : Trie) (f : Family) : t.setRoot f (t.root f) = t := by
  cases f <;> rfl

theorem root_setRoot (t : Trie) (f : Family) (p : Option Nat) : (t.setRoot f p).root f = p := by
  cases f <;> rfl

theorem root_setRoot_of_ne (t : Trie) {f g : Family} (hne : g ≠ f) (p : Option Nat) :
    (t.setRoot f p).root g = t.root g := by
  cases f <;> cases g <;> first | rfl | exact absurd rfl hne

end Trie

/-- The pointer variables that a `Node**` or a `Node*&` refers to: a root of an object, or a link of
a node, `true` for the right one. -/
inductive Slot (ι : Type)
  | root (o : ι) (f : Family)
  | link (n : Nat) (side : Bool)

/-- The nodes, and the objects there are. -/
structure Store (ι T : Type) where
  heap : Heap (Payload T)
  tries : ι → Option Trie

namespace Store

variable {ι T : Type}

/-- `*cur`. -/
def read (m : Store ι T) : Slot ι → Option (Option Nat)
  | .root o f => (m.tries o).map fun t => t.root f
  | .link n side => (m.heap.cells n).map fun c => c.link side

/-- `(*cur)->value = std::move(value); (*cur)->has_value = true;` -/
def setValue (m : Store ι T) (n : Nat) (v : T) : Option (Store ι T) :=
  (m.heap.cells n).map fun _ =>
    { m with heap := m.heap.modify n fun c => { c with val := ⟨v, true⟩ } }

/-- The loop of `lookup` over the remaining bit indices; the empty list is `bit == max_bits`. -/
def lookupLoop (m : Store ι T) (a : IpAddr) :
    List Nat → Option Nat → Option T → Option (Option T)
  | _, none, best => some best
  | [], some n, best =>
    (m.heap.cells n).map fun c => if c.val.hasValue then some c.val.value else best
  | bit :: bits, some n, best =>
    (m.heap.cells n).bind fun c =>
      m.lookupLoop a bits (c.link (bitOf a bit))
        (if c.val.hasValue then some c.val.value else best)

/-- `LpmTrie::lookup`. -/
def lookup (m : Store ι T) (o : ι) (a : IpAddr) : Option (Option T) :=
  (m.tries o).bind fun t => m.lookupLoop a (List.range a.family.maxBits) (t.root a.family) none

variable [DecidableEq ι]

/-- `*cur = p`. -/
def write (m : Store ι T) : Slot ι → Option Nat → Store ι T
  | .root o f, p =>
    { m with tries := Function.update m.tries o ((m.tries o).map fun t => t.setRoot f p) }
  | .link n side, p => { m with heap := m.heap.modify n fun c => c.setLink side p }

/-- `destroy(Node*& n)`. The recursion is bounded by `fuel`. -/
def destroy : Nat → Store ι T → Slot ι → Option (Store ι T)
  | 0, m, cur => if m.read cur = some none then some m else none
  | fuel + 1, m, cur =>
    match m.read cur with
    | none => none
    | some none => some m
    | some (some n) =>
      (destroy fuel m (.link n false)).bind fun m₁ =>
        (destroy fuel m₁ (.link n true)).bind fun m₂ =>
          (m₂.heap.delete n).map fun h => ({ m₂ with heap := h } : Store ι T).write cur none

variable [Inhabited T]

/-- `if (!*cur) *cur = std::make_unique<Node>().release();`, and the node `*cur`. -/
def orNew (m : Store ι T) (cur : Slot ι) : Option (Store ι T × Nat) :=
  match m.read cur with
  | none => none
  | some (some n) => some (m, n)
  | some none =>
    some (({ m with heap := m.heap.alloc ⟨none, none, default, false⟩ } : Store ι T).write cur
      (some m.heap.next), m.heap.next)

/-- The loop of `insert` over the remaining bit indices, and the store at its end. -/
def insertLoop (a : IpAddr) (v : T) : List Nat → Store ι T → Slot ι → Option (Store ι T)
  | [], m, cur => (m.orNew cur).bind fun x => x.1.setValue x.2 v
  | bit :: bits, m, cur =>
    (m.orNew cur).bind fun x => insertLoop a v bits x.1 (.link x.2 (bitOf a bit))

/-- `LpmTrie::insert`. -/
def insert (m : Store ι T) (o : ι) (c : Cidr) (v : T) : Option (Store ι T) :=
  insertLoop c.addr v (List.range c.prefixLen.toNat) m (.root o c.addr.family)

end Store

/-! ## A tree at a pointer variable -/

variable {ι T : Type}

/-- The tree as a value. -/
def erase : LinkedTree (Payload T) → Node T
  | .null => .null
  | .node _ l r v => .mk (erase l) (erase r) v.value v.hasValue

/-- The pointer variable is not in a node of the tree. -/
def Slot.Off : Slot ι → LinkedTree (Payload T) → Prop
  | .root _ _, _ => True
  | .link n _, t => n ∉ t.addrs

/-- The tree stands at `cur`. -/
structure Holds (m : Store ι T) (cur : Slot ι) (t : LinkedTree (Payload T)) : Prop where
  read : m.read cur = some t.root
  laid : t.LaidOut m.heap.cells
  nodup : t.addrs.Nodup
  off : cur.Off t

/-- A node that a pointer variable is in is there. -/
theorem Holds.live {m : Store ι T} {n : Nat} {side : Bool} {t : LinkedTree (Payload T)}
    (h : Holds m (.link n side) t) : m.heap.cells n ≠ none := by
  intro hnone
  have hread := h.read
  rw [Store.read, hnone] at hread
  cases hread

/-- The subtree stands at the link of its node. -/
theorem Holds.kid {m : Store ι T} {n : Nat} {l r : LinkedTree (Payload T)} {v : Payload T}
    (hlaid : (LinkedTree.node n l r v).LaidOut m.heap.cells)
    (hnodup : (LinkedTree.node n l r v).addrs.Nodup) (side : Bool) :
    Holds m (.link n side) (LinkedTree.kid l r side) := by
  have hread : m.read (.link n side) = some (LinkedTree.kid l r side).root := by
    rw [Store.read, hlaid.1]
    cases side <;> rfl
  rw [← LinkedTree.withKid_kid n l r v side] at hlaid hnodup
  obtain ⟨⟨hn, -⟩, hkid, -⟩ := LinkedTree.nodup_withKid.mp hnodup
  exact ⟨hread, (LinkedTree.laidOut_withKid.mp hlaid).2.1, hkid, hn⟩

variable [DecidableEq ι]

/-- What was read is written back. -/
theorem Store.write_read {m : Store ι T} {cur : Slot ι} {p : Option Nat}
    (h : m.read cur = some p) : m.write cur p = m := by
  obtain ⟨heap, tries⟩ := m
  cases cur with
  | root o f =>
    obtain ⟨t, ht, rfl⟩ := Option.map_eq_some_iff.mp h
    simp only [write, Store.mk.injEq, true_and]
    apply Function.update_eq_self_iff.mpr
    change (tries o).map (fun t' => t'.setRoot f (t.root f)) = tries o
    change tries o = some t at ht
    rw [ht, Option.map_some, Trie.setRoot_root]
  | link n side =>
    obtain ⟨c, hc, rfl⟩ := Option.map_eq_some_iff.mp h
    simp only [write, Store.mk.injEq, and_true]
    apply Heap.modify_eq_self _
    change heap.cells n = some c at hc
    rw [hc, Option.map_some, Cell.setLink_link]

/-- The operation has put `t'` where `t` was. -/
structure Turns (m : Store ι T) (cur : Slot ι) (t : LinkedTree (Payload T)) (m' : Store ι T)
    (t' : LinkedTree (Payload T)) : Prop where
  replaces : Replaces (m.write cur t'.root).heap t m'.heap t'
  tries : m'.tries = (m.write cur t'.root).tries

namespace Turns

variable {m m' : Store ι T} {cur : Slot ι} {t t' t'' : LinkedTree (Payload T)}

theorem refl (h : Holds m cur t) : Turns m cur t m t := by
  have hwrite := Store.write_read h.read
  refine ⟨?_, ?_⟩
  · rw [hwrite]
    exact .refl h.laid h.nodup
  · rw [hwrite]

/-- A tree is replaced, and then the pointer is written. -/
theorem of_replaces (h : Holds m cur t) {heap : Heap (Payload T)}
    (hr : Replaces m.heap t heap t') :
    Turns m cur t (({ m with heap := heap } : Store ι T).write cur t'.root) t' := by
  cases cur with
  | root o f => exact ⟨hr, rfl⟩
  | link n side => exact ⟨hr.modify h.off (m.heap.lt n h.live) _, rfl⟩

/-- What comes after leaves the root of the tree where it is. -/
theorem followed (h : Turns m cur t m' t') (hroot : t'.root = t''.root) {heap : Heap (Payload T)}
    (hr : Replaces m'.heap t' heap t'') : Turns m cur t { m' with heap := heap } t'' := by
  obtain ⟨hreplaces, htries⟩ := h
  rw [hroot] at hreplaces htries
  exact ⟨hreplaces.trans hr, htries⟩

/-- **A subtree is turned into another.** -/
theorem of_kid {n : Nat} {l r c : LinkedTree (Payload T)} {v : Payload T} {side : Bool}
    (hlaid : (LinkedTree.node n l r v).LaidOut m.heap.cells)
    (hnodup : (LinkedTree.node n l r v).addrs.Nodup)
    (h : Turns m (.link n side) (LinkedTree.kid l r side) m' c) :
    Replaces m.heap (.node n l r v) m'.heap (LinkedTree.withKid n l r v side c) ∧
      m' = { m with heap := m'.heap } := by
  refine ⟨.kid hlaid hnodup h.replaces, ?_⟩
  obtain ⟨heap', tries'⟩ := m'
  have htries : tries' = m.tries := h.tries
  rw [htries]

end Turns

/-! ## `destroy` -/

/-- **`destroy` deletes the nodes of the tree** and leaves a null pointer. -/
theorem destroy_spec {t : LinkedTree (Payload T)} :
    ∀ (fuel : Nat) {m : Store ι T} {cur : Slot ι}, Holds m cur t → t.addrs.length ≤ fuel →
      ∃ m', m.destroy fuel cur = some m' ∧ Turns m cur t m' .null := by
  induction t with
  | null =>
    intro fuel m cur h _
    have hread : m.read cur = some none := h.read
    refine ⟨m, ?_, .refl h⟩
    cases fuel with
    | zero => rw [Store.destroy, if_pos hread]
    | succ fuel => rw [Store.destroy, hread]
  | node n l r v ihl ihr =>
    intro fuel m cur h hfuel
    simp only [LinkedTree.addrs, List.length_cons, List.length_append] at hfuel
    obtain ⟨fuel, rfl⟩ : ∃ k, fuel = k + 1 := ⟨fuel - 1, by omega⟩
    obtain ⟨m₁, hm₁, hturn₁⟩ := ihl fuel (Holds.kid h.laid h.nodup false) (by omega)
    obtain ⟨hr₁, heq₁⟩ := hturn₁.of_kid h.laid h.nodup
    obtain ⟨m₂, hm₂, hturn₂⟩ := ihr fuel (Holds.kid hr₁.laid hr₁.nodup true) (by omega)
    obtain ⟨hr₂, heq₂⟩ := hturn₂.of_kid hr₁.laid hr₁.nodup
    obtain ⟨heap, hdelete, hr₃⟩ := Replaces.delete hr₂.laid.1
    refine ⟨({ m with heap := heap } : Store ι T).write cur none, ?_, ?_⟩
    · have hread : m.read cur = some (some n) := h.read
      rw [Store.destroy, hread]
      simp only [hm₁, hm₂, hdelete, Option.bind_some, Option.map_some]
      rw [heq₂, heq₁]
    · exact Turns.of_replaces h ((hr₁.trans hr₂).trans hr₃)

/-! ## `insert` -/

variable [Inhabited T]

/-- After `if (!*cur) *cur = ...` there is a node at `cur`. -/
theorem orNew_spec {m : Store ι T} {cur : Slot ι} {t : LinkedTree (Payload T)}
    (h : Holds m cur t) : ∃ m' n l r v, m.orNew cur = some (m', n) ∧
      Turns m cur t m' (.node n l r v) ∧
      (erase t).orNew = .mk (erase l) (erase r) v.value v.hasValue := by
  cases t with
  | null =>
    have hread : m.read cur = some none := h.read
    let heap := m.heap.alloc ⟨none, none, default, false⟩
    refine ⟨({ m with heap := heap } : Store ι T).write cur (some m.heap.next), m.heap.next, .null,
      .null, ⟨default, false⟩, ?_, ?_, rfl⟩
    · rw [Store.orNew, hread]
    · exact Turns.of_replaces h (Replaces.alloc m.heap ⟨default, false⟩)
  | node n l r v =>
    have hread : m.read cur = some (some n) := h.read
    refine ⟨m, n, l, r, v, ?_, .refl h, rfl⟩
    rw [Store.orNew, hread]

/-- **`insert` does in memory what it does to the value.** -/
theorem insertLoop_spec (a : IpAddr) (v : T) : ∀ (bits : List Nat) {m : Store ι T} {cur : Slot ι}
    {t : LinkedTree (Payload T)}, Holds m cur t →
      ∃ m' t', Store.insertLoop a v bits m cur = some m' ∧ Turns m cur t m' t' ∧
        erase t' = (erase t).insertFrom a v bits := by
  intro bits
  induction bits with
  | nil =>
    intro m cur t h
    obtain ⟨m₁, n, l, r, w, hnew, hturn, herase⟩ := orNew_spec h
    have hcell := hturn.replaces.laid.1
    have hval := Replaces.setVal (⟨v, true⟩ : Payload T) hturn.replaces.laid hturn.replaces.nodup
    refine ⟨_, .node n l r ⟨v, true⟩, ?_, hturn.followed ?_ hval, ?_⟩
    · rw [Store.insertLoop, hnew, Option.bind_some, Store.setValue, hcell, Option.map_some]
    · rfl
    · simp only [Node.insertFrom, herase, Node.left, Node.right, erase]
  | cons bit bits ih =>
    intro m cur t h
    obtain ⟨m₁, n, l, r, w, hnew, hturn, herase⟩ := orNew_spec h
    have hlaid := hturn.replaces.laid
    have hnodup := hturn.replaces.nodup
    obtain ⟨m₂, c, hinsert, hkid, hc⟩ := ih (Holds.kid hlaid hnodup (bitOf a bit))
    obtain ⟨hr, heq⟩ := hkid.of_kid hlaid hnodup
    refine ⟨m₂, LinkedTree.withKid n l r w (bitOf a bit) c, ?_, ?_, ?_⟩
    · rw [Store.insertLoop, hnew, Option.bind_some, hinsert]
    · rw [heq]
      exact hturn.followed (LinkedTree.root_withKid n l r w _ c).symm hr
    · rw [Node.insertFrom, herase]
      simp only [Node.left, Node.right, Node.value, Node.hasValue]
      cases hb : bitOf a bit with
      | false =>
        rw [hb] at hc
        simp only [LinkedTree.withKid, erase, hc, LinkedTree.kid, Bool.false_eq_true, if_false]
      | true =>
        rw [hb] at hc
        simp only [LinkedTree.withKid, erase, hc, LinkedTree.kid, if_true]

/-! ## `lookup` -/

omit [DecidableEq ι] [Inhabited T] in
/-- **`lookup` answers in memory what it answers on the value.** -/
theorem lookupLoop_spec {m : Store ι T} (a : IpAddr) : ∀ (bits : List Nat)
    {t : LinkedTree (Payload T)}, t.LaidOut m.heap.cells → ∀ best : Option T,
      m.lookupLoop a bits t.root best = some ((erase t).lookupFrom a bits best) := by
  intro bits
  induction bits with
  | nil =>
    intro t ht best
    cases t with
    | null => rfl
    | node n l r v =>
      rw [LinkedTree.root, Store.lookupLoop, ht.1, Option.map_some]
      rfl
  | cons bit bits ih =>
    intro t ht best
    cases t with
    | null => rfl
    | node n l r v =>
      rw [LinkedTree.root, Store.lookupLoop, ht.1, Option.bind_some]
      simp only [erase, Node.lookupFrom]
      cases bitOf a bit with
      | false => exact ih ht.2.1 _
      | true => exact ih ht.2.2 _

end Cfd.Net.TrieHeap
