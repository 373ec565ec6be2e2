import Mathlib.Data.List.Perm.Subperm
import Mathlib.Logic.Function.Basic

/-!
# Binary trees of linked nodes

Nodes are allocated in a heap, numbered in that order, and refer to each other by their numbers. A
`Heap` counts what is deleted: a node that has been allocated is there or has been deleted once, and
`delete` of a node that is not there has no result.

`LinkedTree` is a tree that says where its nodes are, and `LaidOut` that they are there. A `Forest`
is a heap with a tree for every key, none of whose nodes is in two places, and all of whose nodes
are in one: so a node is reachable from exactly one of the roots (`Forest.sole`).

`Replaces` is the contract of an operation on one of the trees: another tree stands where it stood,
made of its nodes and of new ones, and nothing else has changed. Contracts compose
(`Replaces.trans`), pass from a subtree to the tree (`Replaces.kid`), and keep a forest
(`Forest.replace`).
-/

set_option autoImplicit false

namespace Cfd.Base

/-- A node in memory: the links, and what else is in it. -/
structure Cell (V : Type) where
  left : Option Nat
  right : Option Nat
  val : V

namespace Cell

variable {V : Type}

/-- The link on a side; `true` is the right one. -/
def link (c : Cell V) : Bool → Option Nat
  | false => c.left
  | true => c.right

def setLink (c : Cell V) (side : Bool) (p : Option Nat) : Cell V :=
  match side with
  | false => { c with left := p }
  | true => { c with right := p }

theorem setLink_link (c : Cell V) (side : Bool) : c.setLink side (c.link side) = c := by
  cases side <;> rfl

end Cell

/-- Nodes in memory, and the numbers that have been deleted. -/
structure Heap (V : Type) where
  next : Nat
  cells : Nat → Option (Cell V)
  deleted : List Nat
  lt : ∀ n, cells n ≠ none → n < next
  once : ∀ n, n < next → cells n = none → deleted.count n = 1
  never : ∀ n, deleted.count n ≠ 0 → n < next ∧ cells n = none

namespace Heap

variable {V : Type}

theorem empty_lt (n : Nat) (h : (none : Option (Cell V)) ≠ none) : n < 0 := absurd rfl h

theorem empty_once (n : Nat) (h : n < 0) (_ : (none : Option (Cell V)) = none) :
    ([] : List Nat).count n = 1 := absurd h (Nat.not_lt_zero n)

theorem empty_never (n : Nat) (h : ([] : List Nat).count n ≠ 0) :
    n < 0 ∧ (none : Option (Cell V)) = none := absurd rfl h

/-- Nothing has been allocated. -/
def empty : Heap V where
  next := 0
  cells _ := none
  deleted := []
  lt := empty_lt
  once := empty_once
  never := empty_never

variable (h : Heap V)

theorem alloc_lt (c : Cell V) (n : Nat) (hn : Function.update h.cells h.next (some c) n ≠ none) :
    n < h.next + 1 := by
  by_cases heq : n = h.next
  · rw [heq]
    exact Nat.lt_succ_self _
  · rw [Function.update_of_ne heq] at hn
    exact Nat.lt_succ_of_lt (h.lt n hn)

theorem alloc_once (c : Cell V) (n : Nat) (hlt : n < h.next + 1)
    (hn : Function.update h.cells h.next (some c) n = none) : h.deleted.count n = 1 := by
  by_cases heq : n = h.next
  · rw [heq, Function.update_self] at hn
    cases hn
  · rw [Function.update_of_ne heq] at hn
    exact h.once n (Nat.lt_of_le_of_ne (Nat.le_of_lt_succ hlt) heq) hn

theorem alloc_never (c : Cell V) (n : Nat) (hn : h.deleted.count n ≠ 0) :
    n < h.next + 1 ∧ Function.update h.cells h.next (some c) n = none := by
  obtain ⟨hlt, hnone⟩ := h.never n hn
  refine ⟨Nat.lt_succ_of_lt hlt, ?_⟩
  rw [Function.update_of_ne (Nat.ne_of_lt hlt), hnone]

/-- A new node, which gets the number `h.next`. -/
def alloc (c : Cell V) : Heap V where
  next := h.next + 1
  cells := Function.update h.cells h.next (some c)
  deleted := h.deleted
  lt := h.alloc_lt c
  once := h.alloc_once c
  never := h.alloc_never c

theorem modify_eq_none (n : Nat) (f : Cell V → Cell V) (m : Nat) :
    Function.update h.cells n ((h.cells n).map f) m = none ↔ h.cells m = none := by
  by_cases heq : m = n
  · rw [heq, Function.update_self, Option.map_eq_none_iff]
  · rw [Function.update_of_ne heq]

/-- A node is written to, if it is there. -/
def modify (n : Nat) (f : Cell V → Cell V) : Heap V where
  next := h.next
  cells := Function.update h.cells n ((h.cells n).map f)
  deleted := h.deleted
  lt m hm := h.lt m fun hnone => hm ((h.modify_eq_none n f m).mpr hnone)
  once m hlt hm := h.once m hlt ((h.modify_eq_none n f m).mp hm)
  never m hm := ⟨(h.never m hm).1, (h.modify_eq_none n f m).mpr (h.never m hm).2⟩

theorem free_lt (n m : Nat) (hm : Function.update h.cells n none m ≠ none) : m < h.next := by
  by_cases heq : m = n
  · rw [heq, Function.update_self] at hm
    exact absurd rfl hm
  · rw [Function.update_of_ne heq] at hm
    exact h.lt m hm

theorem free_once (n : Nat) (hn : h.cells n ≠ none) (m : Nat) (hlt : m < h.next)
    (hm : Function.update h.cells n none m = none) : (h.deleted ++ [n]).count m = 1 := by
  by_cases heq : m = n
  · have hzero : h.deleted.count n = 0 := by
      by_contra hne
      exact hn (h.never n hne).2
    rw [heq, List.count_append, hzero, List.count_singleton_self]
  · rw [Function.update_of_ne heq] at hm
    rw [List.count_append, h.once m hlt hm, List.count_cons_of_ne (Ne.symm heq)]
    rfl

theorem free_never (n : Nat) (hn : h.cells n ≠ none) (m : Nat)
    (hm : (h.deleted ++ [n]).count m ≠ 0) :
    m < h.next ∧ Function.update h.cells n none m = none := by
  by_cases heq : m = n
  · rw [heq, Function.update_self]
    exact ⟨h.lt n hn, rfl⟩
  · rw [List.count_append, List.count_cons_of_ne (Ne.symm heq)] at hm
    rw [Function.update_of_ne heq]
    exact h.never m hm

/-- A node that is there is deleted. -/
def free (n : Nat) (hn : h.cells n ≠ none) : Heap V where
  next := h.next
  cells := Function.update h.cells n none
  deleted := h.deleted ++ [n]
  lt := h.free_lt n
  once := h.free_once n hn
  never := h.free_never n hn

/-- `delete`: of a node that is not there, it has no result. -/
def delete (n : Nat) : Option (Heap V) :=
  if hn : h.cells n ≠ none then some (h.free n hn) else none

@[simp] theorem next_alloc (c : Cell V) : (h.alloc c).next = h.next + 1 := rfl

@[simp] theorem next_modify (n : Nat) (f : Cell V → Cell V) : (h.modify n f).next = h.next := rfl

@[simp] theorem cells_alloc_self (c : Cell V) : (h.alloc c).cells h.next = some c :=
  Function.update_self ..

theorem cells_alloc_of_ne (c : Cell V) {n : Nat} (hn : n ≠ h.next) :
    (h.alloc c).cells n = h.cells n :=
  Function.update_of_ne hn ..

@[simp] theorem cells_modify_self (n : Nat) (f : Cell V → Cell V) :
    (h.modify n f).cells n = (h.cells n).map f :=
  Function.update_self ..

/-- To write what is there changes nothing. -/
theorem modify_eq_self {n : Nat} {f : Cell V → Cell V} (hf : (h.cells n).map f = h.cells n) :
    h.modify n f = h := by
  obtain ⟨next, cells, deleted, _, _, _⟩ := h
  simp only [modify, Heap.mk.injEq, true_and, and_true]
  exact Function.update_eq_self_iff.mpr hf

theorem cells_modify_of_ne {n m : Nat} (hm : m ≠ n) (f : Cell V → Cell V) :
    (h.modify n f).cells m = h.cells m :=
  Function.update_of_ne hm ..

end Heap

/-! ## Trees, and where they are -/

/-- A tree with the numbers of its nodes. -/
inductive LinkedTree (V : Type)
  | null
  | node (addr : Nat) (left right : LinkedTree V) (val : V)

namespace LinkedTree

variable {V : Type}

/-- The pointer to the tree. -/
def root : LinkedTree V → Option Nat
  | null => none
  | node a _ _ _ => some a

theorem eq_null_of_root {t : LinkedTree V} (h : t.root = none) : t = .null := by
  cases t with
  | null => rfl
  | node => cases h

/-- The nodes of the tree. -/
def addrs : LinkedTree V → List Nat
  | null => []
  | node a l r _ => a :: (l.addrs ++ r.addrs)

/-- The nodes are in memory, linked as in the tree. -/
def LaidOut (cells : Nat → Option (Cell V)) : LinkedTree V → Prop
  | null => True
  | node a l r v => cells a = some ⟨l.root, r.root, v⟩ ∧ l.LaidOut cells ∧ r.LaidOut cells

/-- The subtree on a side. -/
def kid (l r : LinkedTree V) : Bool → LinkedTree V
  | false => l
  | true => r

/-- The node with another subtree on a side. -/
def withKid (a : Nat) (l r : LinkedTree V) (v : V) (side : Bool) (t : LinkedTree V) :
    LinkedTree V :=
  match side with
  | false => node a t r v
  | true => node a l t v

/-- A tree is where it was as long as its nodes are as they were. -/
theorem LaidOut.congr {cells cells' : Nat → Option (Cell V)} {t : LinkedTree V}
    (ht : t.LaidOut cells) (hsame : ∀ a ∈ t.addrs, cells' a = cells a) : t.LaidOut cells' := by
  induction t with
  | null => trivial
  | node a l r v ihl ihr =>
    obtain ⟨ha, hl, hr⟩ := ht
    simp only [addrs, List.mem_cons, List.mem_append] at hsame
    refine ⟨(hsame a (Or.inl rfl)).trans ha, ihl hl fun b hb => ?_, ihr hr fun b hb => ?_⟩
    · exact hsame b (Or.inr (Or.inl hb))
    · exact hsame b (Or.inr (Or.inr hb))

theorem LaidOut.live {cells : Nat → Option (Cell V)} {t : LinkedTree V} (ht : t.LaidOut cells) :
    ∀ a ∈ t.addrs, cells a ≠ none := by
  induction t with
  | null =>
    intro a ha
    cases ha
  | node a l r v ihl ihr =>
    obtain ⟨hcell, hl, hr⟩ := ht
    intro b hb
    rcases List.mem_cons.mp hb with rfl | hb
    · rw [hcell]
      exact Option.some_ne_none _
    · rcases List.mem_append.mp hb with hb | hb
      · exact ihl hl b hb
      · exact ihr hr b hb

/-- The nodes that are reached from a pointer by following links. -/
inductive Reaches (cells : Nat → Option (Cell V)) : Option Nat → Nat → Prop
  | here (a : Nat) : Reaches cells (some a) a
  | link {a b : Nat} {c : Cell V} (side : Bool) : cells a = some c →
      Reaches cells (c.link side) b → Reaches cells (some a) b

theorem not_reaches_none {cells : Nat → Option (Cell V)} {n : Nat} : ¬ Reaches cells none n := by
  intro h
  cases h

/-- **From the root of a tree, its nodes are reached.** -/
theorem LaidOut.reaches_iff {cells : Nat → Option (Cell V)} {t : LinkedTree V}
    (ht : t.LaidOut cells) {n : Nat} : Reaches cells t.root n ↔ n ∈ t.addrs := by
  induction t with
  | null => exact ⟨fun h => absurd h not_reaches_none, fun h => by cases h⟩
  | node a l r v ihl ihr =>
    obtain ⟨ha, hl, hr⟩ := ht
    constructor
    · intro h
      cases h with
      | here => exact List.mem_cons_self
      | @link _ _ c side hc hreach =>
        cases ha.symm.trans hc
        refine List.mem_cons_of_mem _ (List.mem_append.mpr ?_)
        cases side with
        | false => exact Or.inl ((ihl hl).mp hreach)
        | true => exact Or.inr ((ihr hr).mp hreach)
    · intro h
      rcases List.mem_cons.mp h with rfl | h
      · exact .here n
      · rcases List.mem_append.mp h with h | h
        · exact .link false ha ((ihl hl).mpr h)
        · exact .link true ha ((ihr hr).mpr h)

/-- A tree has no more nodes than have been allocated. -/
theorem LaidOut.length_le {h : Heap V} {t : LinkedTree V} (ht : t.LaidOut h.cells)
    (hnodup : t.addrs.Nodup) : t.addrs.length ≤ h.next := by
  have hsub : t.addrs ⊆ List.range h.next := fun a ha =>
    List.mem_range.mpr (h.lt a (ht.live a ha))
  have hle := (List.subperm_of_subset hnodup hsub).length_le
  rwa [List.length_range] at hle

/-! ## A node by one of its sides -/

theorem withKid_kid (a : Nat) (l r : LinkedTree V) (v : V) (side : Bool) :
    withKid a l r v side (kid l r side) = node a l r v := by
  cases side <;> rfl

@[simp] theorem root_withKid (a : Nat) (l r : LinkedTree V) (v : V) (side : Bool)
    (t : LinkedTree V) : (withKid a l r v side t).root = some a := by
  cases side <;> rfl

theorem mem_withKid {a : Nat} {l r t : LinkedTree V} {v : V} {side : Bool} {b : Nat} :
    b ∈ (withKid a l r v side t).addrs ↔ b = a ∨ b ∈ t.addrs ∨ b ∈ (kid l r !side).addrs := by
  cases side with
  | false => simp only [withKid, addrs, kid, List.mem_cons, List.mem_append, Bool.not_false]
  | true =>
    simp only [withKid, addrs, kid, List.mem_cons, List.mem_append, Bool.not_true,
      or_comm (a := b ∈ t.addrs)]

theorem nodup_withKid {a : Nat} {l r t : LinkedTree V} {v : V} {side : Bool} :
    (withKid a l r v side t).addrs.Nodup ↔
      (a ∉ t.addrs ∧ a ∉ (kid l r !side).addrs) ∧ t.addrs.Nodup ∧ (kid l r !side).addrs.Nodup ∧
        ∀ b ∈ t.addrs, b ∉ (kid l r !side).addrs := by
  cases side with
  | false =>
    simp only [withKid, addrs, kid, List.nodup_cons, List.nodup_append, List.mem_append, not_or,
      Bool.not_false]
    refine and_congr_right fun _ => and_congr_right fun _ => and_congr_right fun _ => ?_
    exact ⟨fun h b hb hb' => h b hb b hb' rfl, fun h b hb c hc heq => h b hb (heq ▸ hc)⟩
  | true =>
    simp only [withKid, addrs, kid, List.nodup_cons, List.nodup_append, List.mem_append, not_or,
      Bool.not_true]
    constructor
    · intro h
      obtain ⟨⟨hal, hat⟩, hl, ht, hdisj⟩ := h
      exact ⟨⟨hat, hal⟩, ht, hl, fun b hb hb' => hdisj b hb' b hb rfl⟩
    · intro h
      obtain ⟨⟨hat, hal⟩, ht, hl, hdisj⟩ := h
      exact ⟨⟨hal, hat⟩, hl, ht, fun b hb c hc heq => hdisj c hc (heq ▸ hb)⟩

theorem laidOut_withKid {cells : Nat → Option (Cell V)} {a : Nat} {l r t : LinkedTree V} {v : V}
    {side : Bool} : (withKid a l r v side t).LaidOut cells ↔
      cells a = some ((⟨l.root, r.root, v⟩ : Cell V).setLink side t.root) ∧ t.LaidOut cells ∧
        (kid l r !side).LaidOut cells := by
  cases side with
  | false => exact Iff.rfl
  | true => exact and_congr_right fun _ => and_comm

end LinkedTree

/-! ## What an operation on one tree may do -/

open LinkedTree (kid withKid)

variable {V : Type}

/-- Where `t` stood in `h` stands `t'` in `h'`: it is made of nodes of `t` and of new ones, all that
there is of these is in it, and the other nodes are as they were. -/
structure Replaces (h : Heap V) (t : LinkedTree V) (h' : Heap V) (t' : LinkedTree V) : Prop where
  next_le : h.next ≤ h'.next
  laid : t'.LaidOut h'.cells
  nodup : t'.addrs.Nodup
  new : ∀ a ∈ t'.addrs, a ∈ t.addrs ∨ h.next ≤ a
  frame : ∀ a, a ∉ t.addrs → a < h.next → h'.cells a = h.cells a
  cover : ∀ a, a ∈ t.addrs ∨ h.next ≤ a → h'.cells a ≠ none → a ∈ t'.addrs

namespace Replaces

variable {h h' h'' : Heap V} {t t' t'' : LinkedTree V}

theorem refl (ht : t.LaidOut h.cells) (hnodup : t.addrs.Nodup) : Replaces h t h t where
  next_le := Nat.le_refl _
  laid := ht
  nodup := hnodup
  new _ ha := Or.inl ha
  frame _ _ _ := rfl
  cover a ha hlive := ha.resolve_right (Nat.not_le.mpr (h.lt a hlive))

/-- **Contracts compose.** -/
theorem trans (h₁ : Replaces h t h' t') (h₂ : Replaces h' t' h'' t'') : Replaces h t h'' t'' where
  next_le := Nat.le_trans h₁.next_le h₂.next_le
  laid := h₂.laid
  nodup := h₂.nodup
  new a ha := by
    rcases h₂.new a ha with hold | hnew
    · exact h₁.new a hold
    · exact Or.inr (Nat.le_trans h₁.next_le hnew)
  frame a ha hlt := by
    have hnot : a ∉ t'.addrs := fun hmem =>
      (h₁.new a hmem).elim ha fun hnew => absurd hlt (Nat.not_lt.mpr hnew)
    exact (h₂.frame a hnot (Nat.lt_of_lt_of_le hlt h₁.next_le)).trans (h₁.frame a ha hlt)
  cover a ha hlive := by
    by_cases hown : a ∈ t'.addrs ∨ h'.next ≤ a
    · exact h₂.cover a hown hlive
    · obtain ⟨hnot, hlt⟩ := not_or.mp hown
      rw [h₂.frame a hnot (Nat.lt_of_not_le hlt)] at hlive
      exact absurd (h₁.cover a ha hlive) hnot

/-- A node is written to that is not in the tree, before the operation or after it. -/
theorem modify (hr : Replaces h t h' t') {m : Nat} (hm : m ∉ t.addrs) (hlt : m < h.next)
    (f : Cell V → Cell V) : Replaces (h.modify m f) t (h'.modify m f) t' where
  next_le := hr.next_le
  laid := by
    refine hr.laid.congr fun a ha => Heap.cells_modify_of_ne _ ?_ f
    intro heq
    subst heq
    exact (hr.new a ha).elim hm fun hnew => absurd hlt (Nat.not_lt.mpr hnew)
  nodup := hr.nodup
  new := hr.new
  frame a ha hlt' := by
    by_cases heq : a = m
    · rw [heq, Heap.cells_modify_self, Heap.cells_modify_self, hr.frame m hm hlt]
    · rw [Heap.cells_modify_of_ne _ heq, Heap.cells_modify_of_ne _ heq, hr.frame a ha hlt']
  cover a ha hlive := hr.cover a ha fun hnone => hlive ((h'.modify_eq_none m f a).mpr hnone)

/-- **From a subtree to the tree**: the node is linked to the root of what comes to stand there. -/
theorem kid {n : Nat} {l r c : LinkedTree V} {v : V} {side : Bool}
    (hlaid : (LinkedTree.node n l r v).LaidOut h.cells)
    (hnodup : (LinkedTree.node n l r v).addrs.Nodup)
    (hr : Replaces (h.modify n fun x => x.setLink side c.root) (kid l r side) h' c) :
    Replaces h (.node n l r v) h' (withKid n l r v side c) := by
  have hcell : h.cells n = some ⟨l.root, r.root, v⟩ := hlaid.1
  have hlive := hlaid.live
  rw [← LinkedTree.withKid_kid n l r v side] at hlaid hnodup hlive ⊢
  obtain ⟨-, -, hother⟩ := LinkedTree.laidOut_withKid.mp hlaid
  obtain ⟨⟨hn, hno⟩, -, hnodupo, hdisj⟩ := LinkedTree.nodup_withKid.mp hnodup
  have hlt : n < h.next := h.lt n (hlive n (LinkedTree.mem_withKid.mpr (Or.inl rfl)))
  have hlto : ∀ a ∈ (LinkedTree.kid l r !side).addrs, a < h.next := fun a ha =>
    h.lt a (hother.live a ha)
  have hsame : ∀ a, a ≠ n → a ∉ (LinkedTree.kid l r side).addrs → a < h.next →
      h'.cells a = h.cells a := by
    intro a hne hnot hlt
    exact (hr.frame a hnot hlt).trans (Heap.cells_modify_of_ne _ hne _)
  refine ⟨hr.next_le, ?_, ?_, ?_, ?_, ?_⟩
  · refine LinkedTree.laidOut_withKid.mpr ⟨?_, hr.laid, hother.congr fun a ha => ?_⟩
    · rw [hr.frame n hn hlt, Heap.cells_modify_self, hcell]
      rfl
    · refine hsame a ?_ (fun hmem => hdisj a hmem ha) (hlto a ha)
      intro heq
      subst heq
      exact hno ha
  · have hc : ∀ a ∈ c.addrs, a ∉ (LinkedTree.kid l r !side).addrs := fun a ha ha' =>
      (hr.new a ha).elim (fun hold => hdisj a hold ha')
        fun hnew => absurd (hlto a ha') (Nat.not_lt.mpr hnew)
    have hnc : n ∉ c.addrs := fun hmem =>
      (hr.new n hmem).elim hn fun hnew => absurd hlt (Nat.not_lt.mpr hnew)
    exact LinkedTree.nodup_withKid.mpr ⟨⟨hnc, hno⟩, hr.nodup, hnodupo, hc⟩
  · intro a ha
    rcases LinkedTree.mem_withKid.mp ha with rfl | hmem | hmem
    · exact Or.inl (LinkedTree.mem_withKid.mpr (Or.inl rfl))
    · exact (hr.new a hmem).imp_left fun hold => LinkedTree.mem_withKid.mpr (Or.inr (Or.inl hold))
    · exact Or.inl (LinkedTree.mem_withKid.mpr (Or.inr (Or.inr hmem)))
  · intro a ha hlt
    have hnot : ¬ (a = n ∨ a ∈ (LinkedTree.kid l r side).addrs ∨
      a ∈ (LinkedTree.kid l r !side).addrs) := fun hmem => ha (LinkedTree.mem_withKid.mpr hmem)
    obtain ⟨hne, hnot⟩ := not_or.mp hnot
    exact hsame a hne (not_or.mp hnot).1 hlt
  · intro a ha hlive
    apply LinkedTree.mem_withKid.mpr
    rcases ha with hmem | hnew
    · rcases LinkedTree.mem_withKid.mp hmem with rfl | hmem | hmem
      · exact Or.inl rfl
      · exact Or.inr (Or.inl (hr.cover a (Or.inl hmem) hlive))
      · exact Or.inr (Or.inr hmem)
    · exact Or.inr (Or.inl (hr.cover a (Or.inr hnew) hlive))

/-- A new node is a tree. -/
theorem alloc (h : Heap V) (v : V) :
    Replaces h .null (h.alloc ⟨none, none, v⟩) (.node h.next .null .null v) where
  next_le := Nat.le_succ _
  laid := ⟨h.cells_alloc_self _, trivial, trivial⟩
  nodup := List.nodup_cons.mpr ⟨List.not_mem_nil, List.nodup_nil⟩
  new a ha := by
    rw [List.mem_singleton.mp ha]
    exact Or.inr (Nat.le_refl _)
  frame a _ hlt := h.cells_alloc_of_ne _ (Nat.ne_of_lt hlt)
  cover a ha hlive := by
    have hlt := (h.alloc _).lt a hlive
    refine List.mem_singleton.mpr (Nat.le_antisymm (Nat.le_of_lt_succ hlt) ?_)
    exact ha.resolve_left List.not_mem_nil

/-- The value at the root is written. -/
theorem setVal {n : Nat} {l r : LinkedTree V} {v : V} (w : V)
    (hlaid : (LinkedTree.node n l r v).LaidOut h.cells)
    (hnodup : (LinkedTree.node n l r v).addrs.Nodup) :
    Replaces h (.node n l r v) (h.modify n fun c => { c with val := w }) (.node n l r w) := by
  have hne : ∀ a, a ∈ l.addrs ++ r.addrs → a ≠ n := fun a ha heq =>
    (List.nodup_cons.mp hnodup).1 (heq ▸ ha)
  have hsame : ∀ a, a ≠ n → (h.modify n fun c => { c with val := w }).cells a = h.cells a :=
    fun a hne => Heap.cells_modify_of_ne _ hne _
  refine ⟨Nat.le_refl _, ⟨?_, hlaid.2.1.congr fun a ha => ?_, hlaid.2.2.congr fun a ha => ?_⟩,
    hnodup, fun a ha => Or.inl ha, ?_, ?_⟩
  · rw [Heap.cells_modify_self, hlaid.1]
    rfl
  · exact hsame a (hne a (List.mem_append_left _ ha))
  · exact hsame a (hne a (List.mem_append_right _ ha))
  · intro a ha _
    apply hsame a
    intro heq
    subst heq
    exact ha List.mem_cons_self
  · intro a ha hlive
    exact ha.resolve_right (Nat.not_le.mpr ((h.modify n _).lt a hlive))

/-- A node without subtrees is deleted. -/
theorem delete {n : Nat} {v : V} (hn : h.cells n = some ⟨none, none, v⟩) :
    ∃ h', h.delete n = some h' ∧ Replaces h (.node n .null .null v) h' .null := by
  have hlive : h.cells n ≠ none := by
    rw [hn]
    exact Option.some_ne_none _
  refine ⟨h.free n hlive, dif_pos hlive, Nat.le_refl _, trivial, List.nodup_nil, ?_, ?_, ?_⟩
  · intro a ha
    cases ha
  · intro a ha _
    refine Function.update_of_ne ?_ ..
    intro heq
    subst heq
    exact ha (List.mem_singleton_self a)
  · intro a ha hlive'
    have hold := ha.resolve_right (Nat.not_le.mpr ((h.free n hlive).lt a hlive'))
    rw [List.mem_singleton.mp hold] at hlive'
    exact absurd (Function.update_self ..) hlive'

end Replaces

/-! ## A tree for every key -/

variable {κ : Type}

/-- The trees are in the heap, they have no nodes in common, and they are all there is. -/
structure Forest (h : Heap V) (trees : κ → LinkedTree V) : Prop where
  laid : ∀ k, (trees k).LaidOut h.cells
  nodup : ∀ k, (trees k).addrs.Nodup
  apart : ∀ k k' a, a ∈ (trees k).addrs → a ∈ (trees k').addrs → k = k'
  cover : ∀ a, h.cells a ≠ none → ∃ k, a ∈ (trees k).addrs

namespace Forest

variable {h h' : Heap V} {trees : κ → LinkedTree V}

/-- **A node is reached from exactly one root.** -/
theorem sole (hf : Forest h trees) {a : Nat} (ha : h.cells a ≠ none) :
    ∃! k, LinkedTree.Reaches h.cells (trees k).root a := by
  obtain ⟨k, hk⟩ := hf.cover a ha
  refine ⟨k, (hf.laid k).reaches_iff.mpr hk, fun k' hk' => ?_⟩
  exact hf.apart k' k a ((hf.laid k').reaches_iff.mp hk') hk

/-- Where the trees are empty, there are no nodes. -/
theorem cells_eq_none (hf : Forest h trees) (hnull : ∀ k, trees k = .null) (a : Nat) :
    h.cells a = none := by
  by_contra hlive
  obtain ⟨k, hk⟩ := hf.cover a hlive
  rw [hnull k] at hk
  cases hk

/-- **An operation on one of the trees keeps the forest.** -/
theorem replace [DecidableEq κ] (hf : Forest h trees) {k : κ} {t : LinkedTree V}
    (hr : Replaces h (trees k) h' t) : Forest h' (Function.update trees k t) := by
  have hlt : ∀ k' a, a ∈ (trees k').addrs → a < h.next := fun k' a ha =>
    h.lt a ((hf.laid k').live a ha)
  have hself : Function.update trees k t k = t := Function.update_self ..
  have hother : ∀ k', k' ≠ k → Function.update trees k t k' = trees k' := fun k' hk' =>
    Function.update_of_ne hk' ..
  have hnew : ∀ k' a, k' ≠ k → a ∈ t.addrs → a ∉ (trees k').addrs := by
    intro k' a hk' ha ha'
    rcases hr.new a ha with hold | hnew
    · exact hk' (hf.apart k' k a ha' hold)
    · exact absurd (hlt k' a ha') (Nat.not_lt.mpr hnew)
  refine ⟨?_, ?_, ?_, ?_⟩
  · intro k'
    by_cases hk' : k' = k
    · rw [hk', hself]
      exact hr.laid
    · rw [hother k' hk']
      refine (hf.laid k').congr fun a ha => hr.frame a (fun hmem => ?_) (hlt k' a ha)
      exact hk' (hf.apart k' k a ha hmem)
  · intro k'
    by_cases hk' : k' = k
    · rw [hk', hself]
      exact hr.nodup
    · rw [hother k' hk']
      exact hf.nodup k'
  · intro k₁ k₂ a h₁ h₂
    by_cases hk₁ : k₁ = k
    · by_cases hk₂ : k₂ = k
      · exact hk₁.trans hk₂.symm
      · rw [hk₁, hself] at h₁
        rw [hother k₂ hk₂] at h₂
        exact absurd h₂ (hnew k₂ a hk₂ h₁)
    · rw [hother k₁ hk₁] at h₁
      by_cases hk₂ : k₂ = k
      · rw [hk₂, hself] at h₂
        exact absurd h₁ (hnew k₁ a hk₁ h₂)
      · rw [hother k₂ hk₂] at h₂
        exact hf.apart k₁ k₂ a h₁ h₂
  · intro a ha
    by_cases hown : a ∈ (trees k).addrs ∨ h.next ≤ a
    · refine ⟨k, ?_⟩
      rw [hself]
      exact hr.cover a hown ha
    · obtain ⟨hnot, hle⟩ := not_or.mp hown
      rw [hr.frame a hnot (Nat.lt_of_not_le hle)] at ha
      obtain ⟨k', hk'⟩ := hf.cover a ha
      refine ⟨k', ?_⟩
      rw [hother k' ?_]
      · exact hk'
      · intro heq
        subst heq
        exact hnot hk'

end Forest

end Cfd.Base
