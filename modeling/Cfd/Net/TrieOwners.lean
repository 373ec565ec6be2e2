import Cfd.Base.Machine
import Cfd.Net.TrieHeap

/-!
# Who owns the nodes of a trie

Any number of `LpmTrie` objects, which are constructed, moved and destroyed, with the nodes of all
of them in one heap. The root pointers are raw, so the defaulted moves copy them: the object that is
moved from has the same nodes afterwards, and those of the object that is assigned to are nobody's.

## What is proved

* `owners_iff`: in a run, every step leaves each node with exactly one owner, a trie that is moved
  from empty, and the other tries as they were, if and only if every step meets `EmptyMoves`: what
  is moved from another object is empty, and so is what is assigned to. In that case each node has
  been deleted once when no object is left.
* `double_free`: after a move of a trie with one node, two objects own the node, and when both are
  destroyed, the second one follows a pointer to a deleted node.
* `refines`: where the moves are such, the tries in memory answer as tries that are values.
-/

set_option autoImplicit false

namespace Cfd.Net.TrieHeap

open Cfd.Base

variable {ι T : Type}

/-- The operations. -/
inductive Act (ι T : Type)
  | construct (o : ι)
  | insert (o : ι) (c : Cidr) (v : T)
  | lookup (o : ι) (a : IpAddr)
  | moveConstruct (o src : ι)
  | moveAssign (o src : ι)
  | destroy (o : ι)

namespace Trie

/-- `LpmTrie() = default`. -/
def empty : Trie := ⟨none, none⟩

/-- `LpmTrie(LpmTrie&&) = default`: the new object, and the one that is moved from. -/
def moveConstruct (o : Trie) : Trie × Trie := (⟨o.rootV4, o.rootV6⟩, o)

/-- `operator=(LpmTrie&&) = default`: the object, and the one that is moved from. -/
def moveAssign (_t o : Trie) : Trie × Trie := (⟨o.rootV4, o.rootV6⟩, o)

@[simp] theorem root_empty (f : Family) : empty.root f = none := by
  cases f <;> rfl

/-- A trie other than the empty one has a node. -/
theorem exists_root {t : Trie} (h : t ≠ empty) : ∃ f a, t.root f = some a := by
  obtain ⟨v4, v6⟩ := t
  cases v4 with
  | some a => exact ⟨.V4, a, rfl⟩
  | none =>
    cases v6 with
    | some a => exact ⟨.V6, a, rfl⟩
    | none => exact absurd rfl h

end Trie

/-- The nodes and the objects; `none` once the behaviour is undefined. -/
abbrev State (ι T : Type) := Option (Store ι T)

namespace Store

/-- The object reaches the node. -/
def Owns (m : Store ι T) (o : ι) (n : Nat) : Prop :=
  ∃ t f, m.tries o = some t ∧ LinkedTree.Reaches m.heap.cells (t.root f) n

/-- Every node there is has one owner, and when no object is left, every node that there has been
has been deleted once. -/
structure Owned (m : Store ι T) : Prop where
  sole : ∀ n, m.heap.cells n ≠ none → ∃! o, m.Owns o n
  freed : (∀ o, m.tries o = none) → ∀ n < m.heap.next, m.heap.deleted.count n = 1

variable [DecidableEq ι]

def put (m : Store ι T) (o : ι) (t : Option Trie) : Store ι T :=
  { m with tries := Function.update m.tries o t }

/-- `~LpmTrie`. -/
def destruct (m : Store ι T) (o : ι) : Option (Store ι T) :=
  (m.destroy m.heap.next (.root o .V4)).bind fun m₁ =>
    (m₁.destroy m.heap.next (.root o .V6)).map fun m₂ => m₂.put o none

variable [Inhabited T]

/-- One operation, if the objects are there for it; without a result if its behaviour is undefined.
-/
def step (m : Store ι T) : Act ι T → Option (State ι T)
  | .construct o =>
    match m.tries o with
    | none => some (some (m.put o (some .empty)))
    | some _ => none
  | .insert o c v => (m.tries o).map fun _ => m.insert o c v
  | .lookup o a => (m.tries o).map fun _ => (m.lookup o a).map fun _ => m
  | .moveConstruct o src =>
    match m.tries o, m.tries src with
    | none, some t =>
      some (some ((m.put o (some t.moveConstruct.1)).put src (some t.moveConstruct.2)))
    | _, _ => none
  | .moveAssign o src =>
    match m.tries o, m.tries src with
    | some u, some t =>
      some (some ((m.put o (some (u.moveAssign t).1)).put src (some (u.moveAssign t).2)))
    | _, _ => none
  | .destroy o => (m.tries o).map fun _ => m.destruct o

end Store

/-- No objects, and no nodes. -/
def tries (ι T : Type) [DecidableEq ι] [Inhabited T] : Machine (State ι T) (Act ι T) where
  init := some ⟨.empty, fun _ => none⟩
  step s a := s.bind fun m => m.step a

/-- The condition: what is moved from another object is empty, and so is what is assigned to. -/
def EmptyMoves (s : State ι T) : Act ι T → Prop
  | .moveConstruct _ src => ∀ m, s = some m → ∀ t, m.tries src = some t → t = .empty
  | .moveAssign o src => o ≠ src → ∀ m, s = some m →
      (∀ t, m.tries src = some t → t = .empty) ∧ ∀ t, m.tries o = some t → t = .empty
  | _ => True

/-- What a step has to do: its behaviour is defined, each node has one owner afterwards, a trie that
another one is moved from answers nothing, and an insertion changes the answers of no other trie. -/
def Upholds [DecidableEq ι] [Inhabited T] (s : State ι T) (a : Act ι T) : Prop :=
  ∀ m s', s = some m → m.step a = some s' → ∃ m', s' = some m' ∧ m'.Owned ∧
    (∀ o src, o ≠ src → a = .moveConstruct o src ∨ a = .moveAssign o src →
      ∀ x, m'.lookup src x = some none) ∧
    ∀ o c v, a = .insert o c v → ∀ o', o' ≠ o → ∀ x, m'.lookup o' x = m.lookup o' x

/-! ## What holds between the operations -/

/-- In the heap stands a tree for each root of each object, and nothing else. -/
structure Planted (m : Store ι T) (trees : ι × Family → LinkedTree (Payload T)) : Prop where
  forest : Forest m.heap trees
  roots : ∀ o t, m.tries o = some t → ∀ f, t.root f = (trees (o, f)).root
  gone : ∀ o, m.tries o = none → ∀ f, trees (o, f) = .null

/-- The trie of an object as a value. -/
def valueOf (trees : ι × Family → LinkedTree (Payload T)) (o : ι) : LpmTrie T :=
  ⟨erase (trees (o, .V4)), erase (trees (o, .V6))⟩

/-- The tries that there are, each of them a value. -/
abbrev Population (ι T : Type) := ι → Option (LpmTrie T)

def values (m : Store ι T) (trees : ι × Family → LinkedTree (Payload T)) : Population ι T :=
  fun o => (m.tries o).map fun _ => valueOf trees o

namespace Planted

variable {m m' : Store ι T} {trees : ι × Family → LinkedTree (Payload T)} {o : ι}

theorem owns_iff (hm : Planted m trees) {n : Nat} :
    m.Owns o n ↔ ∃ f, n ∈ (trees (o, f)).addrs := by
  constructor
  · intro h
    obtain ⟨t, f, ht, hreach⟩ := h
    rw [hm.roots o t ht f] at hreach
    exact ⟨f, (hm.forest.laid (o, f)).reaches_iff.mp hreach⟩
  · intro h
    obtain ⟨f, hmem⟩ := h
    cases ht : m.tries o with
    | none =>
      rw [hm.gone o ht f] at hmem
      cases hmem
    | some t =>
      refine ⟨t, f, ht, ?_⟩
      rw [hm.roots o t ht f]
      exact (hm.forest.laid (o, f)).reaches_iff.mpr hmem

theorem owned (hm : Planted m trees) : m.Owned where
  sole n hn := by
    obtain ⟨⟨o, f⟩, hmem⟩ := hm.forest.cover n hn
    refine ⟨o, hm.owns_iff.mpr ⟨f, hmem⟩, fun o' ho' => ?_⟩
    obtain ⟨f', hmem'⟩ := hm.owns_iff.mp ho'
    exact congrArg Prod.fst (hm.forest.apart (o', f') (o, f) n hmem' hmem)
  freed hgone n hn :=
    m.heap.once n hn (hm.forest.cells_eq_none (fun k => hm.gone k.1 (hgone k.1) k.2) n)

/-- The trees of an empty trie. -/
theorem null_of_empty (hm : Planted m trees) (ho : ∀ t, m.tries o = some t → t = .empty)
    (f : Family) : trees (o, f) = .null := by
  cases ht : m.tries o with
  | none => exact hm.gone o ht f
  | some t =>
    apply LinkedTree.eq_null_of_root
    rw [← hm.roots o t ht f, ho t ht, Trie.root_empty]

theorem lookup (hm : Planted m trees) (x : IpAddr) :
    m.lookup o x = (values m trees o).map fun t => t.lookup x := by
  unfold Store.lookup values
  cases ht : m.tries o with
  | none => rfl
  | some t =>
    rw [Option.bind_some, hm.roots o t ht, lookupLoop_spec x _ (hm.forest.laid _)]
    cases hf : x.family <;> simp only [LpmTrie.lookup, valueOf, hf, Option.map_some]

/-- At each root stands its tree. -/
theorem holds (hm : Planted m trees) {t : Trie} (ht : m.tries o = some t) (f : Family) :
    Holds m (.root o f) (trees (o, f)) where
  read := by
    rw [Store.read, ht, Option.map_some, hm.roots o t ht f]
  laid := hm.forest.laid (o, f)
  nodup := hm.forest.nodup (o, f)
  off := trivial

variable [DecidableEq ι]

/-- An object without nodes comes or goes. -/
theorem put (hm : Planted m trees) (hnull : ∀ f, trees (o, f) = .null) {x : Option Trie}
    (hx : ∀ t, x = some t → t = .empty) : Planted (m.put o x) trees := by
  refine ⟨hm.forest, ?_, ?_⟩
  · intro o' t ht f
    by_cases heq : o' = o
    · have hput : Function.update m.tries o x o' = some t := ht
      rw [heq, Function.update_self] at hput
      rw [hx t hput, Trie.root_empty, heq, hnull f]
      rfl
    · exact hm.roots o' t ((Function.update_of_ne heq ..).symm.trans ht) f
  · intro o' ho' f
    by_cases heq : o' = o
    · rw [heq]
      exact hnull f
    · exact hm.gone o' ((Function.update_of_ne heq ..).symm.trans ho') f

/-- **An operation at one root keeps the rest.** -/
theorem turn (hm : Planted m trees) {t : Trie} (ht : m.tries o = some t) {f : Family}
    {c : LinkedTree (Payload T)} (h : Turns m (.root o f) (trees (o, f)) m' c) :
    Planted m' (Function.update trees (o, f) c) ∧
      m'.tries = Function.update m.tries o (some (t.setRoot f c.root)) := by
  have htries : m'.tries = Function.update m.tries o (some (t.setRoot f c.root)) := by
    rw [h.tries, Store.write, ht]
    rfl
  have hother : ∀ o' f', (o', f') ≠ (o, f) →
      Function.update trees (o, f) c (o', f') = trees (o', f') :=
    fun o' f' hne => Function.update_of_ne hne ..
  refine ⟨⟨hm.forest.replace h.replaces, fun o' t' ht' f' => ?_, fun o' ho' f' => ?_⟩, htries⟩
  · rw [htries] at ht'
    by_cases heq : o' = o
    · subst heq
      rw [Function.update_self] at ht'
      cases ht'
      by_cases hf : f' = f
      · subst hf
        rw [Trie.root_setRoot, Function.update_self]
      · rw [Trie.root_setRoot_of_ne _ hf, hother o' f' fun h => hf (congrArg Prod.snd h)]
        exact hm.roots o' t ht f'
    · rw [Function.update_of_ne heq] at ht'
      rw [hother o' f' fun h => heq (congrArg Prod.fst h)]
      exact hm.roots o' t' ht' f'
  · rw [htries] at ho'
    by_cases heq : o' = o
    · rw [heq, Function.update_self] at ho'
      cases ho'
    · rw [Function.update_of_ne heq] at ho'
      rw [hother o' f' fun h => heq (congrArg Prod.fst h)]
      exact hm.gone o' ho' f'

/-- **`~LpmTrie`** deletes the nodes of the object. -/
theorem destruct (hm : Planted m trees) {t : Trie} (ht : m.tries o = some t) :
    ∃ m' trees', m.destruct o = some m' ∧ Planted m' trees' ∧
      m'.tries = Function.update m.tries o none ∧
      ∀ o' f, o' ≠ o → trees' (o', f) = trees (o', f) := by
  have hle : ∀ f, (trees (o, f)).addrs.length ≤ m.heap.next := fun f =>
    (hm.forest.laid (o, f)).length_le (hm.forest.nodup (o, f))
  obtain ⟨m₁, hm₁, hturn₁⟩ := destroy_spec _ (hm.holds ht .V4) (hle .V4)
  obtain ⟨hplant₁, htries₁⟩ := hm.turn ht hturn₁
  have ht₁ : m₁.tries o = some (t.setRoot .V4 none) := by
    rw [htries₁, Function.update_self]
    rfl
  have hne : ((o, .V4) : ι × Family) ≠ (o, .V6) := by
    intro h
    cases h
  have hV6 : Function.update trees (o, .V4) .null (o, .V6) = trees (o, .V6) :=
    Function.update_of_ne hne.symm ..
  have hhold := hplant₁.holds ht₁ .V6
  rw [hV6] at hhold
  obtain ⟨m₂, hm₂, hturn₂⟩ := destroy_spec _ hhold (hle .V6)
  rw [← hV6] at hturn₂
  obtain ⟨hplant₂, htries₂⟩ := hplant₁.turn ht₁ hturn₂
  refine ⟨m₂.put o none, _, ?_, hplant₂.put (fun f => ?_) (fun t ht => ?_), ?_, ?_⟩
  · rw [Store.destruct, hm₁, Option.bind_some, hm₂, Option.map_some]
  · cases f with
    | V6 => exact Function.update_self ..
    | V4 =>
      rw [Function.update_of_ne hne]
      exact Function.update_self ..
  · cases ht
  · rw [Store.put, htries₂, Function.update_idem, htries₁, Function.update_idem]
  · intro o' f hne
    rw [Function.update_of_ne fun h => hne (congrArg Prod.fst h),
      Function.update_of_ne fun h => hne (congrArg Prod.fst h)]

end Planted

/-! ## The tries as values -/

variable [DecidableEq ι] [Inhabited T]

/-- One operation. A trie that another one is moved from is empty. -/
def Population.step (A : Population ι T) : Act ι T → Option (Population ι T)
  | .construct o =>
    match A o with
    | none => some (Function.update A o (some .empty))
    | some _ => none
  | .insert o c v => (A o).map fun t => Function.update A o (some (t.insert c v))
  | .lookup o _ => (A o).map fun _ => A
  | .moveConstruct o src =>
    match A o, A src with
    | none, some t => some (Function.update (Function.update A o (some t)) src (some .empty))
    | _, _ => none
  | .moveAssign o src =>
    match A o, A src with
    | some _, some t =>
      if o = src then some A
      else some (Function.update (Function.update A o (some t)) src (some .empty))
    | _, _ => none
  | .destroy o => (A o).map fun _ => Function.update A o none

def population (ι T : Type) [DecidableEq ι] [Inhabited T] : Machine (Population ι T) (Act ι T) where
  init _ := none
  step := Population.step

namespace Planted

variable {m m' : Store ι T} {trees trees' : ι × Family → LinkedTree (Payload T)} {o src : ι}

omit [Inhabited T] in
/-- The values after one of the objects has changed. -/
theorem values_update {x : Option Trie} {t : LpmTrie T}
    (htries : m'.tries = Function.update m.tries o x)
    (hother : ∀ o' f, o' ≠ o → trees' (o', f) = trees (o', f))
    (ht : x ≠ none → valueOf trees' o = t) :
    values m' trees' = Function.update (values m trees) o (x.map fun _ => t) := by
  funext o'
  unfold values
  by_cases heq : o' = o
  · rw [heq, htries, Function.update_self, Function.update_self]
    cases x with
    | none => rfl
    | some u => rw [Option.map_some, Option.map_some, ht (Option.some_ne_none u)]
  · rw [htries, Function.update_of_ne heq, Function.update_of_ne heq, valueOf, hother o' _ heq,
      hother o' _ heq]
    rfl

omit [DecidableEq ι] [Inhabited T] in
theorem valueOf_null (hnull : ∀ f, trees (o, f) = .null) : valueOf trees o = .empty := by
  rw [valueOf, hnull, hnull]
  rfl

/-- **`insert`** changes the one trie as it changes the value. -/
theorem insert (hm : Planted m trees) {t : Trie} (ht : m.tries o = some t) (c : Cidr) (v : T) :
    ∃ m' trees', m.insert o c v = some m' ∧ Planted m' trees' ∧
      values m' trees' =
        Function.update (values m trees) o (some ((valueOf trees o).insert c v)) := by
  obtain ⟨m', c', hinsert, hturn, herase⟩ :=
    insertLoop_spec c.addr v (List.range c.prefixLen.toNat) (hm.holds ht c.addr.family)
  obtain ⟨hplant, htries⟩ := hm.turn ht hturn
  have hne : ((o, .V4) : ι × Family) ≠ (o, .V6) := by
    intro h
    cases h
  have hvalue : valueOf (Function.update trees (o, c.addr.family) c') o =
      (valueOf trees o).insert c v := by
    unfold valueOf LpmTrie.insert
    cases hf : c.addr.family with
    | V4 =>
      rw [hf] at herase
      rw [Function.update_self, Function.update_of_ne hne.symm, herase]
    | V6 =>
      rw [hf] at herase
      rw [Function.update_self, Function.update_of_ne hne, herase]
  refine ⟨m', _, hinsert, hplant, values_update htries (fun o' f hne => ?_) fun _ => hvalue⟩
  exact Function.update_of_ne (fun h => hne (congrArg Prod.fst h)) ..

/-- **One step**: where the moves are of empty tries, it does to the objects what it does to the
values. -/
theorem step (hm : Planted m trees) {a : Act ι T} (hempty : EmptyMoves (some m) a) {s' : State ι T}
    (hstep : m.step a = some s') :
    ∃ m' trees', s' = some m' ∧ Planted m' trees' ∧
      (values m trees).step a = some (values m' trees') := by
  have hvalues : ∀ o t, m.tries o = some t → values m trees o = some (valueOf trees o) := by
    intro o t ht
    rw [values, ht, Option.map_some]
  have hdead : ∀ o, m.tries o = none → values m trees o = none := by
    intro o ho
    rw [values, ho, Option.map_none]
  have hput : ∀ (m : Store ι T) (o : ι), (∀ f, trees (o, f) = .null) →
      values (m.put o (some .empty)) trees =
        Function.update (values m trees) o (some .empty) := by
    intro m o hnull
    have htries : (m.put o (some .empty)).tries = Function.update m.tries o (some .empty) := rfl
    exact values_update htries (fun _ _ _ => rfl) fun _ => valueOf_null hnull
  have hmove : ∀ o src, (∀ f, trees (src, f) = .null) → (∀ f, trees (o, f) = .null) →
      Planted ((m.put o (some .empty)).put src (some .empty)) trees ∧
        values ((m.put o (some .empty)).put src (some .empty)) trees =
          Function.update (Function.update (values m trees) o (some .empty)) src (some .empty) := by
    intro o src hsrc ho
    have hsome : ∀ t, some Trie.empty = some t → t = .empty := fun t ht => (Option.some.inj ht).symm
    refine ⟨(hm.put ho hsome).put hsrc hsome, ?_⟩
    rw [hput _ src hsrc, hput m o ho]
  cases a with
  | construct o =>
    simp only [Store.step] at hstep
    split at hstep
    next ho =>
      cases hstep
      refine ⟨_, trees, rfl, hm.put (hm.gone o ho) fun t ht => (Option.some.inj ht).symm, ?_⟩
      simp only [Population.step, hdead o ho, hput m o (hm.gone o ho)]
    next => cases hstep
  | insert o c v =>
    obtain ⟨t, ht, rfl⟩ := Option.map_eq_some_iff.mp hstep
    obtain ⟨m', trees', hinsert, hplant, hvalue⟩ := hm.insert ht c v
    refine ⟨m', trees', hinsert, hplant, ?_⟩
    simp only [Population.step, hvalues o t ht, hvalue, Option.map_some]
  | lookup o x =>
    obtain ⟨t, ht, rfl⟩ := Option.map_eq_some_iff.mp hstep
    refine ⟨m, trees, ?_, hm, ?_⟩
    · rw [hm.lookup, hvalues o t ht]
      rfl
    · simp only [Population.step, hvalues o t ht, Option.map_some]
  | moveConstruct o src =>
    simp only [Store.step] at hstep
    split at hstep
    next t ho hsrc =>
      cases hstep
      cases hempty m rfl t hsrc
      obtain ⟨hplant, hvalue⟩ := hmove o src (hm.null_of_empty (hempty m rfl))
        (hm.null_of_empty fun t ht => nomatch ho.symm.trans ht)
      refine ⟨_, trees, rfl, hplant, ?_⟩
      simp only [Population.step, hdead o ho, hvalues src _ hsrc]
      rw [valueOf_null (hm.null_of_empty (hempty m rfl))]
      exact congrArg some hvalue.symm
    next => cases hstep
  | moveAssign o src =>
    simp only [Store.step] at hstep
    split at hstep
    next u t hu hsrc =>
      cases hstep
      by_cases heq : o = src
      · subst heq
        cases hu.symm.trans hsrc
        refine ⟨m, trees, congrArg some ?_, hm, ?_⟩
        · rw [Store.put, Store.put, Function.update_idem]
          exact congrArg (Store.mk m.heap) (Function.update_eq_self_iff.mpr hu.symm)
        · simp only [Population.step, hvalues o _ hu, if_true]
      · obtain ⟨hsrcEmpty, hoEmpty⟩ := hempty heq m rfl
        cases hsrcEmpty t hsrc
        obtain ⟨hplant, hvalue⟩ := hmove o src (hm.null_of_empty hsrcEmpty)
          (hm.null_of_empty hoEmpty)
        refine ⟨_, trees, rfl, hplant, ?_⟩
        simp only [Population.step, hvalues o _ hu, hvalues src _ hsrc, if_neg heq]
        rw [valueOf_null (hm.null_of_empty hsrcEmpty)]
        exact congrArg some hvalue.symm
    next => cases hstep
  | destroy o =>
    obtain ⟨t, ht, rfl⟩ := Option.map_eq_some_iff.mp hstep
    obtain ⟨m', trees', hdestruct, hplant, htries, hother⟩ := hm.destruct ht
    refine ⟨m', trees', hdestruct, hplant, ?_⟩
    have hgone : values m' trees' = Function.update (values m trees) o none :=
      values_update (x := none) (t := .empty) htries hother fun hne => absurd rfl hne
    simp only [Population.step, hvalues o t ht, hgone, Option.map_some]

end Planted

omit [Inhabited T] in
theorem lookup_empty (x : IpAddr) : (LpmTrie.empty : LpmTrie T).lookup x = none := by
  unfold LpmTrie.lookup
  cases x.family <;> rfl

/-- A trie that another one is moved from is empty. -/
theorem Population.moved {A A' : Population ι T} {o src : ι} (hne : o ≠ src) {a : Act ι T}
    (ha : a = .moveConstruct o src ∨ a = .moveAssign o src) (hstep : A.step a = some A') :
    A' src = some .empty := by
  rcases ha with rfl | rfl
  · simp only [step] at hstep
    split at hstep
    next =>
      cases hstep
      exact Function.update_self ..
    next => cases hstep
  · simp only [step, if_neg hne] at hstep
    split at hstep
    next =>
      cases hstep
      exact Function.update_self ..
    next => cases hstep

/-! ## The runs -/

namespace Planted

variable {m : Store ι T} {trees : ι × Family → LinkedTree (Payload T)}

theorem upholds (hm : Planted m trees) {a : Act ι T} (hempty : EmptyMoves (some m) a) :
    Upholds (some m) a := by
  intro m₀ s' heq hstep
  cases heq
  obtain ⟨m', trees', rfl, hplant, hvalues⟩ := hm.step hempty hstep
  refine ⟨m', rfl, hplant.owned, ?_, ?_⟩
  · intro o src hne ha x
    rw [hplant.lookup, Population.moved hne ha hvalues, Option.map_some, lookup_empty]
  · intro o c v ha o' hne x
    subst ha
    obtain ⟨t, -, hA⟩ := Option.map_eq_some_iff.mp hvalues
    rw [hplant.lookup, hm.lookup, ← hA, Function.update_of_ne hne]

omit [Inhabited T] in
/-- Where a trie with a node comes to have two objects, the node has two owners. -/
theorem not_owned_shared (hm : Planted m trees) {o src : ι} (hne : o ≠ src) {t : Trie}
    (hsrc : m.tries src = some t) (ht : t ≠ .empty) :
    ¬ ((m.put o (some t)).put src (some t)).Owned := by
  intro howned
  obtain ⟨f, a, hroot⟩ := Trie.exists_root ht
  have hreach : LinkedTree.Reaches m.heap.cells (t.root f) a := by
    rw [hroot]
    exact .here a
  have hlive : m.heap.cells a ≠ none := by
    obtain ⟨f', hmem⟩ := hm.owns_iff.mp ⟨t, f, hsrc, hreach⟩
    exact (hm.forest.laid _).live a hmem
  have htwo : ∀ x, x = o ∨ x = src → ((m.put o (some t)).put src (some t)).Owns x a := by
    intro x hx
    refine ⟨t, f, ?_, hreach⟩
    change Function.update (Function.update m.tries o (some t)) src (some t) x = some t
    by_cases hxs : x = src
    · rw [hxs, Function.update_self]
    · rw [Function.update_of_ne hxs, hx.resolve_right hxs, Function.update_self]
  obtain ⟨x, -, hsole⟩ := howned.sole a hlive
  exact hne ((hsole o (htwo o (Or.inl rfl))).trans (hsole src (htwo src (Or.inr rfl))).symm)

omit [Inhabited T] in
/-- Where an empty trie is assigned to one with a node, the node has no owner. -/
theorem not_owned_dropped (hm : Planted m trees) {o src : ι} {t : Trie}
    (ho : m.tries o = some t) (ht : t ≠ .empty) :
    ¬ ((m.put o (some .empty)).put src (some .empty)).Owned := by
  intro howned
  obtain ⟨f, a, hroot⟩ := Trie.exists_root ht
  have howns : m.Owns o a := by
    refine ⟨t, f, ho, ?_⟩
    rw [hroot]
    exact .here a
  have hlive : m.heap.cells a ≠ none := by
    obtain ⟨f', hmem⟩ := hm.owns_iff.mp howns
    exact (hm.forest.laid _).live a hmem
  obtain ⟨x, ⟨t', f', hx, hreach⟩, -⟩ := howned.sole a hlive
  change Function.update (Function.update m.tries o (some .empty)) src (some .empty) x =
    some t' at hx
  have hnone : t' = .empty → False := by
    intro heq
    subst heq
    rw [Trie.root_empty] at hreach
    exact LinkedTree.not_reaches_none hreach
  by_cases hxs : x = src
  · rw [hxs, Function.update_self] at hx
    exact hnone (Option.some.inj hx).symm
  · rw [Function.update_of_ne hxs] at hx
    by_cases hxo : x = o
    · rw [hxo, Function.update_self] at hx
      exact hnone (Option.some.inj hx).symm
    · rw [Function.update_of_ne hxo] at hx
      obtain ⟨y, -, hsole⟩ := hm.owned.sole a hlive
      exact hxo ((hsole x ⟨t', f', hx, hreach⟩).trans (hsole o howns).symm)

/-- **One step** does what it has to exactly if what it moves is empty. -/
theorem upholds_iff_empty (hm : Planted m trees) {a : Act ι T} {s' : State ι T}
    (hstep : m.step a = some s') : EmptyMoves (some m) a ↔ Upholds (some m) a := by
  refine ⟨hm.upholds, fun hupholds => ?_⟩
  obtain ⟨m', rfl, howned, -⟩ := hupholds m s' rfl hstep
  cases a with
  | moveConstruct o src =>
    simp only [Store.step] at hstep
    split at hstep
    next t ho hsrc =>
      cases hstep
      intro m₀ heq t' ht'
      cases heq
      cases hsrc.symm.trans ht'
      by_contra hne
      refine hm.not_owned_shared ?_ hsrc hne howned
      intro heq
      subst heq
      exact nomatch ho.symm.trans hsrc
    next => cases hstep
  | moveAssign o src =>
    simp only [Store.step] at hstep
    split at hstep
    next u t hu hsrc =>
      cases hstep
      intro hdiff m₀ heq
      cases heq
      have hsrcEmpty : t = .empty := by
        by_contra hne
        exact hm.not_owned_shared hdiff hsrc hne howned
      subst hsrcEmpty
      constructor
      · intro t' ht'
        exact (Option.some.inj (hsrc.symm.trans ht')).symm
      · intro t' ht'
        by_contra hne
        exact hm.not_owned_dropped ht' hne howned
    next => cases hstep
  | _ => trivial

end Planted

omit [DecidableEq ι] [Inhabited T] in
/-- At the start there is nothing. -/
theorem planted_init : Planted (⟨.empty, fun _ => none⟩ : Store ι T) fun _ => .null := by
  refine ⟨⟨fun _ => trivial, fun _ => List.nodup_nil, fun _ _ a ha => ?_, fun a ha => ?_⟩, ?_,
    fun _ _ _ => rfl⟩
  · cases ha
  · exact absurd rfl ha
  · intro o t ht
    cases ht

/-- **Each node has one owner, where the moves are of empty tries.** In every run, over any number
of tries: every step leaves each node that there is reachable from exactly one trie, and, when no
trie is left, each node deleted once; leaves a trie that another one is moved from without answers;
and lets an insertion change the answers of no other trie, if and only if every step moves and
assigns to empty tries only, or a trie to itself. -/
theorem owners_iff {history : List (State ι T × Act ι T)} {s : State ι T}
    (h : (tries ι T).Run (fun _ _ => True) history s) :
    ((∀ x ∈ history, EmptyMoves x.1 x.2) ↔ ∀ x ∈ history, Upholds x.1 x.2) ∧
      ((∀ x ∈ history, EmptyMoves x.1 x.2) → ∃ m, s = some m ∧ m.Owned) := by
  have hrule := Machine.Run.forall_iff (I := fun s : State ι T => ∃ m trees, s = some m ∧
    Planted m trees) (C := EmptyMoves) (P := Upholds) ?_ ?_ ?_ h
  · refine ⟨hrule.1, fun hall => ?_⟩
    obtain ⟨m, trees, hm, hplant⟩ := hrule.2 hall
    exact ⟨m, hm, hplant.owned⟩
  · exact ⟨_, _, rfl, planted_init⟩
  · rintro _ a s' hstep ⟨m, trees, rfl, hplant⟩
    exact hplant.upholds_iff_empty hstep
  · rintro _ a s' hstep ⟨m, trees, rfl, hplant⟩ hempty
    obtain ⟨m', trees', hm', hplant', -⟩ := hplant.step hempty hstep
    exact ⟨m', trees', hm', hplant'⟩

/-- A trie with one route, and another one that is constructed and assigned to it while both are
empty. -/
def oneRoute : List (Act Bool Nat) :=
  [.construct false, .construct true, .moveAssign false true, .insert false .zero 1]

theorem owners_iff_one_route : ∃ history m,
    (tries Bool Nat).Run (fun _ _ => True) history (some m) ∧ m.heap.next = 1 ∧
    ((∀ x ∈ history, EmptyMoves x.1 x.2) ↔ ∀ x ∈ history, Upholds x.1 x.2) := by
  have hexec : (tries Bool Nat).exec (fun _ _ => True) (tries Bool Nat).init oneRoute =
    some (some _) := rfl
  obtain ⟨history, hrun⟩ := (Machine.reach_of_exec hexec).exists_run
  exact ⟨history, _, hrun, rfl, (owners_iff hrun).1⟩

/-- A trie with one node, and another one moved from it. -/
def movedTrie : List (Act Bool Nat) :=
  [.construct false, .insert false .zero 1, .moveConstruct true false]

/-- Two objects have the node, the one that was moved from answers, and the destruction of both is
undefined. And a node of a trie that is assigned to is there when no object is left. -/
theorem double_free :
    (∃ m, (tries Bool Nat).Reachable (some m) ∧ m.Owns false 0 ∧ m.Owns true 0 ∧ ¬ m.Owned ∧
      m.lookup false .zero = some (some 1)) ∧
    (tries Bool Nat).Reachable none ∧
    ∃ m, (tries Bool Nat).Reachable (some m) ∧ (∀ o, m.tries o = none) ∧ 0 < m.heap.next ∧
      m.heap.deleted.count 0 = 0 := by
  refine ⟨?_, ?_, ?_⟩
  · have hexec : ∃ m, (tries Bool Nat).exec (fun _ _ => True) (tries Bool Nat).init movedTrie =
        some (some m) ∧ m.tries false = some ⟨some 0, none⟩ ∧ m.tries true = some ⟨some 0, none⟩ ∧
        (m.heap.cells 0).isSome = true ∧ m.lookup false .zero = some (some 1) :=
      ⟨_, rfl, rfl, rfl, rfl, rfl⟩
    obtain ⟨m, hexec, hfalse, htrue, hlive, hlookup⟩ := hexec
    have hownsFalse : m.Owns false 0 := ⟨_, .V4, hfalse, .here 0⟩
    have hownsTrue : m.Owns true 0 := ⟨_, .V4, htrue, .here 0⟩
    refine ⟨m, Machine.reach_of_exec hexec, hownsFalse, hownsTrue, fun howned => ?_, hlookup⟩
    obtain ⟨o, -, hsole⟩ := howned.sole 0 (Option.isSome_iff_ne_none.mp hlive)
    exact absurd ((hsole false hownsFalse).trans (hsole true hownsTrue).symm) Bool.false_ne_true
  · have hexec : (tries Bool Nat).exec (fun _ _ => True) (tries Bool Nat).init
      (movedTrie ++ [.destroy false, .destroy true]) = some none := rfl
    exact Machine.reach_of_exec hexec
  · have hexec : (tries Bool Nat).exec (fun _ _ => True) (tries Bool Nat).init
      [.construct false, .insert false .zero 1, .construct true, .moveAssign false true,
        .destroy false, .destroy true] = some (some _) := rfl
    refine ⟨_, Machine.reach_of_exec hexec, fun o => ?_, Nat.succ_pos 0, rfl⟩
    cases o <;> rfl

/-- **Where the moves are of empty tries, the tries in memory are values**: a run has a run of
values by the same operations, and at its end every lookup answers what it answers on the value. -/
theorem refines {history : List (State ι T × Act ι T)} {s : State ι T}
    (h : (tries ι T).Run EmptyMoves history s) :
    ∃ m, s = some m ∧ ∃ (history' : List (Population ι T × Act ι T)) (A : Population ι T),
      (population ι T).Run (fun _ _ => True) history' A ∧
      history'.map Prod.snd = history.map Prod.snd ∧
      ∀ o x, m.lookup o x = (A o).map fun t => t.lookup x := by
  have hrun : ∃ m trees, s = some m ∧ Planted m trees ∧
      ∃ history' : List (Population ι T × Act ι T),
        (population ι T).Run (fun _ _ => True) history' (values m trees) ∧
        history'.map Prod.snd = history.map Prod.snd := by
    induction h with
    | init => exact ⟨_, _, rfl, planted_init, [], .init, rfl⟩
    | @step history s s' a _ hempty hstep ih =>
      obtain ⟨m, trees, rfl, hplant, history', hrun, hsame⟩ := ih
      obtain ⟨m', trees', rfl, hplant', hvalues⟩ := hplant.step hempty hstep
      refine ⟨m', trees', rfl, hplant', _, .step hrun trivial hvalues, ?_⟩
      rw [List.map_append, List.map_append, hsame]
      rfl
  obtain ⟨m, trees, rfl, hplant, history', hrun', hsame⟩ := hrun
  exact ⟨m, rfl, history', _, hrun', hsame, fun o x => hplant.lookup x⟩

end Cfd.Net.TrieHeap
