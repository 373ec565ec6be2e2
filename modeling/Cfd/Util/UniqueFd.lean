import Cfd.Base.Machine
import Cfd.Base.NameTable

/-!
# Descriptors with one owner

`UniqueFd` of `include/cfd/unique_fd.hpp`, over any population of such objects and a system that
hands out the numbers of closed descriptors again.

An object holds a number. The table of the process says which opening the number stands for now, so
a number that is closed twice is one that may stand for somebody else's opening the second time.
`State.keeper` is not in the source: it records of each opening the object it was given or moved to
last, and forgets it when it is released. It is read off the operations alone, and no operation
looks at it but to say which descriptors are there to be given: those that no object is the keeper
of.

That the rest of the process closes nothing that an object keeps is assumed (`Act.osClose`), and
nothing is established about threads that share an object. What holds of the runs is
`Cfd.Util.Descriptors`.
-/

set_option autoImplicit false

namespace Cfd.Util

open Cfd.Base

/-- `UniqueFd`: `int fd_ = -1`. -/
structure UniqueFd where
  fd : Int := -1
  deriving DecidableEq

namespace UniqueFd

/-- `UniqueFd::release`: what the caller gets, and the object. -/
def release (u : UniqueFd) : Int × UniqueFd := (u.fd, { u with fd := -1 })

/-- `UniqueFd::reset`: the number `::close` is called with, if it is, and the object. -/
def reset (u : UniqueFd) (newFd : Int) : Option Int × UniqueFd :=
  (if 0 ≤ u.fd ∧ u.fd ≠ newFd then some u.fd else none, { u with fd := newFd })

/-- `UniqueFd(UniqueFd&& o)`: the new object, and `o`. -/
def moveConstruct (o : UniqueFd) : UniqueFd × UniqueFd := (⟨o.fd⟩, { o with fd := -1 })

/-- `operator=(UniqueFd&& o)` with `this != &o`: the close of `reset(o.fd_)`, the object, and `o`.
-/
def moveAssign (u o : UniqueFd) : Option Int × UniqueFd × UniqueFd :=
  ((u.reset o.fd).1, (u.reset o.fd).2, { o with fd := -1 })

/-- What `reset` closes is what the destructor would close, unless the object holds the number
already. -/
theorem reset_fst {u : UniqueFd} {fd : Int} (h : u.fd ≠ fd ∨ u.fd < 0) :
    (u.reset fd).1 = (u.reset (-1)).1 := by
  unfold reset
  by_cases hpos : 0 ≤ u.fd
  · rw [if_pos ⟨hpos, by omega⟩, if_pos ⟨hpos, by omega⟩]
  · rw [if_neg fun h => hpos h.1, if_neg fun h => hpos h.1]

end UniqueFd

namespace Descriptors

/-- The objects, the descriptor table of the process, and the keepers. -/
structure State (ι : Type) where
  objs : ι → Option UniqueFd
  table : NameTable Int
  /-- The object that an opening was given or moved to last, if it has not been released since. -/
  keeper : Nat → Option ι

variable {ι : Type}

namespace State

/-- `::close`. The number is free afterwards, whatever the call returns. -/
def close (s : State ι) : Option Int → State ι
  | none => s
  | some k => { s with table := s.table.unbind k }

/-- What `k` stands for is given to `o`. -/
def give (s : State ι) (o : ι) (k : Int) : State ι :=
  match s.table.lookup k with
  | some d => { s with keeper := Function.update s.keeper d (some o) }
  | none => s

/-- What `k` stands for is released. -/
def letGo (s : State ι) (k : Int) : State ι :=
  match s.table.lookup k with
  | some d => { s with keeper := Function.update s.keeper d none }
  | none => s

/-- An open descriptor that no object keeps. -/
def loose (s : State ι) (k : Int) : Bool :=
  (s.table.lookup k).any fun d => (s.keeper d).isNone

/-- What an object can be given: such a descriptor, or none, which is any negative number. -/
def offered (s : State ι) (k : Int) : Bool := decide (k < 0) || s.loose k

variable {s : State ι} {o o' : ι} {k : Int} {d : Nat}

@[simp] theorem objs_close (c : Option Int) : (s.close c).objs = s.objs := by
  cases c <;> rfl

@[simp] theorem keeper_close (c : Option Int) : (s.close c).keeper = s.keeper := by
  cases c <;> rfl

@[simp] theorem objs_give : (s.give o k).objs = s.objs := by
  unfold give
  split <;> rfl

@[simp] theorem table_give : (s.give o k).table = s.table := by
  unfold give
  split <;> rfl

@[simp] theorem objs_letGo : (s.letGo k).objs = s.objs := by
  unfold letGo
  split <;> rfl

@[simp] theorem table_letGo : (s.letGo k).table = s.table := by
  unfold letGo
  split <;> rfl

theorem keeper_give_self (h : s.table.lookup k = some d) : (s.give o k).keeper d = some o := by
  simp only [give, h, Function.update_self]

theorem keeper_give_of_ne (h : s.table.lookup k ≠ some d) :
    (s.give o k).keeper d = s.keeper d := by
  unfold give
  split
  next x hx =>
    refine Function.update_of_ne ?_ ..
    intro heq
    subst heq
    exact h hx
  next => rfl

theorem keeper_letGo_self (h : s.table.lookup k = some d) : (s.letGo k).keeper d = none := by
  simp only [letGo, h, Function.update_self]

theorem keeper_letGo_of_ne (h : s.table.lookup k ≠ some d) :
    (s.letGo k).keeper d = s.keeper d := by
  unfold letGo
  split
  next x hx =>
    refine Function.update_of_ne ?_ ..
    intro heq
    subst heq
    exact h hx
  next => rfl

theorem loose_iff : s.loose k = true ↔ ∃ d, s.table.lookup k = some d ∧ s.keeper d = none := by
  rw [loose, Option.any_eq_true]
  simp only [Option.isNone_iff_eq_none]

theorem offered_iff : s.offered k = true ↔
    k < 0 ∨ ∃ d, s.table.lookup k = some d ∧ s.keeper d = none := by
  rw [offered, Bool.or_eq_true, decide_eq_true_eq, loose_iff]

variable [DecidableEq ι]

def put (s : State ι) (o : ι) (u : Option UniqueFd) : State ι :=
  { s with objs := Function.update s.objs o u }

/-- What `src` keeps is handed to `o`. -/
def pass (s : State ι) (src o : ι) : State ι :=
  { s with keeper := fun d => if s.keeper d = some src then some o else s.keeper d }

theorem put_put (x y : Option UniqueFd) : (s.put o x).put o y = s.put o y := by
  rw [put, put, put, Function.update_idem]

@[simp] theorem objs_put_self (x : Option UniqueFd) : (s.put o x).objs o = x :=
  Function.update_self ..

theorem objs_put_of_ne (h : o' ≠ o) (x : Option UniqueFd) : (s.put o x).objs o' = s.objs o' :=
  Function.update_of_ne h ..

theorem objs_put {x : Option UniqueFd} {u : UniqueFd} (h : (s.put o x).objs o' = some u) :
    (o' = o ∧ x = some u) ∨ (o' ≠ o ∧ s.objs o' = some u) := by
  by_cases ho : o' = o
  · subst ho
    rw [objs_put_self] at h
    exact Or.inl ⟨rfl, h⟩
  · rw [objs_put_of_ne ho] at h
    exact Or.inr ⟨ho, h⟩

end State

/-- The operations, and what else happens in the process. -/
inductive Act (ι : Type)
  /-- The system opens a descriptor with the number `k`, for anybody. -/
  | osOpen (k : Int)
  /-- A descriptor that no object keeps is closed. -/
  | osClose (k : Int)
  | construct (o : ι) (fd : Int)
  | moveConstruct (o src : ι)
  | moveAssign (o src : ι)
  | reset (o : ι) (fd : Int)
  | release (o : ι)
  | destroy (o : ι)

variable [DecidableEq ι]

/-- One operation. -/
def State.step (s : State ι) : Act ι → Option (State ι)
  | .osOpen k =>
    if 0 ≤ k ∧ s.table.lookup k = none then some { s with table := s.table.bind k } else none
  | .osClose k => if s.loose k then some (s.close (some k)) else none
  | .construct o fd =>
    match s.objs o with
    | none => if s.offered fd then some ((s.put o (some ⟨fd⟩)).give o fd) else none
    | some _ => none
  | .moveConstruct o src =>
    match s.objs o, s.objs src with
    | none, some v =>
      some (((s.put o (some v.moveConstruct.1)).put src (some v.moveConstruct.2)).pass src o)
    | _, _ => none
  | .moveAssign o src =>
    match s.objs o, s.objs src with
    | some u, some v =>
      if o = src then some s
      else
        let r := u.moveAssign v
        some ((((s.close r.1).put o (some r.2.1)).put src (some r.2.2)).pass src o)
    | _, _ => none
  | .reset o fd =>
    match s.objs o with
    | some u =>
      if fd = u.fd ∨ s.offered fd then
        let r := u.reset fd
        some (((s.close r.1).put o (some r.2)).give o fd)
      else none
    | none => none
  | .release o =>
    match s.objs o with
    | some u => some ((s.put o (some u.release.2)).letGo u.release.1)
    | none => none
  | .destroy o =>
    match s.objs o with
    | some u => some ((s.close (u.reset (-1)).1).put o none)
    | none => none

/-- No objects, and no descriptors. -/
def process (ι : Type) [DecidableEq ι] : Machine (State ι) (Act ι) where
  init := ⟨fun _ => none, .empty, fun _ => none⟩
  step := State.step

/-- The calls of `::close` in a step: the object that makes it, and the number. -/
def closes (s : State ι) : Act ι → Option (ι × Int)
  | .moveAssign o src =>
    match s.objs o, s.objs src with
    | some u, some v => if o = src then none else (u.moveAssign v).1.map (Prod.mk o)
    | _, _ => none
  | .reset o fd => (s.objs o).bind fun u => (u.reset fd).1.map (Prod.mk o)
  | .destroy o => (s.objs o).bind fun u => (u.reset (-1)).1.map (Prod.mk o)
  | _ => none

/-- The openings that a step closes on behalf of an object. -/
def closed (s : State ι) (a : Act ι) : List Nat :=
  ((closes s a).bind fun x => s.table.lookup x.2).toList

/-! ## What a step can do -/

/-- The steps, with what each of them requires. -/
inductive Moves (s : State ι) : Act ι → State ι → Prop
  | osOpen {k : Int} : 0 ≤ k → s.table.lookup k = none →
      Moves s (.osOpen k) { s with table := s.table.bind k }
  | osClose {k : Int} {d : Nat} : s.table.lookup k = some d → s.keeper d = none →
      Moves s (.osClose k) (s.close (some k))
  | construct {o : ι} {fd : Int} : s.objs o = none → s.offered fd = true →
      Moves s (.construct o fd) ((s.put o (some ⟨fd⟩)).give o fd)
  | moveConstruct {o src : ι} {v : UniqueFd} : s.objs o = none → s.objs src = some v →
      Moves s (.moveConstruct o src) (((s.put o (some ⟨v.fd⟩)).put src (some ⟨-1⟩)).pass src o)
  | selfAssign {o : ι} : Moves s (.moveAssign o o) s
  | moveAssign {o src : ι} {u v : UniqueFd} : o ≠ src → s.objs o = some u → s.objs src = some v →
      Moves s (.moveAssign o src)
        ((((s.close (u.reset v.fd).1).put o (some ⟨v.fd⟩)).put src (some ⟨-1⟩)).pass src o)
  | reset {o : ι} {fd : Int} {u : UniqueFd} : s.objs o = some u →
      fd = u.fd ∨ s.offered fd = true →
      Moves s (.reset o fd) (((s.close (u.reset fd).1).put o (some ⟨fd⟩)).give o fd)
  | release {o : ι} {u : UniqueFd} : s.objs o = some u →
      Moves s (.release o) ((s.put o (some ⟨-1⟩)).letGo u.fd)
  | destroy {o : ι} {u : UniqueFd} : s.objs o = some u →
      Moves s (.destroy o) ((s.close (u.reset (-1)).1).put o none)

theorem step_moves {s s' : State ι} {a : Act ι} (h : s.step a = some s') : Moves s a s' := by
  cases a with
  | osOpen k =>
    simp only [State.step] at h
    split at h
    next hk =>
      cases h
      exact .osOpen hk.1 hk.2
    next => cases h
  | osClose k =>
    simp only [State.step] at h
    split at h
    next hk =>
      cases h
      obtain ⟨d, hlook, hnone⟩ := State.loose_iff.mp hk
      exact .osClose hlook hnone
    next => cases h
  | construct o fd =>
    simp only [State.step] at h
    split at h
    next ho =>
      split at h
      next hfd =>
        cases h
        exact .construct ho hfd
      next => cases h
    next => cases h
  | moveConstruct o src =>
    simp only [State.step] at h
    split at h
    next v ho hsrc =>
      cases h
      exact .moveConstruct ho hsrc
    next => cases h
  | moveAssign o src =>
    simp only [State.step] at h
    split at h
    next u v ho hsrc =>
      split at h
      next heq =>
        subst heq
        cases h
        exact .selfAssign
      next hne =>
        cases h
        exact .moveAssign hne ho hsrc
    next => cases h
  | reset o fd =>
    simp only [State.step] at h
    split at h
    next u ho =>
      split at h
      next hfd =>
        cases h
        exact .reset ho hfd
      next => cases h
    next => cases h
  | release o =>
    simp only [State.step] at h
    split at h
    next u ho =>
      cases h
      exact .release ho
    next => cases h
  | destroy o =>
    simp only [State.step] at h
    split at h
    next u ho =>
      cases h
      exact .destroy ho
    next => cases h

/-! ## The wake pipe of the router -/

/-- `Router::start`: `pipe2`, and the two ends into `wake_r_` and `wake_w_`. -/
def wakeStart (wakeR wakeW : ι) (p₀ p₁ : Int) : List (Act ι) :=
  [.osOpen p₀, .osOpen p₁, .reset wakeR p₀, .reset wakeW p₁]

/-- `Router::stop`: both ends are reset. -/
def wakeStop (wakeR wakeW : ι) : List (Act ι) := [.reset wakeW (-1), .reset wakeR (-1)]

end Descriptors

end Cfd.Util
