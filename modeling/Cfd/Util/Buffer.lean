import Cfd.Base.Machine
import Mathlib.Algebra.Group.Nat.Defs
import Mathlib.Logic.Function.Basic

/-!
# The packet buffer

`Buffer` of `include/cfd/buffer.hpp`: a byte array of fixed size, its capacity and the length in
use. `size_t` has `w` bits and its sums are taken modulo `2 ^ w`.

The array is owned through a `unique_ptr`, so it is part of the value: `none` is the null pointer.
A copy into it is recorded as the range of offsets it writes, also where the range leaves the array.

## What is proved

* `upholds_iff`: in a run, every step keeps the buffers `Sound` and does with its overflow check
  what the capacity says, if and only if every step meets `Fits`. The steps that do not are those
  whose sum `len_ + n` wraps around, and those that move from a buffer with a capacity: the
  defaulted moves take the array and leave `cap_` and `len_`.
* `append_inside`: whatever has been moved, an `append` to a buffer that has its array does what it
  has to exactly if its sum does not wrap around.
* `contents_append`: a sound buffer is a list of bytes, and `append` appends.
-/

set_option autoImplicit false

namespace Cfd.Util

open Cfd.Base

/-- `memcpy(dst + off, p, n)`, as far as it concerns the array `dst`. -/
def memcpy (dst : List UInt8) (off : Nat) (p : Nat → UInt8) (n : Nat) : List UInt8 :=
  dst.mapIdx fun i x => if off ≤ i ∧ i < off + n then p (i - off) else x

@[simp] theorem length_memcpy (dst : List UInt8) (off : Nat) (p : Nat → UInt8) (n : Nat) :
    (memcpy dst off p n).length = dst.length :=
  List.length_mapIdx

/-- What is before the place stays, and the `n` bytes follow it, if there is room for them. -/
theorem take_memcpy {dst : List UInt8} {off n : Nat} (p : Nat → UInt8)
    (hroom : off + n ≤ dst.length) :
    (memcpy dst off p n).take (off + n) = dst.take off ++ (List.range n).map p := by
  have hlen : (dst.take off).length = off := by
    rw [List.length_take]
    omega
  apply List.ext_getElem
  · rw [List.length_take, length_memcpy, List.length_append, hlen, List.length_map,
      List.length_range]
    omega
  · intro i hi hi'
    rw [List.length_take, length_memcpy] at hi
    rw [List.getElem_take]
    simp only [memcpy, List.getElem_mapIdx]
    by_cases hbefore : i < off
    · rw [if_neg (by omega), List.getElem_append_left (by omega), List.getElem_take]
    · rw [if_pos (by omega), List.getElem_append_right (by omega), List.getElem_map,
        List.getElem_range, hlen]

/-- The offsets from `data_` that a copy writes: from `start` on, before `stop`. -/
structure Write where
  start : Nat
  stop : Nat
  deriving DecidableEq

/-- `Buffer`. -/
structure Buffer (w : Nat) where
  data : Option (List UInt8)
  cap : BitVec w
  len : BitVec w
  deriving DecidableEq

namespace Buffer

variable {w : Nat}

/-- `Buffer(std::size_t cap)`; `make_unique` clears the array. -/
def new (cap : BitVec w) : Buffer w := ⟨some (List.replicate cap.toNat 0), cap, 0⟩

/-- `Buffer::resize`. -/
def resize (b : Buffer w) (n : BitVec w) : Except String Unit × Buffer w :=
  if b.cap < n then (.error "Buffer::resize overflow", b) else (.ok (), { b with len := n })

/-- `Buffer::clear`. -/
def clear (b : Buffer w) : Buffer w := { b with len := 0 }

/-- `Buffer::append`. -/
def append (b : Buffer w) (p : Nat → UInt8) (n : BitVec w) : Except String Write × Buffer w :=
  if b.cap < b.len + n then (.error "Buffer::append overflow", b)
  else
    (.ok ⟨b.len.toNat, b.len.toNat + n.toNat⟩,
      { b with data := b.data.map fun d => memcpy d b.len.toNat p n.toNat, len := b.len + n })

/-- `Buffer(Buffer&&) = default`: the new buffer, and the one moved from. -/
def moveConstruct (o : Buffer w) : Buffer w × Buffer w := (o, { o with data := none })

/-- `operator=(Buffer&&) = default`, from another buffer. The array of the target is deleted. -/
def moveAssign (_b o : Buffer w) : Buffer w × Buffer w := (o, { o with data := none })

/-- The number of bytes that `data_` owns. -/
def owned (b : Buffer w) : Nat := b.data.elim 0 List.length

/-- The bytes in use. -/
def contents (b : Buffer w) : List UInt8 := b.data.elim [] fun d => d.take b.len.toNat

/-- The length is within the capacity, and the capacity is what is owned. -/
structure Sound (b : Buffer w) : Prop where
  len_le : b.len.toNat ≤ b.cap.toNat
  cap_eq : b.cap.toNat = b.owned

/-- What `append` has to do: signal an overflow exactly if the sum exceeds the capacity as a number,
leave the buffer as it is then, and otherwise write inside the array. -/
structure AppendOk (b : Buffer w) (p : Nat → UInt8) (n : BitVec w) : Prop where
  signals : (∃ msg, (b.append p n).1 = .error msg) ↔ b.cap.toNat < b.len.toNat + n.toNat
  unchanged : ∀ msg, (b.append p n).1 = .error msg → (b.append p n).2 = b
  inside : ∀ x, (b.append p n).1 = .ok x → x.stop ≤ b.owned

/-- What `resize` has to do. -/
structure ResizeOk (b : Buffer w) (n : BitVec w) : Prop where
  signals : (∃ msg, (b.resize n).1 = .error msg) ↔ b.cap.toNat < n.toNat
  unchanged : ∀ msg, (b.resize n).1 = .error msg → (b.resize n).2 = b

/-! ## One buffer -/

variable {b : Buffer w} {p : Nat → UInt8} {n : BitVec w}

theorem append_of_lt (h : b.cap < b.len + n) :
    b.append p n = (.error "Buffer::append overflow", b) := if_pos h

theorem append_of_not_lt (h : ¬ b.cap < b.len + n) : b.append p n =
    (.ok ⟨b.len.toNat, b.len.toNat + n.toNat⟩,
      { b with data := b.data.map fun d => memcpy d b.len.toNat p n.toNat, len := b.len + n }) :=
  if_neg h

/-- The sum as a number, where it does not wrap around. -/
theorem toNat_len_add (h : b.len.toNat + n.toNat < 2 ^ w) :
    (b.len + n).toNat = b.len.toNat + n.toNat := by
  rw [BitVec.toNat_add, Nat.mod_eq_of_lt h]

/-- A sum that wraps around is less than the length was. -/
theorem toNat_len_add_lt (h : 2 ^ w ≤ b.len.toNat + n.toNat) :
    (b.len + n).toNat < b.len.toNat := by
  have hn := n.isLt
  have hlen := b.len.isLt
  rw [BitVec.toNat_add, Nat.mod_eq_sub_mod h, Nat.mod_eq_of_lt (by omega)]
  omega

theorem sound_new (cap : BitVec w) : (new cap).Sound where
  len_le := Nat.zero_le _
  cap_eq := List.length_replicate.symm

theorem Sound.clear (hb : b.Sound) : b.clear.Sound where
  len_le := Nat.zero_le _
  cap_eq := hb.cap_eq

theorem resizeOk (b : Buffer w) (n : BitVec w) : b.ResizeOk n := by
  by_cases hlt : b.cap < n
  · have hresize : b.resize n = (.error "Buffer::resize overflow", b) := if_pos hlt
    refine ⟨⟨fun _ => BitVec.lt_def.mp hlt, fun _ => ?_⟩, ?_⟩
    · exact ⟨_, congrArg Prod.fst hresize⟩
    · intro msg _
      exact congrArg Prod.snd hresize
  · have hresize : b.resize n = (.ok (), { b with len := n }) := if_neg hlt
    refine ⟨⟨fun ⟨msg, hmsg⟩ => ?_, fun h => absurd (BitVec.lt_def.mpr h) hlt⟩, ?_⟩
    · cases (congrArg Prod.fst hresize).symm.trans hmsg
    · intro msg hmsg
      cases (congrArg Prod.fst hresize).symm.trans hmsg

theorem Sound.resize (hb : b.Sound) (n : BitVec w) : (b.resize n).2.Sound := by
  unfold Buffer.resize
  split
  next => exact hb
  next hle => exact ⟨Nat.le_of_not_lt fun hlt => hle (BitVec.lt_def.mpr hlt), hb.cap_eq⟩

theorem owned_append : (b.append p n).2.owned = b.owned := by
  unfold append
  split
  next => rfl
  next =>
    cases hdata : b.data with
    | none => simp only [owned, hdata, Option.map_none, Option.elim_none]
    | some d => simp only [owned, hdata, Option.map_some, Option.elim_some, length_memcpy]

theorem cap_append : (b.append p n).2.cap = b.cap := by
  unfold append
  split <;> rfl

/-- **The check of `append` is right exactly where the sum does not wrap around.** -/
theorem Sound.appendOk_iff (hb : b.Sound) :
    b.AppendOk p n ↔ b.len.toNat + n.toNat < 2 ^ w := by
  constructor
  · intro hok
    by_contra hwraps
    have hlt := toNat_len_add_lt (Nat.le_of_not_lt hwraps)
    have hpass : ¬ b.cap < b.len + n := fun h => by
      have := BitVec.lt_def.mp h
      have := hb.len_le
      omega
    have hcap := b.cap.isLt
    obtain ⟨msg, hmsg⟩ := hok.signals.mpr (by omega)
    cases (congrArg Prod.fst (append_of_not_lt hpass)).symm.trans hmsg
  · intro hfits
    have hsum := toNat_len_add hfits
    by_cases hlt : b.cap < b.len + n
    · have happend := append_of_lt (p := p) hlt
      have hgt := BitVec.lt_def.mp hlt
      rw [hsum] at hgt
      refine ⟨⟨fun _ => hgt, fun _ => ⟨_, congrArg Prod.fst happend⟩⟩, ?_, ?_⟩
      · intro msg _
        exact congrArg Prod.snd happend
      · intro x hx
        cases (congrArg Prod.fst happend).symm.trans hx
    · have happend := append_of_not_lt (p := p) hlt
      have hle : b.len.toNat + n.toNat ≤ b.cap.toNat := by
        rw [← hsum]
        exact Nat.le_of_not_lt fun h => hlt (BitVec.lt_def.mpr h)
      refine ⟨⟨fun ⟨msg, hmsg⟩ => ?_, fun h => absurd hle (Nat.not_le.mpr h)⟩, ?_, ?_⟩
      · cases (congrArg Prod.fst happend).symm.trans hmsg
      · intro msg hmsg
        cases (congrArg Prod.fst happend).symm.trans hmsg
      · intro x hx
        cases (congrArg Prod.fst happend).symm.trans hx
        exact Nat.le_trans hle (Nat.le_of_eq hb.cap_eq)

/-- Whether or not the sum wraps around, the length stays within the capacity. -/
theorem Sound.append (hb : b.Sound) (p : Nat → UInt8) (n : BitVec w) :
    (b.append p n).2.Sound := by
  refine ⟨?_, ?_⟩
  · unfold Buffer.append
    split
    next => exact hb.len_le
    next hle => exact Nat.le_of_not_lt fun hlt => hle (BitVec.lt_def.mpr hlt)
  · rw [cap_append, owned_append]
    exact hb.cap_eq

/-- A buffer that has been moved from is sound exactly if it had no capacity. -/
theorem Sound.moved_iff (hb : b.Sound) :
    ({ b with data := none } : Buffer w).Sound ↔ b.cap = 0 := by
  constructor
  · intro hmoved
    exact BitVec.eq_of_toNat_eq hmoved.cap_eq
  · intro hcap
    refine ⟨hb.len_le, ?_⟩
    change b.cap.toNat = 0
    rw [hcap]
    rfl

/-- **`append` appends.** -/
theorem Sound.contents_append (hb : b.Sound) {x : Write} (hfits : b.len.toNat + n.toNat < 2 ^ w)
    (hok : (b.append p n).1 = .ok x) :
    (b.append p n).2.contents = b.contents ++ (List.range n.toNat).map p := by
  have hinside := (hb.appendOk_iff.mpr hfits).inside x hok
  by_cases hlt : b.cap < b.len + n
  · cases (congrArg Prod.fst (append_of_lt (p := p) hlt)).symm.trans hok
  · have happend := append_of_not_lt (p := p) hlt
    cases (congrArg Prod.fst happend).symm.trans hok
    rw [happend]
    cases hdata : b.data with
    | none =>
      simp only [owned, hdata, Option.elim_none] at hinside
      have hn : n.toNat = 0 := by omega
      simp only [contents, hdata, hn, Option.map_none, Option.elim_none, List.range_zero,
        List.map_nil, List.append_nil]
    | some d =>
      simp only [owned, hdata, Option.elim_some] at hinside
      simp only [contents, hdata, Option.map_some, Option.elim_some, toNat_len_add hfits]
      exact take_memcpy p hinside

end Buffer

/-! ## Any number of buffers -/

variable {ι : Type} {w : Nat}

/-- The operations. `p` is what is at the pointer that `append` is given. -/
inductive Buffer.Act (ι : Type) (w : Nat)
  | construct (o : ι) (cap : BitVec w)
  | append (o : ι) (p : Nat → UInt8) (n : BitVec w)
  | resize (o : ι) (n : BitVec w)
  | clear (o : ι)
  | moveConstruct (o src : ι)
  | moveAssign (o src : ι)
  | destroy (o : ι)

/-- The buffers there are. -/
abbrev Buffers (ι : Type) (w : Nat) := ι → Option (Buffer w)

namespace Buffers

open Buffer (Act)

/-- Every buffer is sound. -/
def Kept (s : Buffers ι w) : Prop := ∀ o b, s o = some b → b.Sound

/-- The condition: the sum does not wrap around, and a buffer that another one is moved from has no
capacity. -/
def Fits (s : Buffers ι w) : Act ι w → Prop
  | .append o _ n => ∀ b, s o = some b → b.len.toNat + n.toNat < 2 ^ w
  | .moveConstruct _ src => ∀ v, s src = some v → v.cap = 0
  | .moveAssign o src => o ≠ src → ∀ v, s src = some v → v.cap = 0
  | _ => True

variable [DecidableEq ι]

/-- One operation. An overflow is thrown to the caller, and leaves the buffer as the function has it
by then. -/
def step (s : Buffers ι w) : Act ι w → Option (Buffers ι w)
  | .construct o cap =>
    match s o with
    | none => some (Function.update s o (some (.new cap)))
    | some _ => none
  | .append o p n => (s o).map fun b => Function.update s o (some (b.append p n).2)
  | .resize o n => (s o).map fun b => Function.update s o (some (b.resize n).2)
  | .clear o => (s o).map fun b => Function.update s o (some b.clear)
  | .moveConstruct o src =>
    match s o, s src with
    | none, some v =>
      some (Function.update (Function.update s o (some v.moveConstruct.1)) src
        (some v.moveConstruct.2))
    | _, _ => none
  | .moveAssign o src =>
    match s o, s src with
    | some b, some v =>
      -- the pointer assigned to itself is released and stored again
      if o = src then some s
      else
        some (Function.update (Function.update s o (some (b.moveAssign v).1)) src
          (some (b.moveAssign v).2))
    | _, _ => none
  | .destroy o => (s o).map fun _ => Function.update s o none

end Buffers

/-- No buffers. -/
def buffers (ι : Type) [DecidableEq ι] (w : Nat) : Machine (Buffers ι w) (Buffer.Act ι w) where
  init _ := none
  step := Buffers.step

namespace Buffers

open Buffer (Act)

variable [DecidableEq ι]

/-- What a step has to do: keep the buffers sound, and signal what does not fit. -/
def Upholds (s : Buffers ι w) (a : Act ι w) : Prop :=
  (∀ s', s.step a = some s' → Kept s') ∧
    match a with
    | .append o p n => ∀ b, s o = some b → b.AppendOk p n
    | .resize o n => ∀ b, s o = some b → b.ResizeOk n
    | _ => True

/-- The steps, with what each of them requires. -/
inductive Moves (s : Buffers ι w) : Act ι w → Buffers ι w → Prop
  | construct {o : ι} {cap : BitVec w} : s o = none →
      Moves s (.construct o cap) (Function.update s o (some (.new cap)))
  | append {o : ι} {p : Nat → UInt8} {n : BitVec w} {b : Buffer w} : s o = some b →
      Moves s (.append o p n) (Function.update s o (some (b.append p n).2))
  | resize {o : ι} {n : BitVec w} {b : Buffer w} : s o = some b →
      Moves s (.resize o n) (Function.update s o (some (b.resize n).2))
  | clear {o : ι} {b : Buffer w} : s o = some b →
      Moves s (.clear o) (Function.update s o (some b.clear))
  | moveConstruct {o src : ι} {v : Buffer w} : s o = none → s src = some v →
      Moves s (.moveConstruct o src)
        (Function.update (Function.update s o (some v)) src (some { v with data := none }))
  | selfAssign {o : ι} : Moves s (.moveAssign o o) s
  | moveAssign {o src : ι} {v : Buffer w} : o ≠ src → s src = some v →
      Moves s (.moveAssign o src)
        (Function.update (Function.update s o (some v)) src (some { v with data := none }))
  | destroy {o : ι} : Moves s (.destroy o) (Function.update s o none)

theorem step_moves {s s' : Buffers ι w} {a : Act ι w} (h : s.step a = some s') :
    Moves s a s' := by
  cases a with
  | construct o cap =>
    simp only [step] at h
    split at h
    next ho =>
      cases h
      exact .construct ho
    next => cases h
  | append o p n =>
    obtain ⟨b, hb, rfl⟩ := Option.map_eq_some_iff.mp h
    exact .append hb
  | resize o n =>
    obtain ⟨b, hb, rfl⟩ := Option.map_eq_some_iff.mp h
    exact .resize hb
  | clear o =>
    obtain ⟨b, hb, rfl⟩ := Option.map_eq_some_iff.mp h
    exact .clear hb
  | moveConstruct o src =>
    simp only [step] at h
    split at h
    next v ho hv =>
      cases h
      exact .moveConstruct ho hv
    next => cases h
  | moveAssign o src =>
    simp only [step] at h
    split at h
    next b v hb hv =>
      split at h
      next heq =>
        cases h
        subst heq
        exact .selfAssign
      next hne =>
        cases h
        exact .moveAssign hne hv
    next => cases h
  | destroy o =>
    obtain ⟨b, -, rfl⟩ := Option.map_eq_some_iff.mp h
    exact .destroy

theorem Upholds.of_step {s s' : Buffers ι w} {a : Act ι w} (hstep : s.step a = some s')
    (hkept : Kept s') : ∀ t, s.step a = some t → Kept t := by
  intro t ht
  cases hstep.symm.trans ht
  exact hkept

/-- What all buffers have, they have after one of them has been replaced by one that has it. -/
theorem forall_update {Q : Buffer w → Prop} {s : Buffers ι w} (hs : ∀ o b, s o = some b → Q b)
    (o : ι) {x : Option (Buffer w)} (hx : ∀ b, x = some b → Q b) :
    ∀ o' b, Function.update s o x o' = some b → Q b := by
  intro o' b hb
  by_cases ho : o' = o
  · rw [ho, Function.update_self] at hb
    exact hx b hb
  · rw [Function.update_of_ne ho] at hb
    exact hs o' b hb

theorem Kept.update {s : Buffers ι w} (hs : Kept s) (o : ι) {x : Option (Buffer w)}
    (hx : ∀ b, x = some b → b.Sound) : Kept (Function.update s o x) :=
  forall_update hs o hx

/-- A move between two buffers keeps them sound exactly if there is no capacity to be left behind.
-/
theorem Kept.move_iff {s : Buffers ι w} (hs : Kept s) {o src : ι} {v : Buffer w}
    (hv : s src = some v) :
    Kept (Function.update (Function.update s o (some v)) src (some { v with data := none })) ↔
      v.cap = 0 := by
  have hsound := hs src v hv
  constructor
  · intro hkept
    exact hsound.moved_iff.mp (hkept src _ (Function.update_self ..))
  · intro hcap
    refine (hs.update o ?_).update src ?_
    · intro b hb
      cases hb
      exact hsound
    · intro b hb
      cases hb
      exact hsound.moved_iff.mpr hcap

/-- **One step** does what it has to exactly if it fits. -/
theorem Kept.step_iff {s s' : Buffers ι w} {a : Act ι w} (hs : Kept s)
    (hstep : s.step a = some s') : Fits s a ↔ Upholds s a := by
  have hof : Kept s' → ∀ t, s.step a = some t → Kept t := Upholds.of_step hstep
  cases step_moves hstep with
  | @construct o cap =>
    refine iff_of_true trivial ⟨hof (hs.update o fun b hb => ?_), trivial⟩
    cases hb
    exact Buffer.sound_new cap
  | @append o p n b hb =>
    have hkept : Kept (Function.update s o (some (b.append p n).2)) := by
      apply hs.update o
      intro b' hb'
      cases hb'
      exact (hs o b hb).append p n
    constructor
    · intro hfits
      refine ⟨hof hkept, fun b' hb' => ?_⟩
      exact (hs o b' hb').appendOk_iff.mpr (hfits b' hb')
    · intro h b' hb'
      obtain ⟨-, hok⟩ := h
      exact (hs o b' hb').appendOk_iff.mp (hok b' hb')
  | @resize o n b hb =>
    refine iff_of_true trivial ⟨hof (hs.update o fun b' hb' => ?_), fun b' _ => b'.resizeOk n⟩
    cases hb'
    exact (hs o b hb).resize n
  | @clear o b hb =>
    refine iff_of_true trivial ⟨hof (hs.update o fun b' hb' => ?_), trivial⟩
    cases hb'
    exact (hs o b hb).clear
  | @moveConstruct o src v ho hv =>
    have hmove := hs.move_iff (o := o) hv
    constructor
    · intro hfits
      exact ⟨hof (hmove.mpr (hfits v hv)), trivial⟩
    · intro h v' hv'
      obtain ⟨hkept, -⟩ := h
      cases hv.symm.trans hv'
      exact hmove.mp (hkept _ hstep)
  | @selfAssign o => exact iff_of_true (fun hne => absurd rfl hne) ⟨hof hs, trivial⟩
  | @moveAssign o src v hne hv =>
    have hmove := hs.move_iff (o := o) hv
    constructor
    · intro hfits
      exact ⟨hof (hmove.mpr (hfits hne v hv)), trivial⟩
    · intro h _ v' hv'
      obtain ⟨hkept, -⟩ := h
      cases hv.symm.trans hv'
      exact hmove.mp (hkept _ hstep)
  | @destroy o =>
    refine iff_of_true trivial ⟨hof (hs.update o fun b' hb' => ?_), trivial⟩
    cases hb'

/-- **The buffer never writes outside its allocation, where the steps fit.** Over any run, with any
number of buffers and any capacities: every step keeps each buffer sound, signals an overflow
exactly where the new length exceeds the capacity as a number, leaves the buffer as it is then, and
writes inside the array otherwise, if and only if at every step the sum does not wrap around and no
buffer with a capacity is moved from. -/
theorem upholds_iff {history : List (Buffers ι w × Act ι w)} {s : Buffers ι w}
    (h : (buffers ι w).Run (fun _ _ => True) history s) :
    ((∀ x ∈ history, Fits x.1 x.2) ↔ ∀ x ∈ history, Upholds x.1 x.2) ∧
      ((∀ x ∈ history, Fits x.1 x.2) → Kept s) := by
  refine Machine.Run.forall_iff (I := Kept) (fun o b hb => ?_) (fun s a s' hstep hs => ?_)
    (fun s a s' hstep hs hfits => ?_) h
  · cases hb
  · exact hs.step_iff hstep
  · exact ((hs.step_iff hstep).mp hfits).1 s' hstep

/-- An array of eight bytes, of which four are in use. -/
def fourOfEight : List (Act Bool 64) := [.construct false 8, .append false (fun _ => 0) 4]

theorem upholds_iff_four : ∃ history s, (buffers Bool 64).Run (fun _ _ => True) history s ∧
    (s false).map Buffer.len = some 4 ∧
    ((∀ x ∈ history, Fits x.1 x.2) ↔ ∀ x ∈ history, Upholds x.1 x.2) := by
  have hexec : (buffers Bool 64).exec (fun _ _ => True) (buffers Bool 64).init fourOfEight =
    some _ := rfl
  obtain ⟨history, hrun⟩ := (Machine.reach_of_exec hexec).exists_run
  exact ⟨history, _, hrun, rfl, (upholds_iff hrun).1⟩

/-- A sum that wraps around passes the check: the four bytes and `2 ^ 64 - 2` more make two, and the
copy leaves the array of eight. And what is moved from keeps the capacity without the array. -/
theorem not_upheld :
    (∃ s b, (buffers Bool 64).Reachable s ∧ s false = some b ∧ b.owned = 8 ∧
      (b.append (fun _ => 0) (BitVec.ofNat 64 (2 ^ 64 - 2))).1 = .ok ⟨4, 2 ^ 64 + 2⟩ ∧
      ¬ b.AppendOk (fun _ => 0) (BitVec.ofNat 64 (2 ^ 64 - 2))) ∧
    ∃ s b, (buffers Bool 64).Reachable s ∧ s false = some b ∧ b.owned = 0 ∧ b.cap = 8 ∧
      ¬ Kept s := by
  constructor
  · have hexec : (buffers Bool 64).exec (fun _ _ => True) (buffers Bool 64).init fourOfEight =
      some _ := rfl
    refine ⟨_, _, Machine.reach_of_exec hexec, rfl, rfl, rfl, fun hok => ?_⟩
    have hinside : 2 ^ 64 + 2 ≤ 8 := hok.inside ⟨4, 2 ^ 64 + 2⟩ rfl
    exact absurd hinside (by decide)
  · have hexec : (buffers Bool 64).exec (fun _ _ => True) (buffers Bool 64).init
      (fourOfEight ++ [.moveConstruct true false]) = some _ := rfl
    refine ⟨_, _, Machine.reach_of_exec hexec, rfl, rfl, rfl, fun hkept => ?_⟩
    have hcap : 8 = 0 := (hkept false _ rfl).cap_eq
    cases hcap

/-- A buffer that has its array is sound. -/
def Arrayed (b : Buffer w) : Prop := b.data ≠ none → b.Sound

/-- The moves keep that: the one has what the other had, which has no array any more. -/
theorem arrayed_move {s : Buffers ι w} (hs : ∀ o b, s o = some b → Arrayed b) {o src : ι}
    {v : Buffer w} (hv : s src = some v) :
    ∀ o' b, Function.update (Function.update s o (some v)) src (some { v with data := none }) o' =
      some b → Arrayed b := by
  refine forall_update (forall_update hs o fun b hb => ?_) src fun b hb => ?_
  · cases hb
    exact hs src v hv
  · cases hb
    intro hdata
    exact absurd rfl hdata

/-- **A buffer that has its array is sound in every run**, whatever wraps around and whatever is
moved. -/
theorem sound_of_data {guard : Buffers ι w → Act ι w → Prop} {s : Buffers ι w}
    (h : (buffers ι w).Reach guard s) {o : ι} {b : Buffer w} (hb : s o = some b)
    (hdata : b.data ≠ none) : b.Sound := by
  refine h.invariant (I := fun s => ∀ o b, s o = some b → Arrayed b) ?_ ?_ o b hb hdata
  · intro o b hb
    cases hb
  intro s a s' _ _ hstep hs
  cases step_moves hstep with
  | @construct o cap =>
    apply forall_update hs o
    intro b hb
    cases hb
    exact fun _ => Buffer.sound_new cap
  | @append o p n b hb =>
    apply forall_update hs o
    intro b' hb'
    cases hb'
    intro hdata
    refine (hs o b hb fun hnone => hdata ?_).append p n
    unfold Buffer.append
    split
    next => exact hnone
    next => rw [hnone, Option.map_none]
  | @resize o n b hb =>
    apply forall_update hs o
    intro b' hb'
    cases hb'
    intro hdata
    refine (hs o b hb fun hnone => hdata ?_).resize n
    unfold Buffer.resize
    split <;> exact hnone
  | @clear o b hb =>
    apply forall_update hs o
    intro b' hb'
    cases hb'
    exact fun hdata => (hs o b hb hdata).clear
  | moveConstruct _ hv | moveAssign _ hv => exact arrayed_move hs hv
  | selfAssign => exact hs
  | @destroy o =>
    apply forall_update hs o
    intro b' hb'
    cases hb'

/-- **Where there is an array, the sums alone decide**: in any run, an `append` to a buffer that has
its array does what it has to exactly if the sum does not wrap around. -/
theorem append_inside {guard : Buffers ι w → Act ι w → Prop} {s : Buffers ι w}
    (h : (buffers ι w).Reach guard s) {o : ι} {b : Buffer w} (hb : s o = some b)
    (hdata : b.data ≠ none) (p : Nat → UInt8) (n : BitVec w) :
    b.AppendOk p n ↔ b.len.toNat + n.toNat < 2 ^ w :=
  (sound_of_data h hb hdata).appendOk_iff

end Buffers

end Cfd.Util
