import Mathlib.Logic.Function.Basic

/-!
# Custody of things that have to be disposed of

Things are acquired one after another and numbered in that order. Each is to be disposed of once, in
two steps, the start of its disposal and the end. In between it is in a cell that several actors
share, or with one of them: an actor acquires a thing, and it swaps what it has with what the cell
has, by which it stores the one and takes out the other.

`Sound` says that this is how it is: what the cell or an actor has is acquired and untouched, no
thing is in two places, and what is nowhere has been disposed of. `Step` are the ways to act that
keep it.
-/

set_option autoImplicit false

namespace Cfd.Base

/-- What an actor has: nothing, a thing, or one whose disposal it has begun. -/
inductive Grip where
  | empty
  | full (h : Nat)
  | ending (h : Nat)
  deriving DecidableEq

/-- The grip of what may be nothing. -/
def Grip.given : Option Nat → Grip
  | none => .empty
  | some h => .full h

theorem Grip.given_eq_full {x : Option Nat} {h : Nat} (heq : Grip.given x = .full h) :
    x = some h := by
  cases x with
  | none => cases heq
  | some h' =>
    cases heq
    rfl

theorem Grip.given_ne_ending {x : Option Nat} {h : Nat} : Grip.given x ≠ .ending h := by
  cases x with
  | none => nofun
  | some h' => nofun

/-- The things, the cell, and what the actors have. -/
@[ext]
structure Custody (ι : Type) where
  /-- The number acquired. -/
  next : Nat
  cell : Option Nat
  grip : ι → Grip
  /-- Its disposal has begun. -/
  begun : Nat → Bool
  /-- Its disposal has ended. -/
  ended : Nat → Bool

namespace Custody

variable {ι : Type}

/-- Acquired and untouched. -/
def Live (c : Custody ι) (h : Nat) : Prop := h < c.next ∧ c.begun h = false

/-- Every thing acquired is in one place, or disposed of. -/
structure Sound (c : Custody ι) : Prop where
  cell : ∀ h, c.cell = some h → c.Live h
  full : ∀ i h, c.grip i = .full h → c.Live h ∧ c.cell ≠ some h
  only : ∀ i j h, c.grip i = .full h → c.grip j = .full h → i = j
  ending : ∀ i h, c.grip i = .ending h → h < c.next ∧ c.begun h = true
  placed : ∀ h, h < c.next →
    c.cell = some h ∨ (∃ i, c.grip i = .full h ∨ c.grip i = .ending h) ∨ c.ended h = true
  begun : ∀ h, h < c.next → c.ended h = true → c.begun h = true

variable [DecidableEq ι]

/-- The ways to act. -/
inductive Step (c : Custody ι) : Custody ι → Prop
  | stay : Step c c
  | acquire (i : ι) : c.grip i = .empty →
      Step c { c with
        next := c.next + 1
        grip := Function.update c.grip i (.full c.next)
        begun := Function.update c.begun c.next false
        ended := Function.update c.ended c.next false }
  | swap (i : ι) (x : Option Nat) : c.grip i = .given x →
      Step c { c with cell := x, grip := Function.update c.grip i (.given c.cell) }
  | start (i : ι) (h : Nat) : c.grip i = .full h →
      Step c { c with
        grip := Function.update c.grip i (.ending h)
        begun := Function.update c.begun h true }
  | finish (i : ι) (h : Nat) : c.grip i = .ending h →
      Step c { c with
        grip := Function.update c.grip i .empty
        ended := Function.update c.ended h true }

/-! ## The steps keep it -/

variable {c c' : Custody ι}

/-- What an actor has after one of them has come to have `g`. -/
theorem grip_update {i j : ι} {g g' : Grip} (h : Function.update c.grip i g j = g') :
    (j = i ∧ g = g') ∨ (j ≠ i ∧ c.grip j = g') := by
  by_cases hji : j = i
  · subst hji
    rw [Function.update_self] at h
    exact Or.inl ⟨rfl, h⟩
  · rw [Function.update_of_ne hji] at h
    exact Or.inr ⟨hji, h⟩

/-- The others have what they had. -/
theorem placed_update {i j : ι} {g : Grip} {h : Nat} (hji : j ≠ i)
    (hj : c.grip j = .full h ∨ c.grip j = .ending h) :
    ∃ k, Function.update c.grip i g k = .full h ∨ Function.update c.grip i g k = .ending h := by
  refine ⟨j, ?_⟩
  rwa [Function.update_of_ne hji]

/-- An actor comes to have a thing that is new. -/
theorem Sound.acquire (hc : c.Sound) {i : ι} (hi : c.grip i = .empty) : Sound { c with
    next := c.next + 1
    grip := Function.update c.grip i (.full c.next)
    begun := Function.update c.begun c.next false
    ended := Function.update c.ended c.next false } := by
  have hold : ∀ h, h < c.next → h ≠ c.next := fun h hlt => Nat.ne_of_lt hlt
  have hlive : ∀ h, c.Live h → h < c.next + 1 ∧ Function.update c.begun c.next false h = false := by
    intro h hh
    refine ⟨Nat.lt_succ_of_lt hh.1, ?_⟩
    rw [Function.update_of_ne (hold h hh.1)]
    exact hh.2
  refine ⟨fun h hcell => hlive h (hc.cell h hcell), fun j h hj => ?_, fun j k h hj hk => ?_,
    fun j h hj => ?_, fun h hlt => ?_, fun h hlt hended => ?_⟩
  · rcases grip_update hj with ⟨-, heq⟩ | ⟨-, hj⟩
    · cases heq
      exact ⟨⟨Nat.lt_succ_self _, Function.update_self ..⟩, fun hcell =>
        hold _ (hc.cell _ hcell).1 rfl⟩
    · exact ⟨hlive h (hc.full j h hj).1, (hc.full j h hj).2⟩
  · rcases grip_update hj with ⟨rfl, heq⟩ | ⟨-, hj⟩
    · cases heq
      rcases grip_update hk with ⟨rfl, -⟩ | ⟨-, hk⟩
      · rfl
      · exact absurd rfl (hold _ (hc.full k _ hk).1.1)
    · rcases grip_update hk with ⟨-, heq⟩ | ⟨-, hk⟩
      · cases heq
        exact absurd rfl (hold _ (hc.full j _ hj).1.1)
      · exact hc.only j k h hj hk
  · rcases grip_update hj with ⟨-, heq⟩ | ⟨-, hj⟩
    · cases heq
    · obtain ⟨hlt, hbegun⟩ := hc.ending j h hj
      refine ⟨Nat.lt_succ_of_lt hlt, ?_⟩
      change Function.update c.begun c.next false h = true
      rwa [Function.update_of_ne (hold h hlt)]
  · by_cases hnew : h = c.next
    · subst hnew
      exact Or.inr (Or.inl ⟨i, Or.inl (Function.update_self ..)⟩)
    · have hlt' : h < c.next := Nat.lt_of_le_of_ne (Nat.le_of_lt_succ hlt) hnew
      rcases hc.placed h hlt' with hcell | ⟨j, hj⟩ | hended
      · exact Or.inl hcell
      · have hji : j ≠ i := by
          rintro rfl
          rw [hi] at hj
          rcases hj with hj | hj <;> cases hj
        exact Or.inr (Or.inl (placed_update hji hj))
      · refine Or.inr (Or.inr ?_)
        change Function.update c.ended c.next false h = true
        rwa [Function.update_of_ne hnew]
  · change Function.update c.ended c.next false h = true at hended
    change Function.update c.begun c.next false h = true
    by_cases hnew : h = c.next
    · subst hnew
      rw [Function.update_self] at hended
      cases hended
    · rw [Function.update_of_ne hnew] at hended ⊢
      exact hc.begun h (Nat.lt_of_le_of_ne (Nat.le_of_lt_succ hlt) hnew) hended

/-- An actor swaps what it has with what the cell has. -/
theorem Sound.swap (hc : c.Sound) {i : ι} {x : Option Nat} (hi : c.grip i = .given x) :
    Sound { c with cell := x, grip := Function.update c.grip i (.given c.cell) } := by
  have hfull : ∀ h, x = some h → c.grip i = .full h := by
    rintro h rfl
    exact hi
  refine ⟨fun h hcell => (hc.full i h (hfull h hcell)).1, fun j h hj => ?_, fun j k h hj hk => ?_,
    fun j h hj => ?_, fun h hlt => ?_, hc.begun⟩
  · rcases grip_update hj with ⟨rfl, heq⟩ | ⟨hji, hj⟩
    · have hcell := Grip.given_eq_full heq
      exact ⟨hc.cell h hcell, fun hx => (hc.full j h (hfull h hx)).2 hcell⟩
    · exact ⟨(hc.full j h hj).1, fun hx => hji (hc.only j i h hj (hfull h hx))⟩
  · rcases grip_update hj with ⟨rfl, heq⟩ | ⟨-, hj⟩
    · rcases grip_update hk with ⟨rfl, -⟩ | ⟨-, hk⟩
      · rfl
      · exact absurd (Grip.given_eq_full heq) (hc.full k h hk).2
    · rcases grip_update hk with ⟨-, heq⟩ | ⟨-, hk⟩
      · exact absurd (Grip.given_eq_full heq) (hc.full j h hj).2
      · exact hc.only j k h hj hk
  · rcases grip_update hj with ⟨-, heq⟩ | ⟨-, hj⟩
    · exact absurd heq Grip.given_ne_ending
    · exact hc.ending j h hj
  · rcases hc.placed h hlt with hcell | ⟨j, hj⟩ | hended
    · refine Or.inr (Or.inl ⟨i, Or.inl ?_⟩)
      change Function.update c.grip i (.given c.cell) i = .full h
      rw [Function.update_self, hcell]
      rfl
    · by_cases hji : j = i
      · subst hji
        rw [hi] at hj
        rcases hj with hj | hj
        · exact Or.inl (Grip.given_eq_full hj)
        · exact absurd hj Grip.given_ne_ending
      · exact Or.inr (Or.inl (placed_update hji hj))
    · exact Or.inr (Or.inr hended)

/-- An actor begins to dispose of what it has. -/
theorem Sound.start (hc : c.Sound) {i : ι} {h : Nat} (hi : c.grip i = .full h) : Sound { c with
    grip := Function.update c.grip i (.ending h)
    begun := Function.update c.begun h true } := by
  have hlive : ∀ x, x ≠ h → c.Live x → x < c.next ∧ Function.update c.begun h true x = false := by
    intro x hne hx
    refine ⟨hx.1, ?_⟩
    rw [Function.update_of_ne hne]
    exact hx.2
  have hbegun : ∀ x, c.begun x = true → Function.update c.begun h true x = true := by
    intro x hx
    by_cases hxh : x = h
    · subst hxh
      exact Function.update_self ..
    · rwa [Function.update_of_ne hxh]
  refine ⟨fun x hx => hlive x ?_ (hc.cell x hx), fun j x hj => ?_, fun j k x hj hk => ?_,
    fun j x hj => ?_, fun x hlt => ?_, fun x hlt hx => hbegun x (hc.begun x hlt hx)⟩
  · rintro rfl
    exact (hc.full i x hi).2 hx
  · rcases grip_update hj with ⟨-, heq⟩ | ⟨hji, hhad⟩
    · cases heq
    · refine ⟨hlive x ?_ (hc.full j x hhad).1, (hc.full j x hhad).2⟩
      rintro rfl
      exact hji (hc.only j i x hhad hi)
  · rcases grip_update hj with ⟨-, heq⟩ | ⟨-, hj⟩
    · cases heq
    · rcases grip_update hk with ⟨-, heq⟩ | ⟨-, hk⟩
      · cases heq
      · exact hc.only j k x hj hk
  · rcases grip_update hj with ⟨-, heq⟩ | ⟨-, hj⟩
    · cases heq
      exact ⟨(hc.full i h hi).1.1, Function.update_self ..⟩
    · exact ⟨(hc.ending j x hj).1, hbegun x (hc.ending j x hj).2⟩
  · rcases hc.placed x hlt with hcell | ⟨j, hj⟩ | hended
    · exact Or.inl hcell
    · by_cases hji : j = i
      · subst hji
        rw [hi] at hj
        rcases hj with hj | hj
        · cases hj
          exact Or.inr (Or.inl ⟨j, Or.inr (Function.update_self ..)⟩)
        · cases hj
      · exact Or.inr (Or.inl (placed_update hji hj))
    · exact Or.inr (Or.inr hended)

/-- A disposal comes to its end. -/
theorem Sound.finish (hc : c.Sound) {i : ι} {h : Nat} (hi : c.grip i = .ending h) : Sound { c with
    grip := Function.update c.grip i .empty
    ended := Function.update c.ended h true } := by
  have hgrip : ∀ j g, g ≠ Grip.empty → Function.update c.grip i .empty j = g → c.grip j = g := by
    intro j g hg hj
    rcases grip_update hj with ⟨-, heq⟩ | ⟨-, hj⟩
    · exact absurd heq.symm hg
    · exact hj
  refine ⟨hc.cell, fun j x hj => hc.full j x (hgrip j _ nofun hj),
    fun j k x hj hk => hc.only j k x (hgrip j _ nofun hj) (hgrip k _ nofun hk),
    fun j x hj => hc.ending j x (hgrip j _ nofun hj), fun x hlt => ?_, fun x hlt hx => ?_⟩
  · by_cases hxh : x = h
    · subst hxh
      exact Or.inr (Or.inr (Function.update_self ..))
    · rcases hc.placed x hlt with hcell | ⟨j, hj⟩ | hended
      · exact Or.inl hcell
      · have hji : j ≠ i := by
          rintro rfl
          rw [hi] at hj
          rcases hj with hj | hj <;> cases hj
          exact hxh rfl
        exact Or.inr (Or.inl (placed_update hji hj))
      · refine Or.inr (Or.inr ?_)
        change Function.update c.ended h true x = true
        rwa [Function.update_of_ne hxh]
  · change Function.update c.ended h true x = true at hx
    by_cases hxh : x = h
    · subst hxh
      exact (hc.ending i x hi).2
    · rw [Function.update_of_ne hxh] at hx
      exact hc.begun x hlt hx

/-- **Every step keeps custody.** -/
theorem Sound.step (hc : c.Sound) (h : c.Step c') : c'.Sound := by
  cases h with
  | stay => exact hc
  | acquire i hi => exact hc.acquire hi
  | swap i x hi => exact hc.swap hi
  | start i h hi => exact hc.start hi
  | finish i h hi => exact hc.finish hi

omit [DecidableEq ι] in
/-- **What nobody has is disposed of.** -/
theorem Sound.all_ended (hc : c.Sound) (hcell : c.cell = none) (hgrip : ∀ i, c.grip i = .empty)
    {h : Nat} (hlt : h < c.next) : c.ended h = true := by
  rcases hc.placed h hlt with hh | ⟨i, hh | hh⟩ | hh
  · rw [hcell] at hh
    cases hh
  · rw [hgrip i] at hh
    cases hh
  · rw [hgrip i] at hh
    cases hh
  · exact hh

end Custody

end Cfd.Base
