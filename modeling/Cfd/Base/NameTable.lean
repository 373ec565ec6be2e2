import Mathlib.Logic.Function.Basic

/-!
# A table of names that are handed out again

A system gives out names, such as small numbers, takes them back, and may give out a name again that
it has taken back. What a name is given out for is a thing of its own each time: things are numbered
in the order in which they came to be, and a table says which thing a name stands for now.

In a `NameTable` no two names stand for one thing, and the thing that is bound next is new. A thing
that has lost its name does not get one again (`lookup_bind`), however often the name is given out.
-/

set_option autoImplicit false

namespace Cfd.Base

/-- What each name stands for, and how many things there have been. -/
structure NameTable (ν : Type) where
  next : Nat
  lookup : ν → Option Nat
  lt : ∀ k d, lookup k = some d → d < next
  inj : ∀ k k' d, lookup k = some d → lookup k' = some d → k = k'

namespace NameTable

variable {ν : Type}

/-- No name has been given out. -/
def empty : NameTable ν where
  next := 0
  lookup _ := none
  lt _ d h := (Option.some_ne_none d h.symm).elim
  inj _ _ d h := (Option.some_ne_none d h.symm).elim

@[simp] theorem lookup_empty (k : ν) : (empty : NameTable ν).lookup k = none := rfl

/-- The thing has a name. -/
def Bound (t : NameTable ν) (d : Nat) : Prop := ∃ k, t.lookup k = some d

variable [DecidableEq ν]

theorem lookup_update {t : NameTable ν} {k k' : ν} {x : Option Nat} {d : Nat}
    (h : Function.update t.lookup k x k' = some d) :
    (k' = k ∧ x = some d) ∨ (k' ≠ k ∧ t.lookup k' = some d) := by
  by_cases hk : k' = k
  · subst hk
    rw [Function.update_self] at h
    exact Or.inl ⟨rfl, h⟩
  · rw [Function.update_of_ne hk] at h
    exact Or.inr ⟨hk, h⟩

theorem bind_lt (t : NameTable ν) (k k' : ν) (d : Nat)
    (h : Function.update t.lookup k (some t.next) k' = some d) : d < t.next + 1 := by
  rcases lookup_update h with ⟨-, hnew⟩ | ⟨-, hold⟩
  · cases hnew
    exact Nat.lt_succ_self _
  · exact Nat.lt_succ_of_lt (t.lt k' d hold)

theorem bind_inj (t : NameTable ν) (k k₁ k₂ : ν) (d : Nat)
    (h₁ : Function.update t.lookup k (some t.next) k₁ = some d)
    (h₂ : Function.update t.lookup k (some t.next) k₂ = some d) : k₁ = k₂ := by
  rcases lookup_update h₁ with ⟨hk₁, hnew₁⟩ | ⟨-, hold₁⟩
  · rcases lookup_update h₂ with ⟨hk₂, -⟩ | ⟨-, hold₂⟩
    · exact hk₁.trans hk₂.symm
    · cases hnew₁
      exact absurd (t.lt k₂ _ hold₂) (Nat.lt_irrefl _)
  · rcases lookup_update h₂ with ⟨-, hnew₂⟩ | ⟨-, hold₂⟩
    · cases hnew₂
      exact absurd (t.lt k₁ _ hold₁) (Nat.lt_irrefl _)
    · exact t.inj k₁ k₂ d hold₁ hold₂

/-- The name `k` is given out, for a new thing. -/
def bind (t : NameTable ν) (k : ν) : NameTable ν where
  next := t.next + 1
  lookup := Function.update t.lookup k (some t.next)
  lt := t.bind_lt k
  inj := t.bind_inj k

theorem unbind_lt (t : NameTable ν) (k k' : ν) (d : Nat)
    (h : Function.update t.lookup k none k' = some d) : d < t.next := by
  rcases lookup_update h with ⟨-, hnone⟩ | ⟨-, hold⟩
  · cases hnone
  · exact t.lt k' d hold

theorem unbind_inj (t : NameTable ν) (k k₁ k₂ : ν) (d : Nat)
    (h₁ : Function.update t.lookup k none k₁ = some d)
    (h₂ : Function.update t.lookup k none k₂ = some d) : k₁ = k₂ := by
  rcases lookup_update h₁ with ⟨-, hnone⟩ | ⟨-, hold₁⟩
  · cases hnone
  · rcases lookup_update h₂ with ⟨-, hnone⟩ | ⟨-, hold₂⟩
    · cases hnone
    · exact t.inj k₁ k₂ d hold₁ hold₂

/-- The name `k` is taken back. -/
def unbind (t : NameTable ν) (k : ν) : NameTable ν where
  next := t.next
  lookup := Function.update t.lookup k none
  lt := t.unbind_lt k
  inj := t.unbind_inj k

@[simp] theorem next_bind (t : NameTable ν) (k : ν) : (t.bind k).next = t.next + 1 := rfl

@[simp] theorem next_unbind (t : NameTable ν) (k : ν) : (t.unbind k).next = t.next := rfl

/-- **What a name stands for after one has been given out**: the new thing, or what it stood for. -/
theorem lookup_bind {t : NameTable ν} {k k' : ν} {d : Nat} :
    (t.bind k).lookup k' = some d ↔ (k' = k ∧ d = t.next) ∨ (k' ≠ k ∧ t.lookup k' = some d) := by
  constructor
  · intro h
    rcases lookup_update h with ⟨hk, hnew⟩ | hold
    · exact Or.inl ⟨hk, (Option.some.inj hnew).symm⟩
    · exact Or.inr hold
  · intro h
    rcases h with ⟨rfl, rfl⟩ | ⟨hk, hold⟩
    · exact Function.update_self ..
    · exact (Function.update_of_ne hk ..).trans hold

/-- **What a name stands for after one has been taken back.** -/
theorem lookup_unbind {t : NameTable ν} {k k' : ν} {d : Nat} :
    (t.unbind k).lookup k' = some d ↔ k' ≠ k ∧ t.lookup k' = some d := by
  constructor
  · intro h
    rcases lookup_update h with ⟨-, hnone⟩ | hold
    · cases hnone
    · exact hold
  · intro h
    obtain ⟨hk, hold⟩ := h
    exact (Function.update_of_ne hk ..).trans hold

@[simp] theorem lookup_unbind_self (t : NameTable ν) (k : ν) : (t.unbind k).lookup k = none :=
  Function.update_self ..

/-- The things that have a name after one more has been given out. -/
theorem bound_bind {t : NameTable ν} {k : ν} (hk : t.lookup k = none) (d : Nat) :
    (t.bind k).Bound d ↔ d = t.next ∨ t.Bound d := by
  constructor
  · intro h
    obtain ⟨k', h⟩ := h
    rcases lookup_bind.mp h with ⟨-, hnew⟩ | ⟨-, hold⟩
    · exact Or.inl hnew
    · exact Or.inr ⟨k', hold⟩
  · intro h
    rcases h with rfl | ⟨k', hold⟩
    · exact ⟨k, lookup_bind.mpr (Or.inl ⟨rfl, rfl⟩)⟩
    · refine ⟨k', lookup_bind.mpr (Or.inr ⟨?_, hold⟩)⟩
      intro heq
      subst heq
      exact nomatch hk.symm.trans hold

/-- The things that have a name after one has been taken back. -/
theorem bound_unbind {t : NameTable ν} {k : ν} {x : Nat} (hk : t.lookup k = some x) (d : Nat) :
    (t.unbind k).Bound d ↔ d ≠ x ∧ t.Bound d := by
  constructor
  · intro h
    obtain ⟨k', h⟩ := h
    obtain ⟨hne, hold⟩ := lookup_unbind.mp h
    refine ⟨?_, k', hold⟩
    intro heq
    subst heq
    exact hne (t.inj _ _ _ hold hk)
  · intro h
    obtain ⟨hne, k', hold⟩ := h
    refine ⟨k', lookup_unbind.mpr ⟨?_, hold⟩⟩
    intro heq
    subst heq
    exact hne (Option.some.inj (hold.symm.trans hk))

end NameTable

end Cfd.Base
