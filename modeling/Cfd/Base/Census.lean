import Mathlib.Data.Finset.Card

/-!
# Counting the members of a changing predicate

`Numbers n P` says that finitely many things have `P`, and that `n` is their number. A counter that a
program raises when something comes to have `P`, and lowers when it ceases to, keeps it: `enter` and
`leave` are these two steps, `congr` is a step that changes `P` for nothing.

The type may be infinite. `n` is an integer, so that a counter that is lowered too often can be
written down.
-/

set_option autoImplicit false

namespace Cfd.Base

/-- `n` is the number of things that have `P`. -/
def Numbers {ι : Type} (n : Int) (P : ι → Prop) : Prop :=
  ∃ members : Finset ι, (∀ i, i ∈ members ↔ P i) ∧ n = members.card

namespace Numbers

variable {ι : Type} {n : Int} {P P' : ι → Prop}

/-- Nothing has `P`. -/
theorem none (h : ∀ i, ¬ P i) : Numbers 0 P :=
  ⟨∅, fun i => ⟨nofun, fun hi => absurd hi (h i)⟩, rfl⟩

theorem congr (h : Numbers n P) (hP : ∀ i, P i ↔ P' i) : Numbers n P' := by
  obtain ⟨members, hmem, hcard⟩ := h
  exact ⟨members, fun i => (hmem i).trans (hP i), hcard⟩

theorem nonneg (h : Numbers n P) : 0 ≤ n := by
  obtain ⟨members, -, hcard⟩ := h
  rw [hcard]
  exact Int.natCast_nonneg _

/-- What is counted makes the count positive. -/
theorem pos (h : Numbers n P) {i : ι} (hi : P i) : 0 < n := by
  obtain ⟨members, hmem, hcard⟩ := h
  rw [hcard]
  exact Int.natCast_pos.mpr (Finset.card_pos.mpr ⟨i, (hmem i).mpr hi⟩)

variable [DecidableEq ι]

/-- One more. -/
theorem enter (h : Numbers n P) {i : ι} (hi : ¬ P i) (hP : ∀ j, P' j ↔ j = i ∨ P j) :
    Numbers (n + 1) P' := by
  obtain ⟨members, hmem, hcard⟩ := h
  have hnew : i ∉ members := fun hold => hi ((hmem i).mp hold)
  refine ⟨insert i members, fun j => ?_, ?_⟩
  · rw [Finset.mem_insert, hmem, hP]
  · rw [Finset.card_insert_of_notMem hnew, hcard]
    rfl

/-- One less. -/
theorem leave (h : Numbers n P) {i : ι} (hi : P i) (hP : ∀ j, P' j ↔ j ≠ i ∧ P j) :
    Numbers (n - 1) P' := by
  obtain ⟨members, hmem, hcard⟩ := h
  have hold : i ∈ members := (hmem i).mpr hi
  refine ⟨members.erase i, fun j => ?_, ?_⟩
  · rw [Finset.mem_erase, hmem, hP]
  · rw [← Finset.card_erase_add_one hold] at hcard
    omega

/-- A change of `P` for one thing at most, told by whether it has `P` before and after. -/
theorem update {α : Type} (Q : α → Prop) {f : ι → α} (h : Numbers n fun i => Q (f i)) (i : ι)
    (x : α) :
    (¬ Q (f i) → Q x → Numbers (n + 1) fun j => Q (Function.update f i x j)) ∧
      (Q (f i) → ¬ Q x → Numbers (n - 1) fun j => Q (Function.update f i x j)) ∧
      ((Q (f i) ↔ Q x) → Numbers n fun j => Q (Function.update f i x j)) := by
  have hself : Q (Function.update f i x i) ↔ Q x := by rw [Function.update_self]
  have hother : ∀ j, j ≠ i → (Q (Function.update f i x j) ↔ Q (f j)) := fun j hji => by
    rw [Function.update_of_ne hji]
  refine ⟨fun hi hx => h.enter hi fun j => ?_, fun hi hx => h.leave hi fun j => ?_,
    fun hsame => h.congr fun j => ?_⟩
  · by_cases hji : j = i
    · subst hji
      exact ⟨fun _ => Or.inl rfl, fun _ => hself.mpr hx⟩
    · rw [hother j hji]
      exact (or_iff_right hji).symm
  · by_cases hji : j = i
    · subst hji
      exact ⟨fun hq => absurd (hself.mp hq) hx, fun hq => absurd rfl hq.1⟩
    · rw [hother j hji]
      exact (and_iff_right hji).symm
  · by_cases hji : j = i
    · subst hji
      exact hsame.trans hself.symm
    · exact (hother j hji).symm

end Numbers

end Cfd.Base
