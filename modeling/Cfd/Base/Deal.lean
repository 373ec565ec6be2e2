import Mathlib.Algebra.BigOperators.Group.Finset.Piecewise
import Mathlib.Algebra.Order.BigOperators.Group.Finset
import Mathlib.Data.Int.CardIntervalMod

/-!
# Dealing in turn

A sequence is dealt to `n` hands in turn, its element number `j` to the hand `j % n`. `share` counts
what a hand gets of `m` consecutive elements: `share_eq` says how much it is, and `le_share` and
`share_le` that it is `m / n`, rounded down or up.

`countP_eq_share` is the rule for a list that has been dealt so, and `count_mod_eq_sum` the one where
several hands are counted together.
-/

set_option autoImplicit false

namespace Cfd.Base.Deal

/-- How many of the `m` numbers from `start` on are dealt to hand `i` of `n`. -/
def share (n start m i : Nat) : Nat := m.count fun j => (start + j) % n = i

/-- The first of the numbers from `start` on that is dealt to hand `i` is `start` plus this. -/
def first (n start i : Nat) : Nat := (i + (n - start % n)) % n

/-- A number is dealt to hand `i` if it is a multiple of `n` away from the first that is. -/
theorem add_mod_eq_iff {n i : Nat} (hi : i < n) (start j : Nat) :
    (start + j) % n = i ↔ j ≡ first n start i [MOD n] := by
  have hlt : start % n < n := Nat.mod_lt _ (by omega)
  have hback : start + (i + (n - start % n)) = i + n * (start / n + 1) := by
    have hdiv := Nat.div_add_mod start n
    rw [Nat.mul_add, Nat.mul_one]
    omega
  have hfirst : start + first n start i ≡ i [MOD n] := by
    calc start + first n start i ≡ start + (i + (n - start % n)) [MOD n] :=
          (Nat.mod_modEq _ n).add_left start
      _ ≡ i [MOD n] := by
          rw [hback]
          exact Nat.add_mul_mod_self_left i n _
  constructor
  · intro h
    have hmod : start + j ≡ i [MOD n] := by
      rw [Nat.ModEq, h, Nat.mod_eq_of_lt hi]
    exact Nat.ModEq.add_left_cancel' start (hmod.trans hfirst.symm)
  · intro h
    have hmod : start + j ≡ i [MOD n] := (h.add_left start).trans hfirst
    rw [Nat.ModEq, Nat.mod_eq_of_lt hi] at hmod
    exact hmod

/-- **What a hand gets.** -/
theorem share_eq {n i : Nat} (hi : i < n) (start m : Nat) :
    share n start m i = m / n + if first n start i < m % n then 1 else 0 := by
  have hn : 0 < n := by omega
  have hlt : first n start i < n := Nat.mod_lt _ hn
  unfold share
  simp only [add_mod_eq_iff hi]
  rw [Nat.count_modEq_card m hn, Nat.mod_eq_of_lt hlt]

theorem le_share {n i : Nat} (hi : i < n) (start m : Nat) : m / n ≤ share n start m i := by
  rw [share_eq hi]
  exact Nat.le_add_right _ _

theorem share_le {n i : Nat} (hi : i < n) (start m : Nat) :
    share n start m i ≤ (m + n - 1) / n := by
  have hn : 0 < n := by omega
  rw [share_eq hi]
  split
  next hlt =>
    -- what is left over after the full rounds is one round more, rounded up
    have hdiv := Nat.div_add_mod m n
    rw [Nat.le_div_iff_mul_le hn, Nat.add_mul, Nat.one_mul, Nat.mul_comm]
    omega
  next =>
    rw [Nat.add_zero]
    exact Nat.div_le_div_right (by omega)

theorem share_succ (n start m i : Nat) :
    share n start (m + 1) i = share n start m i + if (start + m) % n = i then 1 else 0 :=
  Nat.count_succ _ m

/-- What the hands with a property get is the sum of their shares. -/
theorem count_mod_eq_sum {n : Nat} (hn : 0 < n) (p : Nat → Prop) [DecidablePred p] (start m : Nat) :
    (m.count fun j => p ((start + j) % n)) = ∑ i ∈ (Finset.range n).filter p, share n start m i := by
  induction m with
  | zero => exact (Finset.sum_eq_zero fun i _ => Nat.count_zero _).symm
  | succ m ih =>
    have hmem : (start + m) % n ∈ Finset.range n := Finset.mem_range.mpr (Nat.mod_lt _ hn)
    simp only [Nat.count_succ, share_succ, Finset.sum_add_distrib, ih, Finset.sum_ite_eq,
      Finset.mem_filter, hmem, true_and]

/-- Together they get their number of times `m / n`, rounded down or up. -/
theorem count_mod_bounds {n : Nat} (hn : 0 < n) (p : Nat → Prop) [DecidablePred p] (start m : Nat) :
    n.count p * (m / n) ≤ (m.count fun j => p ((start + j) % n)) ∧
      (m.count fun j => p ((start + j) % n)) ≤ n.count p * ((m + n - 1) / n) := by
  have hlt : ∀ i ∈ (Finset.range n).filter p, i < n := fun i hi =>
    Finset.mem_range.mp (Finset.mem_filter.mp hi).1
  rw [count_mod_eq_sum hn, Nat.count_eq_card_filter_range]
  constructor
  · exact Finset.card_nsmul_le_sum _ _ _ fun i hi => le_share (hlt i hi) start m
  · exact Finset.sum_le_card_nsmul _ _ _ fun i hi => share_le (hlt i hi) start m

variable {α : Type}

/-- The elements of a list that have a property, counted by their places. -/
theorem countP_eq_count {p : α → Bool} {q : Nat → Prop} [DecidablePred q] {l : List α}
    (h : ∀ j x, l[j]? = some x → (p x = true ↔ q j)) : l.countP p = l.length.count q := by
  induction l using List.reverseRecOn with
  | nil => rfl
  | append_singleton l x ih =>
    have hlast : p x = true ↔ q l.length := h l.length x List.getElem?_concat_length
    have hold : l.countP p = l.length.count q := by
      apply ih
      intro j y hy
      apply h j y
      rw [List.getElem?_append_left]
      · exact hy
      · exact (List.getElem?_eq_some_iff.mp hy).1
    rw [List.countP_append, List.length_append, List.length_singleton, Nat.count_succ, hold,
      List.countP_singleton]
    simp only [hlast]

/-- **A list that has been dealt.** If its elements go to the hands in turn, the first of them to the
hand `start % n`, those that go to hand `i` are its share. -/
theorem countP_eq_share {n i start : Nat} {hand : α → Nat} {l : List α}
    (h : ∀ j x, l[j]? = some x → hand x = (start + j) % n) :
    l.countP (fun x => hand x = i) = share n start l.length i := by
  apply countP_eq_count
  intro j x hx
  rw [decide_eq_true_eq, h j x hx]

end Cfd.Base.Deal
