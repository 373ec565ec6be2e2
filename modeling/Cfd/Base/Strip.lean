import Mathlib.Data.List.DropRight

/-!
# Stripping

A list without the elements that have a property at its two ends. `strip_eq` says that it does not
matter at which end one begins, `strip_around` that what has the property may stand around a list,
and `strip_append_cons` that an element without it keeps the two sides apart.
-/

set_option autoImplicit false

namespace Cfd.Base

variable {α : Type} (p : α → Bool)

/-- Without what has the property at the front, and then at the back. -/
def strip (s : List α) : List α := (s.dropWhile p).rdropWhile p

/-- An element in front of a list is taken off its back with it, or not at all. -/
theorem rdropWhile_cons (c : α) (s : List α) :
    (c :: s).rdropWhile p =
      if (s.rdropWhile p).isEmpty then [c].rdropWhile p else c :: s.rdropWhile p := by
  simp only [List.rdropWhile, List.reverse_cons, List.dropWhile_append, List.reverse_nil,
    List.nil_append, List.isEmpty_reverse]
  split
  next => rfl
  next => rw [List.reverse_append, List.reverse_singleton, List.singleton_append]

/-- What is taken off the back ends at the last element without the property. -/
theorem rdropWhile_append_cons (s : List α) {c : α} (hc : p c = false) (t : List α) :
    (s ++ c :: t).rdropWhile p = s ++ c :: t.rdropWhile p := by
  have hcons : (c :: t).rdropWhile p = c :: t.rdropWhile p := by
    rw [rdropWhile_cons]
    split
    next hnil =>
      rw [List.isEmpty_iff.mp hnil, List.rdropWhile_singleton, if_neg (by simp [hc])]
    next => rfl
  induction s with
  | nil => exact hcons
  | cons d s ih => rw [List.cons_append, rdropWhile_cons, ih, if_neg (by simp), List.cons_append]

/-- **It does not matter at which end one begins.** -/
theorem strip_eq (s : List α) : strip p s = (s.rdropWhile p).dropWhile p := by
  unfold strip
  induction s with
  | nil => rfl
  | cons c s ih =>
    by_cases hc : p c = true
    · rw [List.dropWhile_cons_of_pos hc, ih, rdropWhile_cons]
      split
      next hnil =>
        rw [List.rdropWhile_singleton, if_pos hc, List.isEmpty_iff.mp hnil]
      next => rw [List.dropWhile_cons_of_pos hc]
    · have hfalse : p c = false := by simpa using hc
      rw [List.dropWhile_cons_of_neg hc, ← List.nil_append (c :: s),
        rdropWhile_append_cons p [] hfalse, List.nil_append, List.dropWhile_cons_of_neg hc]

/-- What has the property may stand around a list. -/
theorem strip_around {a b : List α} (ha : ∀ c ∈ a, p c = true) (hb : ∀ c ∈ b, p c = true)
    (s : List α) : strip p (a ++ s ++ b) = strip p s := by
  have hfront : ∀ t, strip p (a ++ t) = strip p t := by
    intro t
    rw [strip, List.dropWhile_append_of_pos ha, strip]
  have hback : strip p (s ++ b) = strip p s := by
    have hdrop : (b.reverse ++ s.reverse).dropWhile p = s.reverse.dropWhile p := by
      apply List.dropWhile_append_of_pos
      intro c hc
      exact hb c (List.mem_reverse.mp hc)
    rw [strip_eq, strip_eq, List.rdropWhile, List.reverse_append, hdrop, List.rdropWhile]
  rw [List.append_assoc, hfront, hback]

/-- A list around an element without the property: only its ends are stripped. -/
theorem strip_append_cons (s : List α) {c : α} (hc : p c = false) (t : List α) :
    strip p (s ++ c :: t) = s.dropWhile p ++ c :: t.rdropWhile p := by
  have hfront : (s ++ c :: t).dropWhile p = s.dropWhile p ++ c :: t := by
    rw [List.dropWhile_append]
    split
    next hnil =>
      rw [List.isEmpty_iff.mp hnil, List.nil_append, List.dropWhile_cons_of_neg (by simp [hc])]
    next => rfl
  rw [strip, hfront, rdropWhile_append_cons p _ hc]

theorem strip_dropWhile (s : List α) : strip p (s.dropWhile p) = strip p s := by
  rw [strip, List.dropWhile_idempotent, strip]

theorem strip_rdropWhile (s : List α) : strip p (s.rdropWhile p) = strip p s := by
  rw [strip_eq, strip_eq, List.rdropWhile_idempotent]

/-- What a stripped list begins with. -/
theorem head?_strip (s : List α) : (strip p s).head? = (s.dropWhile p).head? := by
  unfold strip
  match h : s.dropWhile p with
  | [] => rfl
  | c :: t =>
    have hc : p c = false := by
      have hhead := List.head?_dropWhile_not p s
      rw [h] at hhead
      simpa using hhead
    rw [← List.nil_append (c :: t), rdropWhile_append_cons p [] hc]
    rfl

theorem strip_strip (s : List α) : strip p (strip p s) = strip p s := by
  conv_lhs => rw [strip_eq]
  have hback : (strip p s).rdropWhile p = strip p s := List.rdropWhile_idempotent p _
  rw [hback, strip_eq]
  exact List.dropWhile_idempotent p _

/-- A list without the property anywhere is left as it is. -/
theorem strip_eq_self {s : List α} (h : ∀ c ∈ s, p c = false) : strip p s = s := by
  have hfront : s.dropWhile p = s := by
    cases s with
    | nil => rfl
    | cons c s => rw [List.dropWhile_cons, h c List.mem_cons_self, if_neg Bool.false_ne_true]
  rw [strip, hfront, List.rdropWhile_eq_self_iff]
  intro hne
  rw [h _ (List.getLast_mem hne)]
  exact Bool.false_ne_true

theorem mem_of_mem_strip {s : List α} {c : α} (h : c ∈ strip p s) : c ∈ s :=
  (List.dropWhile_suffix p).subset ((List.rdropWhile_prefix p _).subset h)

end Cfd.Base
