import Cfd.Base.Text
import Mathlib.Data.List.Induction
import Mathlib.Data.Nat.Digits.Lemmas
import Mathlib.Tactic.Ring

/-!
# Printing numbers and lines

What `%u` prints, and lines with a newline behind each. `decimal_print` and `lines_unlines` say that
`Text.decimal` and `Text.lines` read them back.
-/

set_option autoImplicit false

namespace Cfd.Base.Text

/-- The digit `d`. -/
def digit (d : Nat) : UInt8 := UInt8.ofNat (48 + d)

/-- A number in decimal, as `%u` prints it. -/
def print (n : Nat) : Text := if n = 0 then [digit 0] else (Nat.digits 10 n).reverse.map digit

theorem digit_spec : ∀ d < 10, isDigit (digit d) = true ∧ digitVal (digit d) = d := by
  decide

/-- Digits continue a number as their powers of ten say. -/
theorem decimalFrom_map_digit {ds : List Nat} (h : ∀ d ∈ ds, d < 10) (n : Nat) :
    decimalFrom n (ds.reverse.map digit) = n * 10 ^ ds.length + Nat.ofDigits 10 ds := by
  induction ds using List.reverseRecOn generalizing n with
  | nil => simp [decimalFrom]
  | append_singleton ds d ih =>
    have hd : d < 10 := h d (by simp)
    rw [List.reverse_append, List.reverse_singleton, List.singleton_append, List.map_cons,
      decimalFrom, ih fun d' hd' => h d' (List.mem_append_left _ hd'), (digit_spec d hd).2,
      Nat.ofDigits_append, Nat.ofDigits_singleton, List.length_append, List.length_singleton]
    ring

/-- **What is printed is read back.** -/
theorem decimal_print (n : Nat) : decimal (print n) = n := by
  unfold print
  by_cases hn : n = 0
  · rw [if_pos hn, hn]
    decide
  · have hlt : ∀ d ∈ Nat.digits 10 n, d < 10 := fun d hd => Nat.digits_lt_base (by decide) hd
    rw [if_neg hn, decimal, decimalFrom_map_digit hlt, Nat.zero_mul, Nat.zero_add,
      Nat.ofDigits_digits]

theorem print_isDigit {n : Nat} {c : UInt8} (h : c ∈ print n) : isDigit c = true := by
  unfold print at h
  split at h
  next =>
    rw [List.mem_singleton.mp h]
    decide
  next =>
    obtain ⟨d, hd, rfl⟩ := List.mem_map.mp h
    have hlt : d < 10 := Nat.digits_lt_base (by decide) (List.mem_reverse.mp hd)
    exact (digit_spec d hlt).1

theorem print_ne_nil (n : Nat) : print n ≠ [] := by
  unfold print
  split
  next => exact List.cons_ne_nil _ _
  next hn =>
    intro hnil
    rw [List.map_eq_nil_iff, List.reverse_eq_nil_iff, Nat.digits_eq_nil_iff_eq_zero] at hnil
    exact hn hnil

theorem length_print {n k : Nat} (hk : 0 < k) (h : n < 10 ^ k) : (print n).length ≤ k := by
  unfold print
  split
  next => exact hk
  next =>
    rw [List.length_map, List.length_reverse]
    exact (Nat.digits_length_le_iff (by decide) n).mpr h

/-! ## Lines -/

/-- Lines with a newline behind each. -/
def unlines : List Text → Text
  | [] => []
  | l :: ls => l ++ 10 :: unlines ls

theorem lines_append_newline {l : Text} (h : 10 ∉ l) (s : Text) :
    lines (l ++ 10 :: s) = l :: lines s := by
  induction l with
  | nil => rfl
  | cons c l ih =>
    rw [List.mem_cons, not_or] at h
    obtain ⟨hc, hl⟩ := h
    rw [List.cons_append, lines, if_neg (Ne.symm hc), ih hl]

/-- **Lines that hold no newline are read back.** -/
theorem lines_unlines {ls : List Text} (h : ∀ l ∈ ls, 10 ∉ l) : lines (unlines ls) = ls := by
  induction ls with
  | nil => rfl
  | cons l ls ih =>
    rw [List.forall_mem_cons] at h
    rw [unlines, lines_append_newline h.1, ih h.2]

/-- And no line of a text holds one. -/
theorem newline_notMem_lines {s l : Text} (h : l ∈ lines s) : 10 ∉ l := by
  induction s generalizing l with
  | nil => cases h
  | cons c s ih =>
    rw [lines] at h
    split at h
    next =>
      rcases List.mem_cons.mp h with rfl | hrest
      · exact List.not_mem_nil
      · exact ih hrest
    next hc =>
      cases hls : lines s with
      | nil =>
        rw [hls] at h
        rw [List.mem_singleton.mp h, List.mem_singleton]
        exact Ne.symm hc
      | cons l₀ ls =>
        rw [hls] at h ih
        rcases List.mem_cons.mp h with rfl | hrest
        · rw [List.mem_cons, not_or]
          exact ⟨Ne.symm hc, ih List.mem_cons_self⟩
        · exact ih (List.mem_cons_of_mem _ hrest)

end Cfd.Base.Text
