import Mathlib.Data.List.Basic
import Mathlib.Data.List.TakeWhile

/-!
# Byte strings

Text as a C++ `std::string` holds it: a list of bytes, any byte allowed. The helpers are the ones
a line-oriented reader needs: the part before and after a separator, the lines of a text, and the
value of a run of decimal digits.

`decimalFrom_mono` is the law a digit loop with an early cap rests on: reading further digits
never lowers the value.
-/

set_option autoImplicit false

namespace Cfd.Base

/-- A byte string. -/
abbrev Text := List UInt8

/-- The bytes of an ASCII literal. -/
def ascii (s : String) : Text := s.toList.map fun c => c.toNat.toUInt8

namespace Text

/-! ## Splitting -/

/-- The part before the first `sep` and the part after it; `none` where there is no `sep`. -/
def cut (sep : UInt8) : Text → Option (Text × Text)
  | [] => none
  | c :: s => if c = sep then some ([], s) else (cut sep s).map fun p => (c :: p.1, p.2)

/-- **A cut is the decomposition at the first separator.** -/
theorem cut_eq_some {sep : UInt8} : ∀ {s a b : Text},
    cut sep s = some (a, b) ↔ s = a ++ sep :: b ∧ sep ∉ a
  | [], a, b => by simp [cut]
  | c :: s, a, b => by
    unfold cut
    by_cases hc : c = sep
    · subst hc
      cases a with
      | nil => simp
      | cons d a =>
        simp only [if_true, Option.some.injEq, Prod.mk.injEq, reduceCtorEq, false_and,
          List.cons_append, List.cons.injEq, List.mem_cons, not_or, false_iff, not_and]
        rintro ⟨rfl, -⟩ hne
        exact absurd rfl hne
    · simp only [hc, if_false, Option.map_eq_some_iff, Prod.exists, Prod.mk.injEq]
      constructor
      · rintro ⟨a', b', hcut, rfl, rfl⟩
        obtain ⟨rfl, hmem⟩ := cut_eq_some.mp hcut
        exact ⟨rfl, by simp [hmem, Ne.symm hc]⟩
      · rintro ⟨heq, hmem⟩
        cases a with
        | nil => exact absurd (List.cons.inj heq).1 hc
        | cons d a =>
          obtain ⟨rfl, rfl⟩ := List.cons.inj heq
          exact ⟨a, b, cut_eq_some.mpr ⟨rfl, fun h => hmem (List.mem_cons_of_mem _ h)⟩, rfl, rfl⟩

/-- A cut, said with the part before the first separator and the part behind it. -/
theorem cut_eq (sep : UInt8) (s : Text) :
    cut sep s =
      if sep ∈ s then some (s.takeWhile (· ≠ sep), (s.dropWhile (· ≠ sep)).drop 1) else none := by
  induction s with
  | nil => rfl
  | cons c s ih =>
    unfold cut
    by_cases hc : c = sep
    · simp [hc]
    · rw [if_neg hc, ih]
      by_cases hmem : sep ∈ s
      · simp [hmem, hc]
      · simp [hmem, Ne.symm hc]

/-- The lines of a text, as `std::getline` reads them: a newline ends a line, and what follows the
last one is a line unless it is empty. -/
def lines : Text → List Text
  | [] => []
  | c :: s =>
    if c = 10 then [] :: lines s
    else
      match lines s with
      | [] => [[c]]
      | l :: ls => (c :: l) :: ls

/-! ## Decimal digits -/

/-- `'0' <= c && c <= '9'`. -/
def isDigit (c : UInt8) : Bool := 48 ≤ c && c ≤ 57

/-- `c - '0'`. -/
def digitVal (c : UInt8) : Nat := (c - 48).toNat

/-- The number a run of digits continues `n` to. -/
def decimalFrom : Nat → Text → Nat
  | n, [] => n
  | n, c :: s => decimalFrom (n * 10 + digitVal c) s

/-- The value of a run of digits. -/
def decimal (s : Text) : Nat := decimalFrom 0 s

/-- Further digits never lower the value. -/
theorem decimalFrom_mono (s : Text) (n : Nat) : n ≤ decimalFrom n s := by
  induction s generalizing n with
  | nil => exact Nat.le_refl n
  | cons c s ih =>
    have hstep : n ≤ n * 10 + digitVal c := by omega
    exact Nat.le_trans hstep (ih _)

end Text

end Cfd.Base
