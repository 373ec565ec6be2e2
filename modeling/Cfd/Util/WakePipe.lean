import Cfd.Util.Descriptors

/-!
# The wake pipe

The two descriptors that `Router::start` opens and `Router::stop` closes, `src/router/router.cpp`,
as operations on the `UniqueFd` members `wake_r_` and `wake_w_`. The calls of `start` and `stop` and
the reader thread between them are `Cfd.Router.Reader`.
-/

set_option autoImplicit false

namespace Cfd.Util.Descriptors

open Cfd.Base

variable {ι : Type} [DecidableEq ι]

theorem exec_cons {s t r : State ι} {a : Act ι} {as : List (Act ι)} (hstep : s.step a = some t)
    (h : (process ι).exec (fun _ _ => True) t as = some r) :
    (process ι).exec (fun _ _ => True) s (a :: as) = some r := by
  have hstep' : (process ι).step s a = some t := hstep
  rw [Machine.exec, if_pos trivial, hstep']
  exact h

/-- An empty object takes a number. -/
theorem step_take {s : State ι} {o : ι} {k : Int} (ho : s.objs o = some {})
    (hk : s.offered k = true) :
    ∃ t, s.step (.reset o k) = some t ∧ t.objs = Function.update s.objs o (some ⟨k⟩) ∧
      t.table = s.table ∧ ∀ d, s.table.lookup k ≠ some d → t.keeper d = s.keeper d := by
  have hstep : s.step (.reset o k) = some ((s.put o (some ⟨k⟩)).give o k) := by
    simp only [State.step, ho, if_pos (Or.inr hk)]
    rfl
  exact ⟨_, hstep, State.objs_give, State.table_give, fun d hne => State.keeper_give_of_ne hne⟩

/-- An object closes its number. -/
theorem step_shut {s : State ι} {o : ι} {k : Int} (ho : s.objs o = some ⟨k⟩) (hk : 0 ≤ k) :
    ∃ t, s.step (.reset o (-1)) = some t ∧ t.objs = Function.update s.objs o (some {}) ∧
      t.table = s.table.unbind k := by
  have hoffered : s.offered (-1) = true := State.offered_iff.mpr (Or.inl (by decide))
  have hclose : ((⟨k⟩ : UniqueFd).reset (-1)).1 = some k := if_pos ⟨hk, show k ≠ -1 by omega⟩
  have hstep : s.step (.reset o (-1)) =
      some (((s.close (some k)).put o (some {})).give o (-1)) := by
    simp only [State.step, ho, if_pos (Or.inr hoffered), hclose]
    rfl
  exact ⟨_, hstep, State.objs_give, State.table_give⟩

/-- **`stop` undoes `start`**: from any reachable state in which the two ends are empty, with any
two free numbers for the pipe, `start` and `stop` run through and leave the objects and the table as
they were. -/
theorem wake_pipe {guard : State ι → Act ι → Prop} {s : State ι} (hs : (process ι).Reach guard s)
    {wakeR wakeW : ι} (hne : wakeR ≠ wakeW) (hr : s.objs wakeR = some {})
    (hw : s.objs wakeW = some {}) {p₀ p₁ : Int} (h₀ : 0 ≤ p₀) (h₁ : 0 ≤ p₁) (hp : p₀ ≠ p₁)
    (hfree₀ : s.table.lookup p₀ = none) (hfree₁ : s.table.lookup p₁ = none) :
    ∃ t, (process ι).exec (fun _ _ => True) s
        (wakeStart wakeR wakeW p₀ p₁ ++ wakeStop wakeR wakeW) = some t ∧
      t.objs = s.objs ∧ t.table.lookup = s.table.lookup := by
  have hfresh := (sound hs).fresh
  -- the pipe: two openings that nobody keeps
  let s₂ : State ι := { s with table := (s.table.bind p₀).bind p₁ }
  have hlook₀ : (s.table.bind p₀).lookup p₀ = some s.table.next :=
    NameTable.lookup_bind.mpr (Or.inl ⟨rfl, rfl⟩)
  have hnone₁ : (s.table.bind p₀).lookup p₁ = none := by
    apply Option.eq_none_iff_forall_ne_some.mpr
    intro d hd
    rcases NameTable.lookup_bind.mp hd with ⟨heq, -⟩ | ⟨-, hold⟩
    · exact hp heq.symm
    · exact nomatch hfree₁.symm.trans hold
  have hoffer₀ : s₂.offered p₀ = true := by
    refine State.offered_iff.mpr (Or.inr ⟨s.table.next, ?_, hfresh _ (Nat.le_refl _)⟩)
    exact NameTable.lookup_bind.mpr (Or.inr ⟨hp, hlook₀⟩)
  obtain ⟨s₃, hstep₃, hobjs₃, htable₃, hkeep₃⟩ := step_take (s := s₂) hr hoffer₀
  have hoffer₁ : s₃.offered p₁ = true := by
    refine State.offered_iff.mpr (Or.inr ⟨s.table.next + 1, ?_, ?_⟩)
    · rw [htable₃]
      exact NameTable.lookup_bind.mpr (Or.inl ⟨rfl, rfl⟩)
    · refine (hkeep₃ _ fun hlook => ?_).trans (hfresh _ (Nat.le_succ _))
      rcases NameTable.lookup_bind.mp hlook with ⟨heq, -⟩ | ⟨-, hold⟩
      · exact hp heq
      · exact absurd (Option.some.inj (hlook₀.symm.trans hold)) (Nat.ne_of_lt (Nat.lt_succ_self _))
  have hw₃ : s₃.objs wakeW = some {} := by
    rw [hobjs₃, Function.update_of_ne hne.symm]
    exact hw
  obtain ⟨s₄, hstep₄, hobjs₄, htable₄, -⟩ := step_take hw₃ hoffer₁
  -- the two ends are reset
  have hw₄ : s₄.objs wakeW = some ⟨p₁⟩ := by rw [hobjs₄, Function.update_self]
  obtain ⟨s₅, hstep₅, hobjs₅, htable₅⟩ := step_shut hw₄ h₁
  have hr₅ : s₅.objs wakeR = some ⟨p₀⟩ := by
    rw [hobjs₅, Function.update_of_ne hne, hobjs₄, Function.update_of_ne hne, hobjs₃,
      Function.update_self]
  obtain ⟨s₆, hstep₆, hobjs₆, htable₆⟩ := step_shut hr₅ h₀
  refine ⟨s₆, ?_, ?_, ?_⟩
  · have hopen₀ : s.step (.osOpen p₀) = some { s with table := s.table.bind p₀ } :=
      if_pos ⟨h₀, hfree₀⟩
    have hopen₁ : ({ s with table := s.table.bind p₀ } : State ι).step (.osOpen p₁) = some s₂ :=
      if_pos ⟨h₁, hnone₁⟩
    exact exec_cons hopen₀ (exec_cons hopen₁ (exec_cons hstep₃ (exec_cons hstep₄
      (exec_cons hstep₅ (exec_cons hstep₆ rfl)))))
  · rw [hobjs₆, hobjs₅, hobjs₄, hobjs₃, Function.update_idem]
    funext o
    by_cases hoR : o = wakeR
    · rw [hoR, Function.update_self, hr]
    · rw [Function.update_of_ne hoR]
      by_cases hoW : o = wakeW
      · rw [hoW, Function.update_self, hw]
      · rw [Function.update_of_ne hoW, Function.update_of_ne hoR]
  · funext k
    rw [htable₆, htable₅, htable₄, htable₃]
    apply Option.ext
    intro d
    rw [NameTable.lookup_unbind, NameTable.lookup_unbind, NameTable.lookup_bind,
      NameTable.lookup_bind]
    constructor
    · intro h
      obtain ⟨hk₀, hk₁, ⟨heq, -⟩ | ⟨-, ⟨heq, -⟩ | ⟨-, hold⟩⟩⟩ := h
      · exact absurd heq hk₁
      · exact absurd heq hk₀
      · exact hold
    · intro hold
      have hk₀ : k ≠ p₀ := by
        intro heq
        subst heq
        exact nomatch hfree₀.symm.trans hold
      have hk₁ : k ≠ p₁ := by
        intro heq
        subst heq
        exact nomatch hfree₁.symm.trans hold
      exact ⟨hk₀, hk₁, Or.inr ⟨hk₁, Or.inr ⟨hk₀, hold⟩⟩⟩

end Cfd.Util.Descriptors
