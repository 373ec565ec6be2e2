import Cfd.Base.Machine

/-!
# A machine that feeds another

The cascade of two machines: what a step of the first emits, the second takes as its own inputs before
anything else happens; between such steps the second moves by itself. So a run of the cascade is any
interleaving of the two in which the second misses nothing.

A run of the cascade is a run of the first machine beside a run of the second (`Run.left`,
`Run.exists_right`), and the inputs that the second run was fed are what the first has emitted, in
order. What has been proved of the machines apart thereby holds of the two together.
-/

set_option autoImplicit false

namespace Cfd.Base.Machine

variable {σ τ α β : Type}

/-- `a` with its outputs as inputs of `b`. -/
def cascade (a : Machine σ α) (b : Machine τ β) (out : σ → α → List β) :
    Machine (σ × τ) (α ⊕ β) where
  init := (a.init, b.init)
  step := fun s x =>
    match x with
    | .inl x =>
      (a.step s.1 x).bind fun s' =>
        (b.exec (fun _ _ => True) s.2 (out s.1 x)).map fun t' => (s', t')
    | .inr y => (b.step s.2 y).map fun t' => (s.1, t')

/-- The second machine moves by itself only with these inputs. -/
def Outside (own : β → Prop) (_ : σ × τ) : α ⊕ β → Prop
  | .inl _ => True
  | .inr y => own y

/-- The steps of the first machine. -/
def lefts (history : List ((σ × τ) × (α ⊕ β))) : List (σ × α) :=
  history.filterMap fun e =>
    match e.2 with
    | .inl x => some (e.1.1, x)
    | .inr _ => none

theorem lefts_snoc_inl (history : List ((σ × τ) × (α ⊕ β))) (s : σ × τ) (x : α) :
    lefts (history ++ [(s, .inl x)]) = lefts history ++ [(s.1, x)] := by
  rw [lefts, List.filterMap_append]
  rfl

theorem lefts_snoc_inr (history : List ((σ × τ) × (α ⊕ β))) (s : σ × τ) (y : β) :
    lefts (history ++ [(s, .inr y)]) = lefts history := by
  rw [lefts, List.filterMap_append]
  exact List.append_nil _

variable {a : Machine σ α} {b : Machine τ β} {out : σ → α → List β}

/-- What a step of the cascade is: one of the first machine with the inputs it feeds, or one of the
second. -/
inductive Cascades (a : Machine σ α) (b : Machine τ β) (out : σ → α → List β) (s : σ × τ) :
    α ⊕ β → σ × τ → Prop
  | left {x : α} {s' : σ} {t' : τ} (hstep : a.step s.1 x = some s')
      (hfed : b.exec (fun _ _ => True) s.2 (out s.1 x) = some t') : Cascades a b out s (.inl x) (s', t')
  | right {y : β} {t' : τ} (hstep : b.step s.2 y = some t') : Cascades a b out s (.inr y) (s.1, t')

theorem cascade_step {s s' : σ × τ} {x : α ⊕ β} (h : (cascade a b out).step s x = some s') :
    Cascades a b out s x s' := by
  cases x with
  | inl x =>
    obtain ⟨s₁, hs₁, hrest⟩ := Option.bind_eq_some_iff.mp h
    obtain ⟨t₁, ht₁, rfl⟩ := Option.map_eq_some_iff.mp hrest
    exact .left hs₁ ht₁
  | inr y =>
    obtain ⟨t₁, ht₁, rfl⟩ := Option.map_eq_some_iff.mp h
    exact .right ht₁

/-- Beside the second machine, the first does what it does alone. -/
theorem Run.left {guard : σ × τ → α ⊕ β → Prop} {history : List ((σ × τ) × (α ⊕ β))} {s : σ × τ}
    (h : (cascade a b out).Run guard history s) : a.Run (fun _ _ => True) (lefts history) s.1 := by
  induction h with
  | init => exact .init
  | step _ _ hstep ih =>
    cases cascade_step hstep with
    | left hs _ =>
      rw [lefts_snoc_inl]
      exact .step ih trivial hs
    | right _ =>
      rw [lefts_snoc_inr]
      exact ih

/-- A run goes on by the actions that are executed from its end. -/
theorem Run.exec {guard : τ → β → Prop} [∀ t y, Decidable (guard t y)] {ys : List β} :
    ∀ {history : List (τ × β)} {t t' : τ}, b.Run guard history t → b.exec guard t ys = some t' →
      ∃ more, b.Run guard (history ++ more) t' ∧ more.map Prod.snd = ys := by
  induction ys with
  | nil =>
    intro history t t' hrun h
    cases h
    exact ⟨[], (List.append_nil history).symm ▸ hrun, rfl⟩
  | cons y ys ih =>
    intro history t t' hrun h
    unfold Machine.exec at h
    split at h
    next hg =>
      split at h
      next t₁ hstep =>
        obtain ⟨more, hmore, hmap⟩ := ih (.step hrun hg hstep) h
        refine ⟨(t, y) :: more, ?_, ?_⟩
        · rw [List.append_cons]
          exact hmore
        · rw [List.map_cons, hmap]
      next => cases h
    next => cases h

/-- **The second machine is fed what the first emits.** The second component of a run is reached by a
run of the second machine. Of its inputs those that are fed, as `fed` tells them from those of its
own, are what the first has emitted. -/
theorem Run.exists_right {fed : β → Bool} (hout : ∀ s x, ∀ y ∈ out s x, fed y = true)
    {history : List ((σ × τ) × (α ⊕ β))} {s : σ × τ}
    (h : (cascade a b out).Run (Outside fun y => fed y = false) history s) :
    ∃ inputs, b.Run (fun _ _ => True) inputs s.2 ∧
      (inputs.map Prod.snd).filter fed = emitted out (lefts history) := by
  induction h with
  | init => exact ⟨[], .init, rfl⟩
  | @step history s s' x _ hguard hstep ih =>
    obtain ⟨inputs, hrun, hfed⟩ := ih
    cases cascade_step hstep with
    | @left x s' t' hs ht =>
      obtain ⟨more, hmore, hmap⟩ := hrun.exec ht
      refine ⟨inputs ++ more, hmore, ?_⟩
      rw [lefts_snoc_inl, emitted_snoc, List.map_append, List.filter_append, hfed, hmap,
        List.filter_eq_self.mpr (hout s.1 x)]
    | @right y t' ht =>
      have hown : fed y = false := hguard
      refine ⟨inputs ++ [(s.2, y)], .step hrun trivial ht, ?_⟩
      rw [lefts_snoc_inr, List.map_append, List.filter_append, hfed, List.map_singleton,
        List.filter_cons, hown, if_neg Bool.false_ne_true]
      exact List.append_nil _

end Cfd.Base.Machine
