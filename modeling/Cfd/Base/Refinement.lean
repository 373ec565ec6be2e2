import Cfd.Base.Machine

/-!
# A machine seen as another

What a run of a large machine looks like to one of its parts. `Refines m guard m' guard' state action`
says that a state of `m` is seen as the state `state s` of `m'`, and that every admitted step of `m` from
a reached state is seen as a step of `m'`, by the action that `action` names, or as none at all.

`Refines.run` carries a run over with its history, and `Refines.reach` its end, so every theorem about
the runs of `m'` holds of what is seen of `m`. `Refines.after` does the same for continuations.

Where the state of one machine does not say what state of the other it is, `Run.simulated` finds a run
beside a given one: each step is answered by as many steps as it takes (`Leads`), and a relation between
the two runs, which may speak of all that they have done, is kept.
-/

set_option autoImplicit false

namespace Cfd.Base.Machine

variable {σ τ α β : Type}

/-- What is reached from a reached state is reached. -/
theorem Reach.trans {m : Machine σ α} {guard : σ → α → Prop} {s t : σ} (hs : m.Reach guard s)
    (ht : (m.after s).Reach guard t) : m.Reach guard t := by
  induction ht with
  | init => exact hs
  | step _ hguard hstep ih => exact .step ih hguard hstep

/-- Every admitted step of the first machine is seen as an admitted step of the second, or as none. -/
structure Refines (m : Machine σ α) (guard : σ → α → Prop) (m' : Machine τ β) (guard' : τ → β → Prop)
    (state : σ → τ) (action : σ → α → Option β) : Prop where
  init : state m.init = m'.init
  move : ∀ s a s' b, m.Reach guard s → guard s a → m.step s a = some s' → action s a = some b →
    guard' (state s) b ∧ m'.step (state s) b = some (state s')
  stay : ∀ s a s', m.Reach guard s → guard s a → m.step s a = some s' → action s a = none →
    state s' = state s

/-- What is seen of a history. -/
def seen (state : σ → τ) (action : σ → α → Option β) (history : List (σ × α)) : List (τ × β) :=
  history.filterMap fun x => (action x.1 x.2).map fun b => (state x.1, b)

theorem seen_snoc (state : σ → τ) (action : σ → α → Option β) (history : List (σ × α)) (s : σ) (a : α) :
    seen state action (history ++ [(s, a)]) =
      seen state action history ++ ((action s a).map fun b => (state s, b)).toList := by
  unfold seen
  rw [List.filterMap_append, List.filterMap_cons]
  cases action s a <;> rfl

/-- What the steps that are seen emit. -/
theorem emitted_seen {ω : Type} (out : τ → β → List ω) (state : σ → τ) (action : σ → α → Option β)
    (history : List (σ × α)) : emitted out (seen state action history) =
      emitted (fun s a => (action s a).elim [] (out (state s))) history := by
  induction history with
  | nil => rfl
  | cons x history ih =>
    simp only [emitted, seen, List.filterMap_cons, List.flatMap_cons] at ih ⊢
    cases action x.1 x.2 <;> simp [ih]

variable {m : Machine σ α} {guard : σ → α → Prop} {m' : Machine τ β} {guard' : τ → β → Prop}
  {state : σ → τ} {action : σ → α → Option β}

/-- **What is seen of a run is a run.** -/
theorem Refines.run (h : Refines m guard m' guard' state action) {history : List (σ × α)} {s : σ}
    (hs : m.Run guard history s) : m'.Run guard' (seen state action history) (state s) := by
  induction hs with
  | init =>
    rw [h.init]
    exact .init
  | @step history s s' a hrun hguard hstep ih =>
    rw [seen_snoc]
    cases ha : action s a with
    | some b =>
      obtain ⟨hguard', hstep'⟩ := h.move s a s' b hrun.reach hguard hstep ha
      exact .step ih hguard' hstep'
    | none =>
      rw [h.stay s a s' hrun.reach hguard hstep ha]
      exact (List.append_nil (seen state action history)).symm ▸ ih

/-- **What is seen of a reached state is reached.** -/
theorem Refines.reach (h : Refines m guard m' guard' state action) {s : σ} (hs : m.Reach guard s) :
    m'.Reach guard' (state s) := by
  obtain ⟨history, hrun⟩ := hs.exists_run
  exact (h.run hrun).reach

/-- From a reached state on, too. -/
theorem Refines.after (h : Refines m guard m' guard' state action) {s : σ} (hs : m.Reach guard s) :
    Refines (m.after s) guard (m'.after (state s)) guard' state action where
  init := rfl
  move := fun t a t' b ht => h.move t a t' b (hs.trans ht)
  stay := fun t a t' ht => h.stay t a t' (hs.trans ht)

/-! ## A run beside another -/

/-- A run that has come to `t` goes on by these steps to `t'`. -/
def Leads (m' : Machine τ β) (guard' : τ → β → Prop) (t : τ) (more : List (τ × β)) (t' : τ) : Prop :=
  ∀ history, m'.Run guard' history t → m'.Run guard' (history ++ more) t'

theorem Leads.refl (t : τ) : m'.Leads guard' t [] t :=
  fun history hrun => (List.append_nil history).symm ▸ hrun

theorem Leads.step {t t' : τ} {b : β} (hguard : guard' t b) (hstep : m'.step t b = some t') :
    m'.Leads guard' t [(t, b)] t' :=
  fun _ hrun => .step hrun hguard hstep

theorem Leads.trans {t t₁ t₂ : τ} {more more' : List (τ × β)} (h : m'.Leads guard' t more t₁)
    (h' : m'.Leads guard' t₁ more' t₂) : m'.Leads guard' t (more ++ more') t₂ := by
  intro history hrun
  rw [← List.append_assoc]
  exact h' _ (h history hrun)

/-- **The simulation rule.** Let two machines start related, and let every admitted step of the first be
answered by steps of the second after which they are related again. Then every run of the first has a run
of the second beside it. -/
theorem Run.simulated {R : List (σ × α) → σ → List (τ × β) → τ → Prop} (h0 : R [] m.init [] m'.init)
    (hstep : ∀ history s a s' history' t, m.Run guard history s → guard s a → m.step s a = some s' →
      m'.Run guard' history' t → R history s history' t →
        ∃ more t', m'.Leads guard' t more t' ∧ R (history ++ [(s, a)]) s' (history' ++ more) t')
    {history : List (σ × α)} {s : σ} (h : m.Run guard history s) :
    ∃ history' t, m'.Run guard' history' t ∧ R history s history' t := by
  induction h with
  | init => exact ⟨[], m'.init, .init, h0⟩
  | @step history s s' a hrun hguard hs ih =>
    obtain ⟨history', t, hrun', hR⟩ := ih
    obtain ⟨more, t', hleads, hR'⟩ := hstep history s a s' history' t hrun hguard hs hrun' hR
    exact ⟨history' ++ more, t', hleads history' hrun', hR'⟩

end Cfd.Base.Machine
