/-!
# Labelled machines and their runs

A machine is a start state and a partial step function: `step s a` is the state after action `a`,
and `none` where `a` is not enabled in `s`. The step function computes, so a concrete run can be
evaluated; every interleaving of several parties is a run whose actions name the party that moves.

`Reach guard` are the states that some run reaches when each of its steps meets `guard`, a relation
between the state before the step and the action taken. `Reachable` is the case with no guard.
The two rules a development needs are `Reach.invariant` (what the start state has and every
admitted step keeps, every reached state has) and `reach_of_exec` (an evaluated run reaches its
end state).

`Run guard history s` is such a run with its history, for what is said of all that a run has done;
`emitted` reads off a history what its steps give to the outside. `goal_of_countP` is about
progress: which steps have to be taken how often, whatever else happens between them; and
`Run.countP_le` is its converse, how often they can be, and `Run.countP_le_mul` how often between two
visits.

Nothing here establishes that a scheduler takes those steps.
-/

set_option autoImplicit false

namespace Cfd.Base

/-- A start state and what each action does; `none` where the action is not enabled. -/
structure Machine (σ α : Type) where
  init : σ
  step : σ → α → Option σ

namespace Machine

variable {σ α : Type} (m : Machine σ α)

/-- The states reached by the runs all of whose steps meet `guard`. -/
inductive Reach (guard : σ → α → Prop) : σ → Prop
  | init : Reach guard m.init
  | step {s s' : σ} {a : α} : Reach guard s → guard s a → m.step s a = some s' → Reach guard s'

/-- The states reached by some run. -/
abbrev Reachable : σ → Prop := m.Reach fun _ _ => True

variable {m}

/-- A run that meets a guard meets every weaker one. -/
theorem Reach.mono {guard guard' : σ → α → Prop} (hle : ∀ s a, guard s a → guard' s a) {s : σ}
    (h : m.Reach guard s) : m.Reach guard' s := by
  induction h with
  | init => exact .init
  | step _ hg hs ih => exact .step ih (hle _ _ hg) hs

/-- A guarded run is a run. -/
theorem Reach.reachable {guard : σ → α → Prop} {s : σ} (h : m.Reach guard s) : m.Reachable s :=
  h.mono fun _ _ _ => trivial

/-- **The invariant rule.** What the start state has, and every admitted step from a reached state
keeps, every reached state has. The step premise may use that its source is reached, so an
invariant proved earlier is available in the proof of the next. -/
theorem Reach.invariant {guard : σ → α → Prop} {I : σ → Prop} (h0 : I m.init)
    (hstep : ∀ s a s', m.Reach guard s → guard s a → m.step s a = some s' → I s → I s') {s : σ}
    (h : m.Reach guard s) : I s := by
  induction h with
  | init => exact h0
  | step hr hg hs ih => exact hstep _ _ _ hr hg hs ih

/-- Take the actions in order, each one enabled and admitted by the guard. -/
def exec (m : Machine σ α) (guard : σ → α → Prop) [∀ s a, Decidable (guard s a)] :
    σ → List α → Option σ
  | s, [] => some s
  | s, a :: as =>
    if guard s a then
      match m.step s a with
      | some s' => m.exec guard s' as
      | none => none
    else none

/-- What is executed from a reached state is reached. -/
theorem reach_of_exec_from {guard : σ → α → Prop} [∀ s a, Decidable (guard s a)] :
    ∀ {as : List α} {s t : σ}, m.Reach guard s → m.exec guard s as = some t → m.Reach guard t
  | [], _, _, hs, h => by cases h; exact hs
  | a :: as, s, t, hs, h => by
    unfold exec at h
    split at h
    next hg =>
      split at h
      next s' hstep => exact reach_of_exec_from (.step hs hg hstep) h
      next => cases h
    next => cases h

/-- **The run rule.** An executed run reaches its end state. -/
theorem reach_of_exec {guard : σ → α → Prop} [∀ s a, Decidable (guard s a)] {as : List α} {t : σ}
    (h : m.exec guard m.init as = some t) : m.Reach guard t :=
  reach_of_exec_from .init h

/-- A property that the end state of an executed run is computed to have is one that a reached state
has. -/
theorem exists_reach_of_exec {guard : σ → α → Prop} [∀ s a, Decidable (guard s a)] {as : List α}
    {P : σ → Prop} [DecidablePred P]
    (h : (m.exec guard m.init as).any (fun s => decide (P s)) = true) :
    ∃ s, m.Reach guard s ∧ P s := by
  cases hexec : m.exec guard m.init as with
  | none => simp only [hexec, Option.any_none, Bool.false_eq_true] at h
  | some s =>
    simp only [hexec, Option.any_some, decide_eq_true_eq] at h
    exact ⟨s, reach_of_exec hexec, h⟩

/-! ## Runs with their history -/

variable (m) in
/-- The runs themselves: at each step the state it was taken in, and the action. -/
inductive Run (guard : σ → α → Prop) : List (σ × α) → σ → Prop
  | init : Run guard [] m.init
  | step {history : List (σ × α)} {s s' : σ} {a : α} : Run guard history s → guard s a →
      m.step s a = some s' → Run guard (history ++ [(s, a)]) s'

/-- The machine that starts in `s`: its runs are the continuations of runs that reached `s`. -/
def after (m : Machine σ α) (s : σ) : Machine σ α := { m with init := s }

/-- What a run emits, when a step in `s` by `a` emits `out s a`. -/
def emitted {ω : Type} (out : σ → α → List ω) (history : List (σ × α)) : List ω :=
  history.flatMap fun x => out x.1 x.2

@[simp] theorem emitted_nil {ω : Type} (out : σ → α → List ω) : emitted out [] = [] := rfl

@[simp] theorem emitted_snoc {ω : Type} (out : σ → α → List ω) (history : List (σ × α)) (s : σ)
    (a : α) : emitted out (history ++ [(s, a)]) = emitted out history ++ out s a := by
  rw [emitted, List.flatMap_append, List.flatMap_singleton]
  rfl

theorem Run.reach {guard : σ → α → Prop} {history : List (σ × α)} {s : σ}
    (h : m.Run guard history s) : m.Reach guard s := by
  induction h with
  | init => exact .init
  | step _ hg hs ih => exact .step ih hg hs

/-- The history of the run that takes the actions in order. -/
def trace (m : Machine σ α) : σ → List α → List (σ × α)
  | _, [] => []
  | s, a :: as =>
    (s, a) ::
      match m.step s a with
      | some s' => m.trace s' as
      | none => []

theorem run_of_exec_from {guard : σ → α → Prop} [∀ s a, Decidable (guard s a)] :
    ∀ {as : List α} {history : List (σ × α)} {s t : σ}, m.Run guard history s →
      m.exec guard s as = some t → m.Run guard (history ++ m.trace s as) t
  | [], history, _, _, hrun, h => by
    cases h
    rw [trace, List.append_nil]
    exact hrun
  | a :: as, history, s, t, hrun, h => by
    unfold exec at h
    split at h
    next hg =>
      cases hstep : m.step s a with
      | none => simp only [hstep, reduceCtorEq] at h
      | some s' =>
        simp only [hstep] at h
        have hrest := run_of_exec_from (.step hrun hg hstep) h
        simp only [trace, hstep]
        rwa [List.append_assoc] at hrest
    next => cases h

/-- **The run rule, with the history.** -/
theorem run_of_exec {guard : σ → α → Prop} [∀ s a, Decidable (guard s a)] {as : List α} {t : σ}
    (h : m.exec guard m.init as = some t) : m.Run guard (m.trace m.init as) t :=
  run_of_exec_from .init h

/-- Whatever is reached is reached by a run with a history. -/
theorem Reach.exists_run {guard : σ → α → Prop} {s : σ} (h : m.Reach guard s) :
    ∃ history, m.Run guard history s := by
  induction h with
  | init => exact ⟨[], .init⟩
  | step _ hg hs ih =>
    obtain ⟨history, hrun⟩ := ih
    exact ⟨_, .step hrun hg hs⟩

/-- **The invariant rule for runs**: the invariant may speak of what the run has done so far. -/
theorem Run.invariant {guard : σ → α → Prop} {I : List (σ × α) → σ → Prop} (h0 : I [] m.init)
    (hstep : ∀ history s a s', m.Run guard history s → guard s a → m.step s a = some s' →
      I history s → I (history ++ [(s, a)]) s') {history : List (σ × α)} {s : σ}
    (h : m.Run guard history s) : I history s := by
  induction h with
  | init => exact h0
  | step hr hg hs ih => exact hstep _ _ _ _ hr hg hs ih

/-- What every admitted step from a reached state has, every step of a run has. -/
theorem Run.forall_mem {guard P : σ → α → Prop}
    (hstep : ∀ s a s', m.Reach guard s → guard s a → m.step s a = some s' → P s a)
    {history : List (σ × α)} {s : σ} (h : m.Run guard history s) : ∀ x ∈ history, P x.1 x.2 := by
  induction h with
  | init => exact List.forall_mem_nil _
  | step hr hg hs ih =>
    exact List.forall_mem_append.mpr ⟨ih, List.forall_mem_singleton.mpr (hstep _ _ _ hr.reach hg hs)⟩

/-- **The rule for a condition on the steps.** Let a step from a state with the invariant do what it
has to exactly if it meets the condition, and let the steps that meet it keep the invariant. Then
every step of a run does what it has to exactly if every step meets the condition, and in that case
the run ends with the invariant. -/
theorem Run.forall_iff {guard C P : σ → α → Prop} {I : σ → Prop} (h0 : I m.init)
    (hstep : ∀ s a s', m.step s a = some s' → I s → (C s a ↔ P s a))
    (hkeep : ∀ s a s', m.step s a = some s' → I s → C s a → I s') {history : List (σ × α)} {s : σ}
    (h : m.Run guard history s) :
    ((∀ x ∈ history, C x.1 x.2) ↔ ∀ x ∈ history, P x.1 x.2) ∧
      ((∀ x ∈ history, C x.1 x.2) → I s) := by
  induction h with
  | init =>
    refine ⟨⟨fun _ x hx => ?_, fun _ x hx => ?_⟩, fun _ => h0⟩
    · cases hx
    · cases hx
  | @step history s s' a hrun _ hs ih =>
    simp only [List.forall_mem_append, List.forall_mem_singleton]
    refine ⟨⟨fun ⟨hall, hlast⟩ => ?_, fun ⟨hall, hlast⟩ => ?_⟩, fun ⟨hall, hlast⟩ => ?_⟩
    · exact ⟨ih.1.mp hall, (hstep _ _ _ hs (ih.2 hall)).mp hlast⟩
    · have hC := ih.1.mpr hall
      exact ⟨hC, (hstep _ _ _ hs (ih.2 hC)).mpr hlast⟩
    · exact hkeep _ _ _ hs (ih.2 hall) hlast

/-! ## Progress -/

/-- **The progress rule.** Let a step short of the goal reach the goal, or not raise the measure and
lower it if its action counts; let the goal be kept, and hold where the measure is `0`. Then a run
with as many counting actions as the measure says ends in the goal, whatever it does between them.
The premises may use an invariant. -/
theorem goal_of_countP {guard : σ → α → Prop} [∀ s a, Decidable (guard s a)] (I goal : σ → Prop)
    (measure : σ → Nat) (counts : α → Bool)
    (hinv : ∀ s a s', guard s a → m.step s a = some s' → I s → I s')
    (hkeep : ∀ s a s', m.step s a = some s' → I s → goal s → goal s')
    (hlower : ∀ s a s', m.step s a = some s' → I s → ¬ goal s →
      goal s' ∨ measure s' + (if counts a then 1 else 0) ≤ measure s)
    (hzero : ∀ s, I s → measure s = 0 → goal s) :
    ∀ {as : List α} {s t : σ}, I s → m.exec guard s as = some t →
      (goal s ∨ measure s ≤ as.countP counts) → goal t := by
  intro as
  induction as with
  | nil =>
    intro s t hs h hstart
    cases h
    rcases hstart with hgoal | hcount
    · exact hgoal
    · exact hzero _ hs (Nat.le_zero.mp hcount)
  | cons a as ih =>
    intro s t hs h hstart
    unfold exec at h
    split at h
    next hg =>
      split at h
      next s' hstep =>
        apply ih (hinv _ _ _ hg hstep hs) h
        by_cases hgoal : goal s
        · exact Or.inl (hkeep _ _ _ hstep hs hgoal)
        · have hcount := hstart.resolve_left hgoal
          rw [List.countP_cons] at hcount
          rcases hlower _ _ _ hstep hs hgoal with hdone | hle
          · exact Or.inl hdone
          · exact Or.inr (by omega)
      next => cases h
    next => cases h

/-- **The bound rule.** Let every step lower a measure if its action counts, and not raise it
otherwise. Then no run takes more counting actions than the measure of its start. The premise may use
an invariant. -/
theorem Run.countP_le {guard : σ → α → Prop} (I : σ → Prop) (measure : σ → Nat) (counts : α → Bool)
    (h0 : I m.init)
    (hstep : ∀ s a s', guard s a → m.step s a = some s' → I s →
      I s' ∧ measure s' + (if counts a then 1 else 0) ≤ measure s)
    {history : List (σ × α)} {s : σ} (h : m.Run guard history s) :
    I s ∧ measure s + history.countP (fun x => counts x.2) ≤ measure m.init := by
  induction h with
  | init => exact ⟨h0, Nat.le_refl _⟩
  | @step history s s' a _ hg hs ih =>
    obtain ⟨hI, hle⟩ := ih
    obtain ⟨hI', hlower⟩ := hstep _ _ _ hg hs hI
    have hsnoc : (history ++ [(s, a)]).countP (fun x => counts x.2) =
        history.countP (fun x => counts x.2) + if counts a then 1 else 0 := by
      rw [List.countP_append, List.countP_singleton]
    refine ⟨hI', ?_⟩
    rw [hsnoc]
    omega

/-- **The rule for a bound between visits.** Let every step lower a measure if it counts, and raise it by
at most `k` if it is a visit. Then a run takes at most `k` counting steps for each visit, beside the
measure of its start. -/
theorem Run.countP_le_mul {guard : σ → α → Prop} (measure : σ → Nat) (counts visits : σ × α → Bool)
    (k : Nat) (hstep : ∀ s a s', m.step s a = some s' →
      measure s' + (if counts (s, a) then 1 else 0) ≤ measure s + if visits (s, a) then k else 0)
    {history : List (σ × α)} {s : σ} (h : m.Run guard history s) :
    measure s + history.countP counts ≤ measure m.init + k * history.countP visits := by
  induction h with
  | init => exact Nat.le_refl _
  | @step history s s' a _ _ hs ih =>
    have hlower := hstep _ _ _ hs
    rw [List.countP_append, List.countP_append, List.countP_singleton, List.countP_singleton, Nat.mul_add]
    split at hlower <;> split at hlower <;> simp_all <;> omega

end Machine

end Cfd.Base
