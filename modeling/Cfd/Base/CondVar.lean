import Cfd.Base.Refinement
import Mathlib.Logic.Function.Basic

/-!
# A condition variable under a machine

A machine whose step function says of a wait only that it goes on when its condition holds leaves out
how a thread comes to know that. `CondVar` says which threads of a machine wait on a condition variable,
for what, and which steps are followed by a `notify_all`; `CondVar.withWaits` is the machine with the waits
spelled out. A waiting thread takes the mutex and tests its condition, and where that is false it keeps
the mutex up to the block (the window), which releases it; a blocked thread is woken by a `notify_all`
or for no reason, and tests again. A notifier makes its step, and calls `notify_all` at any later time,
without the mutex.

`refines` is that this is a refinement: whatever holds of the runs of the machine holds with the waits
spelled out. What is not kept is progress: a `notify_all` that falls into the window is lost, and the
thread blocks with its condition true. `still_iff` says where nobody can move; `not_lost_of_notEarly` that
a wakeup is lost in no other way; `countP_le` that a bound on the steps of a machine whose conditions hold
bounds the waits, too.

The mutex is taken for nothing else.
-/

set_option autoImplicit false

namespace Cfd.Base

/-- Who waits on a condition variable, for what, whose step an action is, and which steps are followed
by a `notify_all`. -/
structure CondVar (σ α ι : Type) where
  waits : σ → ι → Bool
  cond : σ → ι → Bool
  thread : α → Option ι
  notifies : σ → α → Bool

/-- The machine, the thread in its window, who has the mutex; the threads that are blocked; and how
many calls of `notify_all` are still to come. -/
structure CondState (σ ι : Type) where
  state : σ
  mu : Option ι
  blocked : ι → Bool
  pending : Nat

/-- A step of the machine; a test that is false; the block behind it; a `notify_all`; a spurious
wakeup. -/
inductive CondAction (α ι : Type) where
  | step (a : α)
  | test (i : ι)
  | block (i : ι)
  | notify
  | spurious (i : ι)
  deriving DecidableEq

namespace CondVar

variable {σ α ι : Type} (c : CondVar σ α ι)

/-- The thread may go on: it is not blocked, and the mutex is free where it needs it. -/
def free (s : CondState σ ι) (i : ι) : Bool :=
  !s.blocked i && (!c.waits s.state i || s.mu.isNone)

/-- A condition on the steps of the machine. -/
def lift (guard : σ → α → Prop) (s : CondState σ ι) : CondAction α ι → Prop
  | .step a => guard s.state a
  | .test _ | .block _ | .notify | .spurious _ => True

instance (guard : σ → α → Prop) [∀ s a, Decidable (guard s a)] (s : CondState σ ι)
    (a : CondAction α ι) : Decidable (lift guard s a) :=
  match a with
  | .step b => inferInstanceAs (Decidable (guard s.state b))
  | .test _ | .block _ | .notify | .spurious _ => inferInstanceAs (Decidable True)

/-- The step of the machine that an action is. -/
def seen (_ : CondState σ ι) : CondAction α ι → Option α
  | .step a => some a
  | .test _ | .block _ | .notify | .spurious _ => none

/-- The thread has found its condition false, and has not been woken since. -/
def Asleep (s : CondState σ ι) (i : ι) : Prop := s.mu = some i ∨ s.blocked i = true

/-- The mutex is free and no `notify_all` is to come. -/
structure Settled (s : CondState σ ι) : Prop where
  mu : s.mu = none
  pending : s.pending = 0

variable {c} {s s' : CondState σ ι}

/-- Whoever sleeps may not go on. -/
theorem Asleep.not_free {i : ι} (h : Asleep s i) (hwaits : c.waits s.state i = true) :
    c.free s i = false := by
  rcases h with hmu | hblocked
  · simp [free, hwaits, hmu]
  · simp [free, hblocked]

theorem thread_ne_of_asleep {b : α} {i : ι} (hfree : (c.thread b).all (c.free s) = true)
    (h : Asleep s i) (hwaits : c.waits s.state i = true) : c.thread b ≠ some i := by
  intro heq
  rw [heq, Option.all_some, h.not_free hwaits] at hfree
  cases hfree

/-- Where the mutex is free, a thread may go on that is not blocked. -/
theorem Settled.free (hs : Settled s) {i : ι} (hblocked : s.blocked i = false) :
    c.free s i = true := by
  simp [CondVar.free, hblocked, hs.mu]

/-! ## The steps -/

variable [DecidableEq ι]

variable (c) (m : Machine σ α) in
/-- One step with the waits spelled out. -/
def step (s : CondState σ ι) : CondAction α ι → Option (CondState σ ι)
  | .step a =>
    if (c.thread a).all (c.free s) then
      (m.step s.state a).map fun t =>
        { s with state := t, pending := s.pending + if c.notifies s.state a then 1 else 0 }
    else none
  | .test i =>
    if c.waits s.state i && !c.cond s.state i && c.free s i then some { s with mu := some i } else none
  | .block i =>
    if s.mu = some i then
      some { s with mu := none, blocked := Function.update s.blocked i true }
    else none
  | .notify =>
    if 0 < s.pending then some { s with blocked := fun _ => false, pending := s.pending - 1 } else none
  | .spurious i =>
    if s.blocked i then some { s with blocked := Function.update s.blocked i false } else none

variable (c) (m : Machine σ α) in
/-- The machine with the waits on a condition variable spelled out. -/
def withWaits : Machine (CondState σ ι) (CondAction α ι) where
  init := ⟨m.init, none, fun _ => false, 0⟩
  step := c.step m

variable {m : Machine σ α} {guard : σ → α → Prop} {a : CondAction α ι}

/-- **What a step can do.** -/
theorem step_cases (h : (c.withWaits m).step s a = some s') :
    (∃ b t, a = .step b ∧ (c.thread b).all (c.free s) = true ∧ m.step s.state b = some t ∧
        s' = { s with state := t, pending := s.pending + if c.notifies s.state b then 1 else 0 }) ∨
      (∃ i, a = .test i ∧ c.waits s.state i = true ∧ c.cond s.state i = false ∧ s.mu = none ∧
        s' = { s with mu := some i }) ∨
      (∃ i, a = .block i ∧ s.mu = some i ∧
        s' = { s with mu := none, blocked := Function.update s.blocked i true }) ∨
      (a = .notify ∧ 0 < s.pending ∧
        s' = { s with blocked := fun _ => false, pending := s.pending - 1 }) ∨
      ∃ i, a = .spurious i ∧ s' = { s with blocked := Function.update s.blocked i false } := by
  change c.step m s a = some s' at h
  cases a with
  | step b =>
    simp only [step] at h
    split at h
    next hfree =>
      obtain ⟨t, hstep, rfl⟩ := Option.map_eq_some_iff.mp h
      exact Or.inl ⟨b, t, rfl, hfree, hstep, rfl⟩
    next => cases h
  | test i =>
    simp only [step] at h
    split at h
    next htest =>
      cases h
      simp only [free, Bool.and_eq_true, Bool.or_eq_true, Bool.not_eq_true', Option.isNone_iff_eq_none]
        at htest
      obtain ⟨⟨hwaits, hcond⟩, -, hmu⟩ := htest
      refine Or.inr (Or.inl ⟨i, rfl, hwaits, hcond, hmu.resolve_left ?_, rfl⟩)
      rw [hwaits]
      exact Bool.noConfusion
    next => cases h
  | block i =>
    simp only [step] at h
    split at h
    next hmu =>
      cases h
      exact Or.inr (Or.inr (Or.inl ⟨i, rfl, hmu, rfl⟩))
    next => cases h
  | notify =>
    simp only [step] at h
    split at h
    next hpending =>
      cases h
      exact Or.inr (Or.inr (Or.inr (Or.inl ⟨rfl, hpending, rfl⟩)))
    next => cases h
  | spurious i =>
    simp only [step] at h
    split at h
    next =>
      cases h
      exact Or.inr (Or.inr (Or.inr (Or.inr ⟨i, rfl, rfl⟩)))
    next => cases h

/-! ## The machine below -/

/-- **With the waits spelled out it is the machine still**, step by step or not at all. -/
theorem refines : Machine.Refines (c.withWaits m) (lift guard) m guard CondState.state seen where
  init := rfl
  move := by
    intro s a s' b _ hguard hstep hseen
    cases a with
    | step a =>
      cases hseen
      rcases step_cases hstep with ⟨_, t, heq, -, ht, rfl⟩ | ⟨_, heq, -⟩ | ⟨_, heq, -⟩ | ⟨heq, -⟩ |
        ⟨_, heq, -⟩ <;> cases heq
      exact ⟨hguard, ht⟩
    | test | block | notify | spurious => cases hseen
  stay := by
    intro s a s' _ _ hstep hseen
    rcases step_cases hstep with ⟨_, t, rfl, -⟩ | ⟨_, -, -, -, -, rfl⟩ | ⟨_, -, -, rfl⟩ | ⟨-, -, rfl⟩ |
      ⟨_, -, rfl⟩
    · cases hseen
    · rfl
    · rfl
    · rfl
    · rfl

/-! ## Sleeping threads -/

/-- What the condition variable takes for granted of the machine: others do not move a thread from its
wait, and a condition becomes true only by a step that is followed by a `notify_all`. -/
structure Fits (c : CondVar σ α ι) (m : Machine σ α) (guard : σ → α → Prop) : Prop where
  keeps : ∀ s a t i, m.Reach guard s → guard s a → m.step s a = some t → c.thread a ≠ some i →
    c.waits s i = true → c.waits t i = true
  rises : ∀ s a t i, m.Reach guard s → guard s a → m.step s a = some t → c.thread a ≠ some i →
    c.cond s i = false → c.cond t i = true → c.notifies s a = true

/-- **Who sleeps behind a step** has slept before it, or has just found its condition false. -/
theorem asleep_of_step {i : ι} (h : (c.withWaits m).step s a = some s') (hi : Asleep s' i) :
    Asleep s i ∨ a = .test i ∧ c.waits s.state i = true ∧ c.cond s.state i = false ∧
      s'.state = s.state := by
  have hupdate : ∀ {j v}, Function.update s.blocked j v i = true → i = j ∧ v = true ∨
      s.blocked i = true := by
    intro j v hblocked
    by_cases hij : i = j
    · subst hij
      rw [Function.update_self] at hblocked
      exact Or.inl ⟨rfl, hblocked⟩
    · rw [Function.update_of_ne hij] at hblocked
      exact Or.inr hblocked
  rcases step_cases h with ⟨b, t, rfl, -, -, rfl⟩ | ⟨j, rfl, hwaits, hfalse, -, rfl⟩ |
    ⟨j, rfl, hmu, rfl⟩ | ⟨rfl, -, rfl⟩ | ⟨j, rfl, rfl⟩
  · exact Or.inl hi
  · rcases hi with hmu | hblocked
    · cases hmu
      exact Or.inr ⟨rfl, hwaits, hfalse, rfl⟩
    · exact Or.inl (Or.inr hblocked)
  · rcases hi with hnone | hblocked
    · cases hnone
    · rcases hupdate hblocked with ⟨rfl, -⟩ | hbefore
      · exact Or.inl (Or.inl hmu)
      · exact Or.inl (Or.inr hbefore)
  · rcases hi with hmu | hblocked
    · exact Or.inl (Or.inl hmu)
    · cases hblocked
  · rcases hi with hmu | hblocked
    · exact Or.inl (Or.inl hmu)
    · rcases hupdate hblocked with ⟨-, hfalse⟩ | hbefore
      · cases hfalse
      · exact Or.inl (Or.inr hbefore)

/-- **The rule for a thread that sleeps**: what a waiting thread has when it finds its condition false,
and the steps of others keep, it has as long as it sleeps. -/
theorem of_asleep (P : σ → ι → Prop)
    (hstart : ∀ s i, m.Reach guard s → c.waits s i = true → c.cond s i = false → P s i)
    (hkeep : ∀ s a t i, m.Reach guard s → guard s a → m.step s a = some t → c.thread a ≠ some i →
      c.waits s i = true → P s i → P t i)
    (hfits : c.Fits m guard) (h : (c.withWaits m).Reach (lift guard) s) {i : ι} (hi : Asleep s i) :
    c.waits s.state i = true ∧ P s.state i := by
  refine h.invariant (I := fun s => ∀ i, Asleep s i → c.waits s.state i = true ∧ P s.state i) ?_ ?_ i hi
  · rintro i (hmu | hblocked)
    · cases hmu
    · cases hblocked
  · intro s a s' hr hguard hstep hs i hi
    rcases asleep_of_step hstep hi with hbefore | ⟨-, hwaits, hfalse, hsame⟩
    · obtain ⟨hwaits, hP⟩ := hs i hbefore
      rcases step_cases hstep with ⟨b, t, rfl, hfree, ht, rfl⟩ | ⟨j, -, -, -, -, rfl⟩ |
        ⟨j, -, -, rfl⟩ | ⟨-, -, rfl⟩ | ⟨j, -, rfl⟩
      · have hne := thread_ne_of_asleep hfree hbefore hwaits
        exact ⟨hfits.keeps _ _ _ i (refines.reach hr) hguard ht hne hwaits,
          hkeep _ _ _ i (refines.reach hr) hguard ht hne hwaits hP⟩
      · exact ⟨hwaits, hP⟩
      · exact ⟨hwaits, hP⟩
      · exact ⟨hwaits, hP⟩
      · exact ⟨hwaits, hP⟩
    · rw [hsame]
      exact ⟨hwaits, hstart _ _ (refines.reach hr) hwaits hfalse⟩

/-- **A thread sleeps only at its wait.** -/
theorem waits_of_asleep (hfits : c.Fits m guard) (h : (c.withWaits m).Reach (lift guard) s) {i : ι}
    (hi : Asleep s i) : c.waits s.state i = true :=
  (of_asleep (fun _ _ => True) (fun _ _ _ _ _ => trivial) (fun _ _ _ _ _ _ _ _ _ _ => trivial)
    hfits h hi).1

/-! ## Lost wakeups -/

/-- The condition on a step: a `notify_all` does not fall into the window of a thread whose condition is
true, unless another is still to come. -/
def NotEarly (c : CondVar σ α ι) (s : CondState σ ι) : CondAction α ι → Prop
  | .notify => ∀ i, s.mu = some i → c.cond s.state i = true → 1 < s.pending
  | .step _ | .test _ | .block _ | .spurious _ => True

/-- A thread is blocked with its condition true, and no `notify_all` is to come. -/
structure Lost (c : CondVar σ α ι) (s : CondState σ ι) (i : ι) : Prop where
  blocked : s.blocked i = true
  cond : c.cond s.state i = true
  pending : s.pending = 0

/-- In the runs without an early `notify_all`, whoever sleeps while its condition is true has one to
come. -/
theorem pending_of_asleep (hfits : c.Fits m guard)
    (h : (c.withWaits m).Reach (fun s a => lift guard s a ∧ c.NotEarly s a) s) {i : ι} (hi : Asleep s i)
    (hcond : c.cond s.state i = true) : 0 < s.pending := by
  refine h.invariant (I := fun s => ∀ i, Asleep s i → c.cond s.state i = true → 0 < s.pending)
    ?_ ?_ i hi hcond
  · rintro i (hmu | hblocked)
    · cases hmu
    · cases hblocked
  · intro s a s' hr hguard hstep hs i hi hcond
    have hr : (c.withWaits m).Reach (lift guard) s := hr.mono fun _ _ h => h.1
    have hwaits : ∀ {j}, Asleep s j → c.waits s.state j = true := waits_of_asleep hfits hr
    rcases asleep_of_step hstep hi with hbefore | ⟨-, -, hfalse, hsame⟩
    · rcases step_cases hstep with ⟨b, t, rfl, hfree, ht, rfl⟩ | ⟨j, -, -, -, -, rfl⟩ |
        ⟨j, -, -, rfl⟩ | ⟨rfl, -, rfl⟩ | ⟨j, -, rfl⟩
      · have hne := thread_ne_of_asleep hfree hbefore (hwaits hbefore)
        cases hwas : c.cond s.state i with
        | true => exact Nat.lt_of_lt_of_le (hs i hbefore hwas) (Nat.le_add_right _ _)
        | false =>
          -- the condition has just become true
          have hnotifies := hfits.rises _ _ _ i (refines.reach hr) hguard.1 ht hne hwas hcond
          simp [hnotifies]
      · exact hs i hbefore hcond
      · exact hs i hbefore hcond
      · -- whoever sleeps behind a `notify_all` is in its window
        rcases hi with hmu | hblocked
        · exact Nat.sub_pos_of_lt (hguard.2 i hmu hcond)
        · cases hblocked
      · exact hs i hbefore hcond
    · rw [hsame, hfalse] at hcond
      cases hcond

/-- **No wakeup is lost without an early `notify_all`.** -/
theorem not_lost_of_notEarly (hfits : c.Fits m guard)
    (h : (c.withWaits m).Reach (fun s a => lift guard s a ∧ c.NotEarly s a) s) (i : ι) : ¬c.Lost s i := by
  intro hlost
  have hpending := pending_of_asleep hfits h (Or.inr hlost.blocked) hlost.cond
  rw [hlost.pending] at hpending
  cases hpending

/-! ## Where nobody can move -/

/-- The steps that somebody has to take, where `inner` are those of the machine: all but a spurious
wakeup. -/
def Inner (inner : α → Prop) : CondAction α ι → Prop
  | .step a => inner a
  | .test _ | .block _ | .notify => True
  | .spurious _ => False

/-- Nobody can take such a step. -/
def Still (c : CondVar σ α ι) (m : Machine σ α) (guard : σ → α → Prop) (inner : CondAction α ι → Prop)
    (s : CondState σ ι) : Prop :=
  ∀ a, inner a → lift guard s a → c.step m s a = none

theorem settled_of_still {inner : CondAction α ι → Prop} (hblock : ∀ i, inner (.block i))
    (hnotify : inner .notify) (h : c.Still m guard inner s) : Settled s := by
  constructor
  · cases hmu : s.mu with
    | none => rfl
    | some i =>
      have hnone := h (.block i) (hblock i) trivial
      rw [step, if_pos hmu] at hnone
      cases hnone
  · by_contra hne
    have hnone := h .notify hnotify trivial
    rw [step, if_pos (Nat.pos_of_ne_zero hne)] at hnone
    cases hnone

/-- Whoever may go on goes on as the machine does. -/
theorem step_none {b : α} (hfree : ∀ i, c.thread b = some i → c.free s i = true)
    (h : c.step m s (.step b) = none) : m.step s.state b = none := by
  have hall : (c.thread b).all (c.free s) = true := by
    cases hb : c.thread b with
    | none => rfl
    | some i => exact hfree i hb
  rw [step, if_pos hall] at h
  exact Option.map_eq_none_iff.mp h

/-- **Where nobody can move**: no thread is in its window and no `notify_all` is to come; whoever waits
without being blocked has its condition true; and the machine cannot move, the blocked threads apart. -/
theorem still_iff {inner : α → Prop} : c.Still m guard (Inner inner) s ↔ Settled s ∧
    (∀ i, c.waits s.state i = true → s.blocked i = false → c.cond s.state i = true) ∧
    ∀ a, inner a → guard s.state a → (∀ i, c.thread a = some i → s.blocked i = false) →
      m.step s.state a = none := by
  constructor
  · intro h
    have hsettled : Settled s := settled_of_still (fun _ => trivial) trivial h
    refine ⟨hsettled, fun i hwaits hblocked => ?_, fun a hinner hguard hawake => ?_⟩
    · by_contra hcond
      have hnone := h (.test i) trivial trivial
      simp [step, hwaits, hcond, hsettled.free hblocked] at hnone
    · exact step_none (fun i hi => hsettled.free (hawake i hi)) (h (.step a) hinner hguard)
  · rintro ⟨hsettled, htrue, hnone⟩ a hinner hguard
    cases a with
    | step a =>
      rw [step]
      split
      next hfree =>
        refine Option.map_eq_none_iff.mpr (hnone a hinner hguard fun i hi => ?_)
        rw [hi, Option.all_some, CondVar.free, Bool.and_eq_true, Bool.not_eq_true'] at hfree
        exact hfree.1
      next => rfl
    | test i =>
      refine if_neg fun htest => ?_
      simp only [CondVar.free, Bool.and_eq_true, Bool.not_eq_true'] at htest
      obtain ⟨⟨hwaits, hcond⟩, hblocked, -⟩ := htest
      cases hcond.symm.trans (htrue i hwaits hblocked)
    | block i => simp [step, hsettled.mu]
    | notify => simp [step, hsettled.pending]
    | spurious i => exact hinner.elim

/-! ## Bounds -/

/-- The steps of the threads: those that count below, and the tests and blocks. -/
def counts (count : α → Bool) : CondAction α ι → Bool
  | .step a => count a
  | .test _ | .block _ => true
  | .notify | .spurious _ => false

/-- **The bound rule.** Where a measure bounds the steps of the machine that count, and an invariant makes
every condition true, no test fails any more: the only step that comes on top is the block of the thread
that is in its window. -/
theorem countP_le (I : σ → Prop) (measure : σ → Nat) (count : α → Bool)
    (hstep : ∀ s a t, guard s a → m.step s a = some t → I s →
      I t ∧ measure t + (if count a then 1 else 0) ≤ measure s)
    (hcond : ∀ s i, I s → c.cond s i = true) (h0 : I s.state)
    {history : List (CondState σ ι × CondAction α ι)} {t : CondState σ ι}
    (h : ((c.withWaits m).after s).Run (lift guard) history t) :
    history.countP (fun x => counts count x.2) ≤ measure s.state + 1 := by
  have hbound : ∀ s a s', lift guard s a → c.step m s a = some s' → I s.state →
      I s'.state ∧ measure s'.state + s'.mu.toList.length + (if counts count a then 1 else 0) ≤
        measure s.state + s.mu.toList.length := by
    intro s a s' hguard hs hI
    rcases step_cases hs with ⟨b, t, rfl, -, ht, rfl⟩ | ⟨i, rfl, -, hfalse, -⟩ | ⟨i, rfl, hmu, rfl⟩ |
      ⟨rfl, -, rfl⟩ | ⟨i, rfl, rfl⟩
    · obtain ⟨hI', hle⟩ := hstep _ _ _ hguard ht hI
      refine ⟨hI', ?_⟩
      show measure t + s.mu.toList.length + (if count b then 1 else 0) ≤
        measure s.state + s.mu.toList.length
      omega
    · cases hfalse.symm.trans (hcond _ i hI)
    · refine ⟨hI, ?_⟩
      simp [hmu, counts]
    · exact ⟨hI, Nat.le_refl _⟩
    · exact ⟨hI, Nat.le_refl _⟩
  obtain ⟨-, hle⟩ := h.countP_le (fun s => I s.state) (fun s => measure s.state + s.mu.toList.length)
    (counts count) h0 hbound
  have hmu : s.mu.toList.length ≤ 1 := by cases s.mu <;> simp
  have hstart : ((c.withWaits m).after s).init = s := rfl
  rw [hstart] at hle
  omega

end CondVar

end Cfd.Base
