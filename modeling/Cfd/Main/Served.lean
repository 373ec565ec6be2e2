import Cfd.Main.RegQueue
import Mathlib.Data.List.Range
import Mathlib.Tactic.Common

/-!
# What the registration queue promises

Every work that is posted to `kj_queue` is answered once, in the order of the posts, with what
`register_connection` returned for its own client and request; and the registration thread is there
to answer as long as a connection thread can still post.

`served_once` speaks of a run with its history. The calls of `register_connection` are read off the
history: they are the steps in which the registration thread serves a work. That each of these steps
is there to be taken is the assumption that `register_connection` returns. The last part of the
theorem is about waiting: a work that is not answered leaves the registration thread a step to take,
and two of its steps for each work in front bring the answer, whatever the other parties do between
them.
-/

set_option autoImplicit false

namespace Cfd.Main.RegQueue

open Cfd.Base

variable {ι ρ β : Type} [DecidableEq ι] [Fintype ι] {request : ι → ρ} {aborted : β}

/-! ## The moves of the queue -/

/-- What a step does to the state, one case for each critical section or step of a party. -/
inductive Moves (request : ι → ρ) (s : State ι ρ β) : Action ι β → State ι ρ β → Prop
  | post {i : ι} (hi : s.threads i = .running) :
      Moves request s (.post i) { s with
        threads := Function.update s.threads i (.awaiting s.posted.length)
        posted := s.posted ++ [⟨i, request i, s.posted.length⟩]
        queue := s.queue ++ [⟨i, request i, s.posted.length⟩]
        kj := s.kj.wake }
  | resume {i : ι} {p : Nat} (hi : s.threads i = .awaiting p) :
      Moves request s (.resume i) { s with threads := Function.update s.threads i .running }
  | exit {i : ι} (hi : s.threads i = .running) :
      Moves request s (.exit i) { s with threads := Function.update s.threads i .exited }
  | take {result : β} {w : RegWork ι ρ} {rest : List (RegWork ι ρ)} (hkj : s.kj = .acquire)
      (hqueue : s.queue = w :: rest) :
      Moves request s (.kj result) { s with kj := .serving w, queue := rest }
  | stop {result : β} (hkj : s.kj = .acquire) (hqueue : s.queue = []) (hstop : s.kjStop = true) :
      Moves request s (.kj result) { s with kj := .draining }
  | block {result : β} (hkj : s.kj = .acquire) (hqueue : s.queue = []) (hstop : s.kjStop = false) :
      Moves request s (.kj result) { s with kj := .blocked }
  | answer {result : β} {w : RegWork ι ρ} (hkj : s.kj = .serving w) :
      Moves request s (.kj result) { s with
        kj := .acquire, promises := s.promises ++ [(w.promise, result)] }
  | drain {result aborted : β} (hkj : s.kj = .draining) :
      Moves request s (.kj result) { s with
        kj := .exited
        promises := s.promises ++ s.queue.map fun w => (w.promise, aborted)
        queue := [] }
  | spurious (hkj : s.kj = .blocked) : Moves request s .spurious { s with kj := .acquire }
  | begin (hmain : s.main = .running) : Moves request s .main { s with main := .joiningThreads }
  | join (hmain : s.main = .joiningThreads) (hexited : ∀ i, s.threads i = .exited) :
      Moves request s .main { s with main := .notifying, kjStop := true }
  | notify (hmain : s.main = .notifying) :
      Moves request s .main { s with main := .joiningKj, kj := s.kj.wake }
  | joined (hmain : s.main = .joiningKj) (hkj : s.kj = .exited) :
      Moves request s .main { s with main := .done }

omit [DecidableEq ι] [Fintype ι] in
theorem kjStep_moves [DecidableEq ι] {result : β} {s s' : State ι ρ β}
    (h : s.kjStep aborted result = some s') : Moves request s (.kj result) s' := by
  unfold State.kjStep at h
  split at h
  next hkj =>
    split at h
    next w rest hqueue => cases h; exact .take hkj hqueue
    next hqueue =>
      cases h
      by_cases hstop : s.kjStop = true
      · rw [if_pos hstop]
        exact .stop hkj hqueue hstop
      · rw [if_neg hstop]
        exact .block hkj hqueue (Bool.eq_false_iff.mpr hstop)
  next => cases h
  next w hkj => cases h; exact .answer hkj
  next hkj => cases h; exact .drain hkj
  next => cases h

theorem mainStep_moves {s s' : State ι ρ β} (h : s.mainStep = some s') :
    Moves request s .main s' := by
  unfold State.mainStep at h
  split at h
  next hmain => cases h; exact .begin hmain
  next hmain =>
    split at h
    next hexited => cases h; exact .join hmain hexited
    next => cases h
  next hmain => cases h; exact .notify hmain
  next hmain =>
    split at h
    next hkj => cases h; exact .joined hmain hkj
    next => cases h
  next => cases h

/-- Every step of the machine is a move. -/
theorem step_moves {s s' : State ι ρ β} {a : Action ι β}
    (h : (registrations request aborted).step s a = some s') : Moves request s a s' := by
  cases a with
  | post i =>
    simp only [registrations] at h
    split at h
    next hi => cases h; exact .post hi
    next => cases h
  | resume i =>
    simp only [registrations] at h
    split at h
    next hi =>
      split at h
      next => cases h; exact .resume hi
      next => cases h
    next => cases h
  | exit i =>
    simp only [registrations] at h
    split at h
    next hi => cases h; exact .exit hi
    next => cases h
  | kj result => exact kjStep_moves h
  | spurious =>
    simp only [registrations] at h
    split at h
    next hkj => cases h; exact .spurious hkj
    next => cases h
  | main => exact mainStep_moves h

/-! ## The stop flag -/

/-- The stop flag is set after the connection threads have returned, and the registration thread
leaves its loop only on it. -/
structure Stopped (s : State ι ρ β) : Prop where
  exited : s.kjStop = true → ∀ i, s.threads i = .exited
  idle : s.kj = .blocked → s.queue = [] ∧ (s.kjStop = true → s.main = .notifying)
  past : s.kj = .draining ∨ s.kj = .exited → s.kjStop = true ∧ s.queue = []

omit [DecidableEq ι] [Fintype ι] in
@[simp] theorem KjPc.wake_ne_blocked (p : KjPc ι ρ) : p.wake ≠ .blocked := by
  cases p <;> nofun

omit [DecidableEq ι] [Fintype ι] in
theorem KjPc.wake_eq {p q : KjPc ι ρ} (h : p.wake = q) (hq : q ≠ .acquire) : p = q := by
  cases p with
  | blocked => exact absurd h.symm hq
  | acquire => exact h
  | serving _ => exact h
  | draining => exact h
  | exited => exact h

omit [DecidableEq ι] [Fintype ι] in
theorem KjPc.past_of_wake {p : KjPc ι ρ} (h : p.wake = .draining ∨ p.wake = .exited) :
    p = .draining ∨ p = .exited := by
  rcases h with h | h
  · exact Or.inl (KjPc.wake_eq h nofun)
  · exact Or.inr (KjPc.wake_eq h nofun)

omit [Fintype ι] in
theorem Stopped.step {s s' : State ι ρ β} {a : Action ι β} (hs : Stopped s)
    (h : Moves request s a s') : Stopped s' := by
  have hmoved : ∀ {i : ι} (pc : ThreadPc), s.threads i ≠ .exited → s.kjStop = true →
      ∀ j, Function.update s.threads i pc j = .exited := fun {i} _ hi hstop =>
    absurd (hs.exited hstop i) hi
  cases h with
  | @post i hi =>
    have hrun : s.threads i ≠ .exited := by rw [hi]; nofun
    refine ⟨hmoved _ hrun, fun hkj => absurd hkj (KjPc.wake_ne_blocked _), fun hkj => ?_⟩
    exact absurd (hs.exited (hs.past (KjPc.past_of_wake hkj)).1 i) hrun
  | resume hi => exact ⟨hmoved _ (by rw [hi]; nofun), hs.idle, hs.past⟩
  | exit hi => exact ⟨hmoved _ (by rw [hi]; nofun), hs.idle, hs.past⟩
  | take => exact ⟨hs.exited, nofun, nofun⟩
  | stop _ hqueue hstop => exact ⟨hs.exited, nofun, fun _ => ⟨hstop, hqueue⟩⟩
  | block _ hqueue hstop =>
    exact ⟨hs.exited, fun _ => ⟨hqueue, fun htrue => absurd htrue (by rw [hstop]; nofun)⟩, nofun⟩
  | answer => exact ⟨hs.exited, nofun, nofun⟩
  | drain hkj => exact ⟨hs.exited, nofun, fun _ => ⟨(hs.past (Or.inl hkj)).1, rfl⟩⟩
  | spurious => exact ⟨hs.exited, nofun, nofun⟩
  | begin hmain =>
    refine ⟨hs.exited, fun hkj => ⟨(hs.idle hkj).1, fun hstop => ?_⟩, hs.past⟩
    exact nomatch hmain.symm.trans ((hs.idle hkj).2 hstop)
  | join _ hexited =>
    exact ⟨fun _ => hexited, fun hkj => ⟨(hs.idle hkj).1, fun _ => rfl⟩,
      fun hkj => ⟨rfl, (hs.past hkj).2⟩⟩
  | notify =>
    exact ⟨hs.exited, fun hkj => absurd hkj (KjPc.wake_ne_blocked _),
      fun hkj => hs.past (KjPc.past_of_wake hkj)⟩
  | joined hmain =>
    refine ⟨hs.exited, fun hkj => ⟨(hs.idle hkj).1, fun hstop => ?_⟩, hs.past⟩
    exact nomatch hmain.symm.trans ((hs.idle hkj).2 hstop)

theorem stopped {s : State ι ρ β} (h : (registrations request aborted).Reachable s) : Stopped s :=
  h.invariant ⟨nofun, nofun, nofun⟩ fun _ _ _ _ _ hstep hs => hs.step (step_moves hstep)

/-! ## The calls and their answers -/

/-- A call of `register_connection` and its result. -/
structure Call (ι ρ β : Type) where
  cl : ι
  rreq : ρ
  result : β

/-- The call that a step is: `work.cl->register_connection(work.rreq, ..)`. -/
def State.call (s : State ι ρ β) : Action ι β → List (Call ι ρ β)
  | .kj result =>
    match s.kj with
    | .serving w => [⟨w.cl, w.rreq, result⟩]
    | _ => []
  | _ => []

/-- The calls of a run, in order. -/
def calls (history : List (State ι ρ β × Action ι β)) : List (Call ι ρ β) :=
  Machine.emitted State.call history

/-- The work that is being served. -/
def KjPc.inHand {ι ρ : Type} : KjPc ι ρ → List (RegWork ι ρ)
  | .serving w => [w]
  | _ => []

omit [DecidableEq ι] [Fintype ι] in
@[simp] theorem KjPc.inHand_wake (p : KjPc ι ρ) : p.wake.inHand = p.inHand := by
  cases p <;> rfl

/-- The works that have been answered, the one that is being served and those in the queue are the
works posted, in this order; each answered work has its promise set to the result of the call that
was made for it. -/
def Accounts (history : List (State ι ρ β × Action ι β)) (s : State ι ρ β) : Prop :=
  ∃ answered : List (RegWork ι ρ × β),
    s.posted = answered.map Prod.fst ++ (s.kj.inHand ++ s.queue) ∧
    s.promises = answered.map (fun x => (x.1.promise, x.2)) ∧
    calls history = answered.map fun x => ⟨x.1.cl, x.1.rreq, x.2⟩

omit [DecidableEq ι] [Fintype ι] in
theorem Accounts.quiet {history : List (State ι ρ β × Action ι β)} {s s' : State ι ρ β}
    {a : Action ι β} (h : Accounts history s) (hcall : s.call a = [])
    (hposted : s'.posted = s.posted) (hqueue : s'.kj.inHand ++ s'.queue = s.kj.inHand ++ s.queue)
    (hpromises : s'.promises = s.promises) : Accounts (history ++ [(s, a)]) s' := by
  obtain ⟨answered, h1, h2, h3⟩ := h
  refine ⟨answered, ?_, hpromises.trans h2, ?_⟩
  · rw [hposted, hqueue]
    exact h1
  · rw [calls, Machine.emitted_snoc, hcall, List.append_nil]
    exact h3

omit [Fintype ι] in
theorem Accounts.step {history : List (State ι ρ β × Action ι β)} {s s' : State ι ρ β}
    {a : Action ι β} (hs : Stopped s) (h : Accounts history s) (hmove : Moves request s a s') :
    Accounts (history ++ [(s, a)]) s' := by
  cases hmove with
  | post =>
    obtain ⟨answered, h1, h2, h3⟩ := h
    refine ⟨answered, ?_, h2, ?_⟩
    · show s.posted ++ _ = _ ++ (s.kj.wake.inHand ++ (s.queue ++ _))
      rw [h1, KjPc.inHand_wake]
      simp only [List.append_assoc]
    · rw [calls, Machine.emitted_snoc]
      exact (List.append_nil _).trans h3
  | resume => exact h.quiet rfl rfl rfl rfl
  | exit => exact h.quiet rfl rfl rfl rfl
  | take hkj hqueue =>
    refine h.quiet ?_ rfl ?_ rfl
    · rw [State.call, hkj]
    · rw [hkj, hqueue]
      rfl
  | stop hkj => exact h.quiet (by rw [State.call, hkj]) rfl (by rw [hkj]; rfl) rfl
  | block hkj => exact h.quiet (by rw [State.call, hkj]) rfl (by rw [hkj]; rfl) rfl
  | @answer result w hkj =>
    obtain ⟨answered, h1, h2, h3⟩ := h
    refine ⟨answered ++ [(w, result)], ?_, ?_, ?_⟩
    · rw [hkj] at h1
      rw [h1, List.map_append, List.append_assoc]
      rfl
    · show s.promises ++ _ = _
      rw [h2, List.map_append]
      rfl
    · rw [calls, Machine.emitted_snoc, State.call, hkj, List.map_append]
      exact congrArg (· ++ _) h3
  | drain hkj =>
    -- nothing is left to answer, so the drain loop sets no promise
    have hqueue := (hs.past (Or.inl hkj)).2
    refine h.quiet (by rw [State.call, hkj]) rfl ?_ ?_
    · rw [hkj, hqueue]
      rfl
    · show s.promises ++ s.queue.map _ = s.promises
      rw [hqueue]
      exact List.append_nil _
  | spurious hkj => exact h.quiet rfl rfl (by rw [hkj]; rfl) rfl
  | begin => exact h.quiet rfl rfl rfl rfl
  | join => exact h.quiet rfl rfl rfl rfl
  | notify =>
    refine h.quiet rfl rfl ?_ rfl
    rw [KjPc.inHand_wake]
  | joined => exact h.quiet rfl rfl rfl rfl

theorem accounts {history : List (State ι ρ β × Action ι β)} {s : State ι ρ β}
    (h : (registrations request aborted).Run (fun _ _ => True) history s) : Accounts history s :=
  h.invariant (I := Accounts) ⟨[], rfl, rfl, rfl⟩ fun _ _ _ _ hrun _ hstep hs =>
    hs.step (stopped hrun.reach) (step_moves hstep)

/-! ## The promises -/

/-- The promises are numbered in the order of the posts, and a blocked thread waits for the promise
of a work of its own. -/
structure Posted (s : State ι ρ β) : Prop where
  numbered : s.posted.map RegWork.promise = List.range s.posted.length
  awaited : ∀ i p, s.threads i = .awaiting p → ∃ w, s.posted[p]? = some w ∧ w.cl = i

omit [DecidableEq ι] [Fintype ι] in
/-- A step that leaves what is posted, and blocks no thread. -/
theorem Posted.quiet {s s' : State ι ρ β} (hs : Posted s) (hposted : s'.posted = s.posted)
    (hthreads : ∀ i p, s'.threads i = .awaiting p → s.threads i = .awaiting p) : Posted s' := by
  refine ⟨hposted ▸ hs.numbered, fun i p hi => ?_⟩
  rw [hposted]
  exact hs.awaited i p (hthreads i p hi)

omit [Fintype ι] in
theorem awaiting_of_update {threads : ι → ThreadPc} {i : ι} {pc : ThreadPc}
    (hpc : ∀ p, pc ≠ .awaiting p) {j : ι} {p : Nat}
    (h : Function.update threads i pc j = .awaiting p) : threads j = .awaiting p := by
  by_cases hij : j = i
  · subst hij
    rw [Function.update_self] at h
    exact absurd h (hpc p)
  · rwa [Function.update_of_ne hij] at h

omit [Fintype ι] in
theorem Posted.step {s s' : State ι ρ β} {a : Action ι β} (hs : Posted s)
    (hmove : Moves request s a s') : Posted s' := by
  cases hmove with
  | @post i =>
    refine ⟨?_, fun j p hj => ?_⟩
    · show (s.posted ++ [_]).map RegWork.promise = List.range (s.posted ++ [_]).length
      rw [List.map_append, hs.numbered, List.length_append, List.length_singleton,
        List.range_succ]
      rfl
    · show ∃ w, (s.posted ++ [_])[p]? = some w ∧ w.cl = j
      by_cases hji : j = i
      · subst hji
        simp only [Function.update_self, ThreadPc.awaiting.injEq] at hj
        subst hj
        exact ⟨_, List.getElem?_concat_length, rfl⟩
      · obtain ⟨w, hw, hcl⟩ := hs.awaited j p (by
          simpa only [Function.update_of_ne hji] using hj)
        exact ⟨w, List.getElem?_append_left (List.getElem?_eq_some_iff.mp hw).1 ▸ hw, hcl⟩
  | resume =>
    refine hs.quiet rfl fun _ _ => ?_
    exact awaiting_of_update (by intro p; nofun)
  | exit =>
    refine hs.quiet rfl fun _ _ => ?_
    exact awaiting_of_update (by intro p; nofun)
  | take => exact hs.quiet rfl fun _ _ => id
  | stop => exact hs.quiet rfl fun _ _ => id
  | block => exact hs.quiet rfl fun _ _ => id
  | answer => exact hs.quiet rfl fun _ _ => id
  | drain => exact hs.quiet rfl fun _ _ => id
  | spurious => exact hs.quiet rfl fun _ _ => id
  | begin => exact hs.quiet rfl fun _ _ => id
  | join => exact hs.quiet rfl fun _ _ => id
  | notify => exact hs.quiet rfl fun _ _ => id
  | joined => exact hs.quiet rfl fun _ _ => id

theorem posted {s : State ι ρ β} (h : (registrations request aborted).Reachable s) : Posted s :=
  h.invariant ⟨rfl, nofun⟩ fun _ _ _ _ _ hstep hs => hs.step (step_moves hstep)

/-! ## Waiting -/

/-- The registration thread's own steps, spurious wakeups apart. -/
def Action.isKj {ι β : Type} : Action ι β → Bool
  | .kj _ => true
  | _ => false

/-- How many steps the registration thread has to take until promise `p` is set: to take and to
serve each work up to it, less the take that is behind it already. -/
def State.ahead (p : Nat) (s : State ι ρ β) : Nat :=
  2 * (p + 1 - s.promises.length) - s.kj.inHand.length

omit [DecidableEq ι] [Fintype ι] in
@[simp] theorem KjPc.length_inHand_le (q : KjPc ι ρ) : q.inHand.length ≤ 1 := by
  cases q <;> simp only [inHand, List.length_nil, List.length_singleton, Nat.zero_le, Nat.le_refl]

omit [DecidableEq ι] [Fintype ι] in
theorem Accounts.length {history : List (State ι ρ β × Action ι β)} {s : State ι ρ β}
    (h : Accounts history s) :
    s.posted.length = s.promises.length + s.kj.inHand.length + s.queue.length := by
  obtain ⟨answered, h1, h2, -⟩ := h
  rw [h1, h2, List.length_append, List.length_append, List.length_map, List.length_map]
  omega

/-- What the argument about waiting knows of a state: it is sound, and `p` is posted in it. -/
structure Waiting (p : Nat) (s : State ι ρ β) : Prop where
  stopped : Stopped s
  length : s.posted.length = s.promises.length + s.kj.inHand.length + s.queue.length
  posted : p < s.posted.length

omit [DecidableEq ι] [Fintype ι] in
/-- **A work that waits is not forgotten**: it leaves the registration thread a step to take,
whatever `register_connection` returns. -/
theorem Waiting.enabled {p : Nat} {s : State ι ρ β} (h : Waiting p s)
    (hp : ¬ p < s.promises.length) (result : β) : (s.kjStep aborted result).isSome = true := by
  have hlen := h.length
  have hposted := h.posted
  have hleft : s.queue = [] → s.kj.inHand = [] → False := by
    intro hqueue hhand
    rw [hqueue, hhand, List.length_nil] at hlen
    omega
  unfold State.kjStep
  cases hkj : s.kj with
  | acquire =>
    cases hqueue : s.queue with
    | nil => exact (hleft hqueue (by rw [hkj]; rfl)).elim
    | cons w rest => rfl
  | blocked => exact (hleft (h.stopped.idle hkj).1 (by rw [hkj]; rfl)).elim
  | serving w => rfl
  | draining => rfl
  | exited => exact (hleft (h.stopped.past (Or.inr hkj)).2 (by rw [hkj]; rfl)).elim

omit [Fintype ι] in
theorem Waiting.lower {p : Nat} {s s' : State ι ρ β} {a : Action ι β} (h : Waiting p s)
    (hp : ¬ p < s.promises.length) (hmove : Moves request s a s') :
    s'.ahead p + (if a.isKj then 1 else 0) ≤ s.ahead p := by
  have hlen := h.length
  have hposted := h.posted
  have hhand := s.kj.length_inHand_le
  cases hmove with
  | post =>
    show 2 * (p + 1 - s.promises.length) - s.kj.wake.inHand.length + 0 ≤ _
    rw [KjPc.inHand_wake]
    exact Nat.le_refl _
  | resume => exact Nat.le_refl _
  | exit => exact Nat.le_refl _
  | take hkj =>
    show 2 * (p + 1 - s.promises.length) - 1 + 1 ≤ 2 * _ - s.kj.inHand.length
    rw [hkj]
    show _ ≤ _ - 0
    omega
  | stop hkj hqueue | block hkj hqueue =>
    rw [hkj, hqueue] at hlen
    simp only [KjPc.inHand, List.length_nil] at hlen
    omega
  | answer hkj =>
    show 2 * (p + 1 - (s.promises ++ [_]).length) - 0 + 1 ≤ 2 * _ - s.kj.inHand.length
    rw [hkj, List.length_append, List.length_singleton]
    show _ ≤ _ - 1
    omega
  | drain hkj =>
    rw [hkj, (h.stopped.past (Or.inl hkj)).2] at hlen
    simp only [KjPc.inHand, List.length_nil] at hlen
    omega
  | spurious hkj =>
    show 2 * _ - 0 + 0 ≤ 2 * _ - s.kj.inHand.length
    rw [hkj]
    exact Nat.le_refl _
  | begin => exact Nat.le_refl _
  | join => exact Nat.le_refl _
  | notify =>
    show 2 * (p + 1 - s.promises.length) - s.kj.wake.inHand.length + 0 ≤ _
    rw [KjPc.inHand_wake]
    exact Nat.le_refl _
  | joined => exact Nat.le_refl _

omit [Fintype ι] in
/-- Promises and posts stay. -/
theorem lengths_le {s s' : State ι ρ β} {a : Action ι β} (hmove : Moves request s a s') :
    s.promises.length ≤ s'.promises.length ∧ s.posted.length ≤ s'.posted.length := by
  have hgrow : ∀ {α : Type} (xs ys : List α), xs.length ≤ (xs ++ ys).length := fun xs ys => by
    rw [List.length_append]
    exact Nat.le_add_right _ _
  cases hmove with
  | post => exact ⟨Nat.le_refl _, hgrow _ _⟩
  | answer => exact ⟨hgrow _ _, Nat.le_refl _⟩
  | drain => exact ⟨hgrow _ _, Nat.le_refl _⟩
  | _ => exact ⟨Nat.le_refl _, Nat.le_refl _⟩

/-- **Two steps for each work in front.** From a reached state in which `p` is posted, every run
with enough steps of the registration thread sets its promise. -/
theorem answered_of_countP {history : List (State ι ρ β × Action ι β)} {p : Nat}
    {s t : State ι ρ β} (h : (registrations request aborted).Run (fun _ _ => True) history s)
    (hp : p < s.posted.length) {as : List (Action ι β)}
    (hexec : (registrations request aborted).exec (fun _ _ => True) s as = some t)
    (hcount : 2 * (p + 1 - s.promises.length) ≤ as.countP Action.isKj) :
    p < t.promises.length := by
  refine Machine.goal_of_countP
    (fun s => p < s.posted.length ∧
      ∃ history, (registrations request aborted).Run (fun _ _ => True) history s)
    (fun s => p < s.promises.length) (State.ahead p) Action.isKj ?_ ?_ ?_ ?_
    ⟨hp, history, h⟩ hexec (Or.inr (Nat.le_trans (Nat.sub_le _ _) hcount))
  · rintro s a s' - hstep ⟨hposted, history, hrun⟩
    exact ⟨Nat.lt_of_lt_of_le hposted (lengths_le (step_moves hstep)).2, _, .step hrun trivial hstep⟩
  · intro s a s' hstep _ hgoal
    exact Nat.lt_of_lt_of_le hgoal (lengths_le (step_moves hstep)).1
  · rintro s a s' hstep ⟨hposted, history, hrun⟩ hgoal
    exact Or.inr (Waiting.lower ⟨stopped hrun.reach, (accounts hrun).length, hposted⟩ hgoal
      (step_moves hstep))
  · rintro s ⟨-, history, hrun⟩ hzero
    have hhand := s.kj.length_inHand_le
    unfold State.ahead at hzero
    show p < s.promises.length
    omega

/-! ## Exactly once, in order, and to the end -/

/-- What a run has done for the works posted in it. -/
structure Served (history : List (State ι ρ β × Action ι β)) (s : State ι ρ β) : Prop where
  /-- Promises are numbered as they are posted. -/
  numbered : s.posted.map RegWork.promise = List.range s.posted.length
  /-- They are set in this order, and each one once. -/
  once : s.promises.map Prod.fst = List.range s.promises.length
  /-- There is one call of `register_connection` for each promise that is set. -/
  called : (calls history).length = s.promises.length
  /-- Promise `p` is set to the result of the call for the client and the request of its own work. -/
  own : ∀ p, p < s.promises.length → ∃ w result, s.posted[p]? = some w ∧
    s.promises[p]? = some (p, result) ∧ (calls history)[p]? = some ⟨w.cl, w.rreq, result⟩
  /-- A blocked thread waits for a work that it has posted. -/
  awaited : ∀ i p, s.threads i = .awaiting p → ∃ w, s.posted[p]? = some w ∧ w.cl = i
  /-- Out of its loop, the registration thread has answered everything, and nobody can post. -/
  alive : s.kj = .draining ∨ s.kj = .exited →
    s.promises.length = s.posted.length ∧ ∀ i, s.threads i = .exited

theorem served {history : List (State ι ρ β × Action ι β)} {s : State ι ρ β}
    (h : (registrations request aborted).Run (fun _ _ => True) history s) : Served history s := by
  have hstopped := stopped h.reach
  have hposted := posted h.reach
  have hlen := (accounts h).length
  obtain ⟨answered, h1, h2, h3⟩ := accounts h
  have hcount : s.promises.length = answered.length := by rw [h2, List.length_map]
  have hwork : ∀ p, p < answered.length → s.posted[p]? = (answered.map Prod.fst)[p]? := by
    intro p hp
    rw [h1]
    exact List.getElem?_append_left (by rwa [List.length_map])
  have hnumber : ∀ (p : Nat) (w : RegWork ι ρ), s.posted[p]? = some w → w.promise = p := by
    intro p w hw
    have hrange : (s.posted.map RegWork.promise)[p]? = some w.promise := by
      rw [List.getElem?_map, hw, Option.map_some]
    rw [hposted.numbered, List.getElem?_range (List.getElem?_eq_some_iff.mp hw).1] at hrange
    exact (Option.some.inj hrange).symm
  have hown : ∀ p, p < s.promises.length → ∃ w result, s.posted[p]? = some w ∧
      s.promises[p]? = some (p, result) ∧ (calls history)[p]? = some ⟨w.cl, w.rreq, result⟩ := by
    intro p hp
    rw [hcount] at hp
    have hanswer := List.getElem?_eq_getElem hp
    refine ⟨answered[p].1, answered[p].2, ?_, ?_, ?_⟩
    · rw [hwork p hp, List.getElem?_map, hanswer, Option.map_some]
    · rw [h2, List.getElem?_map, hanswer, Option.map_some, hnumber p]
      rw [hwork p hp, List.getElem?_map, hanswer, Option.map_some]
    · rw [h3, List.getElem?_map, hanswer, Option.map_some]
  refine ⟨hposted.numbered, ?_, ?_, hown, hposted.awaited, fun hpast => ?_⟩
  · apply List.ext_getElem?
    intro p
    by_cases hp : p < s.promises.length
    · obtain ⟨w, result, -, hpromise, -⟩ := hown p hp
      rw [List.getElem?_map, hpromise, List.getElem?_range hp, Option.map_some]
    · rw [List.getElem?_eq_none, List.getElem?_eq_none]
      · rw [List.length_range]
        exact Nat.le_of_not_lt hp
      · rw [List.length_map]
        exact Nat.le_of_not_lt hp
  · rw [h3, List.length_map, hcount]
  · obtain ⟨hstop, hqueue⟩ := hstopped.past hpast
    refine ⟨?_, hstopped.exited hstop⟩
    have hhand : s.kj.inHand = [] := by
      rcases hpast with hkj | hkj <;> rw [hkj] <;> rfl
    rw [hqueue, hhand, List.length_nil] at hlen
    omega

/-- **Every registration is answered once, in order, with its own result**, and none waits for
ever. Whatever the threads, the registration thread and `main` do in whatever order: what has been
answered is as `Served` says; a posted work that is not answered leaves the registration thread a
step to take; two of these steps for each work up to it bring its answer; and then its thread can go
on. -/
theorem served_once {history : List (State ι ρ β × Action ι β)} {s : State ι ρ β}
    (h : (registrations request aborted).Run (fun _ _ => True) history s) :
    Served history s ∧
      (∀ p, p < s.posted.length → ¬ p < s.promises.length → ∀ result,
        ((registrations request aborted).step s (.kj result)).isSome = true) ∧
      (∀ p, p < s.posted.length → ∀ as t,
        (registrations request aborted).exec (fun _ _ => True) s as = some t →
        2 * (p + 1 - s.promises.length) ≤ as.countP Action.isKj → p < t.promises.length) ∧
      ∀ i p, s.threads i = .awaiting p → p < s.promises.length →
        ((registrations request aborted).step s (.resume i)).isSome = true := by
  have hserved := served h
  refine ⟨hserved, fun p hp hleft result => ?_, fun p hp as t hexec hcount => ?_,
    fun i p hi hp => ?_⟩
  · exact Waiting.enabled ⟨stopped h.reach, (accounts h).length, hp⟩ hleft result
  · exact answered_of_countP h hp hexec hcount
  · have hmem : p ∈ s.promises.map Prod.fst := by
      rw [hserved.once]
      exact List.mem_range.mpr hp
    simp only [registrations, hi, if_pos hmem, Option.isSome_some]

/-- The registrations of two threads, with numbers for requests and results. -/
def twoRegistrations : Machine (State (Fin 2) Nat Nat) (Action (Fin 2) Nat) :=
  registrations (fun i => 10 + i.val) 0

/-- Two threads post, the second while the first is served; each goes on with its result and returns;
and `main` shuts down. -/
def twoPosts (i j : Fin 2) : List (Action (Fin 2) Nat) :=
  [.post i, .kj 0, .post j, .kj 7, .resume i, .kj 0, .exit i, .main, .kj 8, .resume j, .exit j, .kj 0,
    .main, .main, .kj 0, .kj 0, .main]

theorem served_once_two : ∃ history s, twoRegistrations.Run (fun _ _ => True) history s ∧
    s.posted = [⟨0, 10, 0⟩, ⟨1, 11, 1⟩] ∧ s.promises = [(0, 7), (1, 8)] ∧
    calls history = [⟨0, 10, 7⟩, ⟨1, 11, 8⟩] ∧ s.kj = .exited ∧ s.main = .done ∧ Served history s := by
  have hrun := @Machine.run_of_exec _ _ twoRegistrations (fun _ _ => True) _ (twoPosts 0 1) _ rfl
  exact ⟨_, _, hrun, rfl, rfl, rfl, rfl, rfl, (served_once hrun).1⟩

end Cfd.Main.RegQueue
