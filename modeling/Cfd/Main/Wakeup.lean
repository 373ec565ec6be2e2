import Cfd.Base.Machine
import Mathlib.Data.Fintype.Basic
import Mathlib.Logic.Function.Basic

/-!
# Waiting on `g_wakeup_cv`

The connection threads of `src/main.cpp` as far as they wait: the loop, with its wait for
`disc_fired` or `g_stop` and its `interruptible_sleep`, and the three kinds of notifiers. A wait is
four steps: take `g_wakeup_mu`, test the predicate, and where it is false block, which releases the
mutex in the same step; a blocked thread goes back to the first step when it is notified. A notifier
stores its flag and then calls `notify_all`, two steps, and never takes the mutex.

So a notifier can run both its steps between a thread's test and its block, and the thread then
blocks with the predicate true and nobody left to wake it (`lost_of_early_notify`). `not_lost` says
that there is no other way.

What the thread does between two waits is left to chance: any `connect`, any registration, in any
time. Nothing here establishes that a notified thread runs.
-/

set_option autoImplicit false

namespace Cfd.Main.Wakeup

open Cfd.Base

/-! ## The parties -/

/-- The two waits of a connection thread. -/
inductive WaitSite where
  /-- `interruptible_sleep`: until `g_stop`, at most for a time. -/
  | backoff
  /-- The wait at the end of the loop body: until `disc_fired` or `g_stop`. -/
  | disconnect
  deriving DecidableEq

/-- Where a thread stands in `wait(lk, pred)`. -/
inductive WaitPc where
  /-- About to take the mutex. -/
  | lock
  /-- With the mutex held, about to test the predicate. -/
  | test
  /-- With the mutex held, the test false, about to release it and block. -/
  | window
  | blocked
  /-- A timed wait that ran out, about to take the mutex. -/
  | expired
  deriving DecidableEq

/-- Where a connection thread stands in its loop. -/
inductive ThreadPc where
  /-- `while (!g_stop)`. -/
  | check
  /-- `disc_fired.store(false)`. -/
  | clear
  /-- `close`, `connect`, post the registration and wait for its result. -/
  | dial
  /-- `ok_count.fetch_add(1)` and `notify_all`. -/
  | advertise
  | wait (site : WaitSite) (w : WaitPc)
  /-- `disc_fired && !g_stop`. -/
  | recheck
  | done
  deriving DecidableEq

/-- A thread that has stored a flag and not yet called `notify_all`. -/
inductive Notifier (ι : Type) where
  /-- The disconnect handler of a connection. -/
  | disc (i : ι)
  /-- The same, after the loop has stored `false` over what it stored. -/
  | overwritten (i : ι)
  /-- `on_signal`. -/
  | signal
  /-- `shutdown_all`. -/
  | shutdown
  deriving DecidableEq

/-- The threads, the flags, the owner of `g_wakeup_mu`, and the notifiers between their two steps. -/
structure State (ι : Type) where
  pc : ι → ThreadPc
  mu : Option ι
  discFired : ι → Bool
  gStop : Bool
  pending : List (Notifier ι)

/-- One step of a thread, where `ok` says how `dial` ends; a spurious wakeup; the end of a timed
wait; and the two steps of the notifiers. -/
inductive Action (ι : Type) where
  | thread (i : ι) (ok : Bool)
  | spurious (i : ι)
  | timeout (i : ι)
  | fire (i : ι)
  | signal
  | shutdown
  | notify (n : Notifier ι)
  deriving DecidableEq

/-! ## The steps -/

/-- The predicate of a wait. -/
def State.pred {ι : Type} (s : State ι) (i : ι) : WaitSite → Bool
  | .backoff => s.gStop
  | .disconnect => s.discFired i || s.gStop

/-- What follows a wait. -/
def WaitSite.after : WaitSite → ThreadPc
  | .backoff => .check
  | .disconnect => .recheck

/-- `notify_all` unblocks a thread that is blocked. -/
def ThreadPc.wake : ThreadPc → ThreadPc
  | .wait site .blocked => .wait site .lock
  | p => p

/-- What a store over `disc_fired` of connection `i` makes of a notifier. -/
def Notifier.overwrite {ι : Type} [DecidableEq ι] (i : ι) : Notifier ι → Notifier ι
  | .disc j => if j = i then .overwritten i else .disc j
  | n => n

variable {ι : Type} [DecidableEq ι]

/-- One step of connection thread `i`. -/
def State.thread (s : State ι) (i : ι) (ok : Bool) : Option (State ι) :=
  let goto (p : ThreadPc) : State ι := { s with pc := Function.update s.pc i p }
  match s.pc i with
  | .check => some (goto (if s.gStop then .done else .clear))
  | .clear =>
    some { goto .dial with
      discFired := Function.update s.discFired i false
      pending := s.pending.map (.overwrite i) }
  | .dial => some (goto (if ok then .advertise else .wait .backoff .lock))
  | .advertise =>
    some { s with
      pc := Function.update (fun j => (s.pc j).wake) i (.wait .disconnect .lock) }
  | .wait site .lock =>
    if s.mu = none then some { goto (.wait site .test) with mu := some i } else none
  | .wait site .test =>
    if s.pred i site then some { goto site.after with mu := none }
    else some (goto (.wait site .window))
  | .wait site .window => some { goto (.wait site .blocked) with mu := none }
  | .wait _ .blocked => none
  | .wait site .expired => if s.mu = none then some (goto site.after) else none
  | .recheck =>
    some (goto (if s.discFired i && !s.gStop then .wait .backoff .lock else .check))
  | .done => none

/-- Any step. A signal handler and a disconnect handler may run at any time. -/
def State.step (s : State ι) : Action ι → Option (State ι)
  | .thread i ok => s.thread i ok
  | .spurious i =>
    match s.pc i with
    | .wait site .blocked => some { s with pc := Function.update s.pc i (.wait site .lock) }
    | _ => none
  | .timeout i =>
    match s.pc i with
    | .wait .backoff .blocked =>
      some { s with pc := Function.update s.pc i (.wait .backoff .expired) }
    | _ => none
  | .fire i =>
    some { s with discFired := Function.update s.discFired i true, pending := .disc i :: s.pending }
  | .signal => some { s with gStop := true, pending := .signal :: s.pending }
  | .shutdown => some { s with gStop := true, pending := .shutdown :: s.pending }
  | .notify n =>
    if n ∈ s.pending then
      some { s with pc := fun i => (s.pc i).wake, pending := s.pending.erase n }
    else none

/-- The runs of any set of connection threads with their notifiers. -/
def wakeup (ι : Type) [DecidableEq ι] : Machine (State ι) (Action ι) where
  init := ⟨fun _ => .check, none, fun _ => false, false, []⟩
  step := State.step

/-! ## Lost wakeups -/

/-- The store of this notifier is one that makes the predicate of connection `i` true. -/
def Notifier.Serves (i : ι) : Notifier ι → Prop
  | .disc j => j = i
  | .overwritten _ => False
  | .signal => True
  | .shutdown => True

instance (i : ι) (n : Notifier ι) : Decidable (n.Serves i) := by
  cases n <;> unfold Notifier.Serves <;> infer_instance

/-- A thread is blocked in the wait for `disc_fired` or `g_stop` while that is true, and every
notifier that made it true has called its `notify_all`. -/
def Lost (s : State ι) (i : ι) : Prop :=
  s.pc i = .wait .disconnect .blocked ∧ s.pred i .disconnect = true ∧
    ∀ n ∈ s.pending, ¬ n.Serves i

/-- The condition on a step: a `notify_all` does not fall between the false test and the block of a
thread that it is meant for, unless another one meant for that thread is still to come. -/
def NotEarly (s : State ι) : Action ι → Prop
  | .notify n => ∀ i, s.pc i = .wait .disconnect .window → n.Serves i →
      ∃ n' ∈ s.pending.erase n, n'.Serves i
  | _ => True

/-- Between its false test and its wakeup. -/
def ThreadPc.Waiting (p : ThreadPc) : Prop :=
  p = .wait .disconnect .window ∨ p = .wait .disconnect .blocked

/-- A waiting thread whose predicate is true has a `notify_all` to come. -/
def Served (s : State ι) (i : ι) : Prop :=
  (s.pc i).Waiting → s.pred i .disconnect = true → ∃ n ∈ s.pending, n.Serves i

theorem ThreadPc.Waiting.of_wake {p : ThreadPc} (h : p.wake.Waiting) :
    p = .wait .disconnect .window := by
  unfold ThreadPc.wake at h
  split at h
  · rcases h with h | h <;> cases h
  next hne =>
    rcases h with h | h
    · exact h
    · exact absurd h (hne _)

theorem WaitSite.not_waiting_lock (site : WaitSite) : ¬ (ThreadPc.wait site .lock).Waiting := by
  rintro (h | h) <;> cases h

/-- Who waits after one thread has moved: that thread at its new place, or another as before. -/
theorem waiting_update {f : ι → ThreadPc} {i j : ι} {p : ThreadPc}
    (h : (Function.update f i p j).Waiting) : (j = i ∧ p.Waiting) ∨ (j ≠ i ∧ (f j).Waiting) := by
  by_cases hij : j = i
  · subst hij
    exact Or.inl ⟨rfl, by rwa [Function.update_self] at h⟩
  · exact Or.inr ⟨hij, by rwa [Function.update_of_ne hij] at h⟩

/-- Overwriting the flag of one connection takes nothing from another. -/
theorem Notifier.Serves.overwrite {i j : ι} {n : Notifier ι} (hij : j ≠ i) (h : n.Serves j) :
    (n.overwrite i).Serves j := by
  cases n with
  | disc k =>
    obtain rfl : k = j := h
    simp only [Notifier.overwrite, if_neg hij]
    rfl
  | overwritten k => exact h
  | signal => exact h
  | shutdown => exact h

/-- **What a step of a thread can do**: move, take or release the mutex, and then it comes to wait
with a true predicate only if it waited already; clear its flag; or notify on its way to the wait. -/
theorem State.thread_cases {s s' : State ι} {i : ι} {ok : Bool} (h : s.thread i ok = some s') :
    (∃ p mu, s' = { s with pc := Function.update s.pc i p, mu := mu } ∧
        (p.Waiting → s.pred i .disconnect = true → (s.pc i).Waiting)) ∨
      s' = { s with
        pc := Function.update s.pc i .dial
        discFired := Function.update s.discFired i false
        pending := s.pending.map (.overwrite i) } ∨
      s' = { s with
        pc := Function.update (fun j => (s.pc j).wake) i (.wait .disconnect .lock) } := by
  have hafter (site : WaitSite) : ¬ site.after.Waiting := by
    cases site <;> rintro (h | h) <;> cases h
  unfold State.thread at h
  cases hpc : s.pc i with
  | check =>
    simp only [hpc, Option.some.injEq] at h
    refine Or.inl ⟨_, _, h.symm, fun hw => ?_⟩
    split at hw <;> rcases hw with hw | hw <;> cases hw
  | clear =>
    simp only [hpc, Option.some.injEq] at h
    exact Or.inr (Or.inl h.symm)
  | dial =>
    simp only [hpc, Option.some.injEq] at h
    refine Or.inl ⟨_, _, h.symm, fun hw => ?_⟩
    split at hw <;> rcases hw with hw | hw <;> cases hw
  | advertise =>
    simp only [hpc, Option.some.injEq] at h
    exact Or.inr (Or.inr h.symm)
  | recheck =>
    simp only [hpc, Option.some.injEq] at h
    refine Or.inl ⟨_, _, h.symm, fun hw => ?_⟩
    split at hw <;> rcases hw with hw | hw <;> cases hw
  | done => simp only [hpc, reduceCtorEq] at h
  | wait site w =>
    cases w with
    | lock =>
      simp only [hpc] at h
      split at h
      · cases h
        refine Or.inl ⟨_, _, rfl, fun hw => ?_⟩
        rcases hw with hw | hw <;> cases hw
      · cases h
    | test =>
      simp only [hpc] at h
      split at h
      · cases h
        exact Or.inl ⟨_, _, rfl, fun hw => absurd hw (hafter site)⟩
      next hpred =>
        cases h
        refine Or.inl ⟨_, _, rfl, fun hw htrue => ?_⟩
        -- the test has just been false
        rcases hw with hw | hw <;> cases hw
        exact absurd htrue hpred
    | window =>
      simp only [hpc, Option.some.injEq] at h
      refine Or.inl ⟨_, _, h.symm, fun hw _ => ?_⟩
      rcases hw with hw | hw <;> cases hw
      exact Or.inl rfl
    | blocked => simp only [hpc, reduceCtorEq] at h
    | expired =>
      simp only [hpc] at h
      split at h
      · cases h
        exact Or.inl ⟨_, _, rfl, fun hw => absurd hw (hafter site)⟩
      · cases h

/-- A step of a thread keeps every waiting thread served. -/
theorem Served.thread {s s' : State ι} {i : ι} {ok : Bool} (hs : ∀ j, Served s j)
    (h : s.thread i ok = some s') (j : ι) : Served s' j := by
  intro hwaits hpred
  rcases State.thread_cases h with ⟨p, mu, rfl, hp⟩ | rfl | rfl
  · rcases waiting_update hwaits with ⟨rfl, hw⟩ | ⟨-, hw⟩
    · exact hs j (hp hw hpred) hpred
    · exact hs j hw hpred
  · rcases waiting_update hwaits with ⟨-, hw | hw⟩ | ⟨hij, hw⟩
    · cases hw
    · cases hw
    · simp only [State.pred, Function.update_of_ne hij] at hpred
      obtain ⟨n, hn, hserves⟩ := hs j hw hpred
      exact ⟨_, List.mem_map_of_mem hn, hserves.overwrite hij⟩
  · dsimp only at hwaits
    rcases waiting_update hwaits with ⟨-, hw⟩ | ⟨-, hw⟩
    · exact absurd hw (WaitSite.not_waiting_lock _)
    · exact hs j (Or.inl hw.of_wake) hpred

/-- Every step that is not an early `notify_all` keeps every waiting thread served. -/
theorem Served.step {s s' : State ι} {a : Action ι} (hs : ∀ j, Served s j) (hearly : NotEarly s a)
    (h : s.step a = some s') (j : ι) : Served s' j := by
  cases a with
  | thread i ok => exact Served.thread hs h j
  | spurious i =>
    simp only [State.step] at h
    split at h
    · cases h
      intro hw hpred
      rcases waiting_update hw with ⟨-, hw⟩ | ⟨-, hw⟩
      · exact absurd hw (WaitSite.not_waiting_lock _)
      · exact hs j hw hpred
    · cases h
  | timeout i =>
    simp only [State.step] at h
    split at h
    · cases h
      intro hw hpred
      rcases waiting_update hw with ⟨-, hw | hw⟩ | ⟨-, hw⟩
      · cases hw
      · cases hw
      · exact hs j hw hpred
    · cases h
  | fire i =>
    cases h
    intro hw hpred
    by_cases hij : j = i
    · exact ⟨_, List.mem_cons_self, hij.symm⟩
    · simp only [State.pred, Function.update_of_ne hij] at hpred
      obtain ⟨n, hn, hserves⟩ := hs j hw hpred
      exact ⟨n, List.mem_cons_of_mem _ hn, hserves⟩
  | signal =>
    cases h
    exact fun _ _ => ⟨_, List.mem_cons_self, trivial⟩
  | shutdown =>
    cases h
    exact fun _ _ => ⟨_, List.mem_cons_self, trivial⟩
  | notify n =>
    simp only [State.step] at h
    split at h
    next hn =>
      cases h
      intro hw hpred
      -- whoever still waits is in the window, where an early `notify_all` would have hit it
      have hwindow := hw.of_wake
      obtain ⟨n', hn', hserves⟩ := hs j (Or.inl hwindow) hpred
      by_cases hne : n' = n
      · subst hne
        exact hearly j hwindow hserves
      · exact ⟨n', (List.mem_erase_of_ne hne).mpr hn', hserves⟩
    next => cases h

/-- **No lost wakeup without an early `notify_all`**: in a run in which no `notify_all` falls into
the window of a thread it is meant for, no reached state has a lost wakeup. -/
theorem not_lost {s : State ι} (h : (wakeup ι).Reach NotEarly s) (i : ι) : ¬ Lost s i := by
  have hs : ∀ j, Served s j := by
    refine h.invariant (I := fun s => ∀ j, Served s j) ?_ fun s a s' _ hearly hstep hs =>
      Served.step hs hearly hstep
    rintro j (hw | hw) <;> cases hw
  rintro ⟨hblocked, hpred, hnone⟩
  obtain ⟨n, hn, hserves⟩ := hs i (Or.inr hblocked) hpred
  exact hnone n hn hserves

/-- **An early `notify_all` loses the wakeup**: where a notifier has made the predicate of a thread
in its window true, is the only one meant for it, and calls `notify_all`, the thread's next step
ends in a lost wakeup. -/
theorem lost_of_early_notify {s : State ι} {i : ι} {n : Notifier ι} {ok : Bool}
    (hwindow : s.pc i = .wait .disconnect .window) (hpred : s.pred i .disconnect = true)
    (hn : n ∈ s.pending) (honly : ∀ n' ∈ s.pending.erase n, ¬ n'.Serves i) :
    ∃ s' s'', s.step (.notify n) = some s' ∧ s'.step (.thread i ok) = some s'' ∧ Lost s'' i := by
  have hwake : (s.pc i).wake = .wait .disconnect .window := by rw [hwindow]; rfl
  let s' : State ι := { s with pc := fun j => (s.pc j).wake, pending := s.pending.erase n }
  refine ⟨s', { s' with pc := Function.update s'.pc i (.wait .disconnect .blocked), mu := none },
    if_pos hn, ?_, ?_, hpred, honly⟩
  · simp only [State.step, State.thread, s', hwake]
  · exact Function.update_self i _ s'.pc

/-! ## Two runs -/

instance (s : State ι) (i : ι) : Decidable (Lost s i) := by
  unfold Lost; infer_instance

instance [Fintype ι] (s : State ι) (a : Action ι) : Decidable (NotEarly s a) := by
  cases a <;> unfold NotEarly <;> infer_instance

/-- The first of four threads dials, registers, and tests the predicate of its wait. -/
def toWindow : List (Action (Fin 4)) :=
  [.thread 0 true, .thread 0 true, .thread 0 true, .thread 0 true, .thread 0 true, .thread 0 true]

theorem not_lost_after_block :
    ∃ s, (wakeup (Fin 4)).Reach NotEarly s ∧ s.pred 0 .disconnect = true ∧ ¬ Lost s 0 := by
  have hrun : ((wakeup (Fin 4)).exec NotEarly (wakeup (Fin 4)).init
      (toWindow ++ [.fire 0, .thread 0 true, .notify (.disc 0)])).any
        (fun s => decide (s.pred 0 .disconnect = true)) = true := by decide
  obtain ⟨s, hreach, hpred⟩ := Machine.exists_reach_of_exec hrun
  exact ⟨s, hreach, hpred, not_lost hreach 0⟩

/-- The connection drops just then: its handler runs to the end before the thread blocks. -/
theorem disconnect_in_window_lost :
    ¬ ∀ s, (wakeup (Fin 4)).Reachable s → ∀ i, ¬ Lost s i := by
  intro hall
  have hrun : ((wakeup (Fin 4)).exec (fun _ _ => True) (wakeup (Fin 4)).init
      (toWindow ++ [.fire 0, .notify (.disc 0), .thread 0 true])).any
        (fun s => decide (Lost s 0)) = true := by decide
  obtain ⟨s, hreach, hlost⟩ := Machine.exists_reach_of_exec hrun
  exact hall s hreach 0 hlost

end Cfd.Main.Wakeup
