import Cfd.Tunnel.WakeupCv

/-!
# Where a shutdown ends

What becomes of a session once `g_stop` is set, with the wait for a disconnect spelled out. There are
three kinds of states in which nobody can go on. The process has shut down (`Over`). Or it hangs (`Hung`):
`main` waits, inside `close_mu_`, for `RegistrationClose`, which waits for a connection that is open under
the registration, and the connection thread, which alone could close it, waits for `close_mu_`. Or `main`
waits to join the connection thread, which is blocked in its wait: the `notify_all` that was to tell it
of `g_stop` fell between its test and its block.

So neither is a matter of scheduling: `shutdown_ends` says that every run that goes on as long as
somebody can move ends in one of the three, that a hang for `close_mu_` is for ever, and that a wakeup is
lost in no other way.
-/

set_option autoImplicit false

namespace Cfd.Tunnel.Session

open Cfd.Base
open CondVar (lift)

/-! ## Where nobody can move -/

/-- The parties of the process, msquic's events and the signal apart. -/
def Action.inner : Action → Bool
  | .event _ _ | .signal => false
  | _ => true

/-- No party can move. -/
def Halted (s : CondState State Unit) : Prop :=
  wakeupCv.Still session Blocks (CondVar.Inner fun a => a.inner = true) s

/-- No callback runs, and neither does the registration thread nor the router thread. -/
structure State.Quiet (s : State) : Prop where
  kj : s.kj = .idle
  router : s.router = .idle
  callbacks : ∀ x, (s.shared.conn x).callback = none

/-- The shutdown is over. -/
def State.Over (s : State) : Prop := s.thread = .done ∧ s.main = .done

/-- `main` waits for the registration, the registration for a connection that is open under it, and the
connection thread for `main`. -/
def State.Hung (s : State) : Prop :=
  ∃ site r x, s.thread = .close site .lock ∧ s.main = .closing (.reset .registration (.drain r)) ∧
    s.view.Open x ∧ (s.shared.handles .connection x).parent = some r

/-- Where nobody but the thread can move, nobody else is in the midst of something that waits for
nothing. -/
theorem State.quiet_of_none {s : State}
    (h : ∀ a, a.inner = true → (∀ ok, a ≠ .thread ok) → Blocks s a → s.step a = none) : s.Quiet := by
  have hany : ∀ a, a.inner = true → (∀ ok, a ≠ .thread ok) → s.registrationReturn a = none →
      s.step a = none := by
    intro a ha hother hreturn
    refine h a ha hother ?_
    intro r hr
    rw [hreturn] at hr
    cases hr
  refine ⟨?_, ?_, ?_⟩
  · have hkj := Option.map_eq_none_iff.mp (hany (.kj true) rfl (by simp) rfl)
    cases hpc : s.kj with
    | idle => rfl
    | registering p =>
      simp only [hpc, kjStep] at hkj
      split at hkj <;> cases hkj
    | rpc | answer => simp [hpc, kjStep] at hkj
  · have hrouter := Option.map_eq_none_iff.mp (hany .router rfl (by simp) rfl)
    cases hpc : s.router with
    | idle => rfl
    | sending p =>
      simp only [routerStep, hpc] at hrouter
      split at hrouter <;> cases hrouter
  · intro x
    have hcallback := Option.map_eq_none_iff.mp (hany (.callback x) rfl (by simp) rfl)
    cases hpc : (s.shared.conn x).callback with
    | none => rfl
    | some p =>
      simp only [callbackStep, hpc] at hcallback
      cases p with
      | connectedLock | fireCall => cases hcallback
      | fireLock =>
        simp only at hcallback
        split at hcallback <;> cases hcallback

/-- A thread that waits for a registration to be answered has somebody who answers. -/
theorem not_await_of_quiet {s : State} (hs : Answering s) (hquiet : s.Quiet)
    (hkj : s.step (.kj true) = none) (hwait : ∀ ok, s.shared.future ≠ .answered ok) :
    s.thread ≠ .await := by
  intro hawait
  have hnone : kjStep s.shared true .idle = none := by
    have hstep := Option.map_eq_none_iff.mp hkj
    rwa [hquiet.kj] at hstep
  cases hfuture : s.shared.future with
  | none => exact hs.await.mp hawait hfuture
  | posted =>
    rw [kjStep, if_pos hfuture] at hnone
    cases hnone
  | taken => exact hs.taken.mpr hfuture hquiet.kj
  | answered ok => exact hwait ok hfuture

/-- Whoever finds the lock taken waits. -/
theorem threadStep_lock {s : Shared} {ok : Bool} (hheld : s.closeMu ≠ none) (site : CloseSite) :
    threadStep s ok (.close site .lock) = none := by
  rw [threadStep_close, closeStep, if_neg hheld]
  rfl

/-- In a hang `main` has the lock. -/
theorem State.Hung.held {s : State} (hs : s.Hung) (hlock : s.view.Locked) :
    s.shared.closeMu ≠ none := by
  obtain ⟨_, _, _, -, hmain, -⟩ := hs
  have hin : s.main.inside = true := by
    rw [hmain]
    rfl
  have hmu : s.shared.closeMu = some .main := hlock.mutex .main hin
  rw [hmu]
  exact Option.some_ne_none _

/-- In a hang `RegistrationClose` does not return. -/
theorem State.Hung.not_blocks {s : State} {ok : Bool} (hs : s.Hung) : ¬Blocks s (.main ok) := by
  intro hblocks
  obtain ⟨_, r, x, -, hmain, ⟨hlt, hopen⟩, hparent⟩ := hs
  have hreturn : s.registrationReturn (.main ok) = some r := by
    rw [State.registrationReturn, hmain]
  have hclosed := hblocks r hreturn x hlt hparent
  have hnot : (s.shared.handles .connection x).closed = false := hopen
  rw [hnot] at hclosed
  cases hclosed

/-- When `main` is done it has joined the thread. -/
theorem reach_joined {guard : State → Action → Prop} {s : State} (h : session.Reach guard s) :
    s.main = .done → s.thread = .done := by
  refine h.invariant (I := fun s => s.main = .done → s.thread = .done) (by intro hm; cases hm) ?_
  intro s a s' _ _ hstep hs hm
  by_cases hdone : s.main = .done
  · exact step_done hstep (hs hdone)
  · cases a with
    | main ok =>
      obtain ⟨⟨sh, m⟩, hmain, rfl⟩ := Option.map_eq_some_iff.mp hstep
      obtain ⟨sh₀, t, r, k, m₀⟩ := s
      cases m₀ with
      | joining =>
        simp only [mainStep] at hmain
        split at hmain
        next hjoined => exact hjoined
        next => cases hmain
      | closing p =>
        rcases mainStep_cases hmain with ⟨p, q, -, -, rfl⟩ | ⟨-, hne, -⟩
        · cases q <;> cases hm
        · exact absurd rfl (hne p)
      | waiting =>
        cases hmain
        revert hm
        split <;> (intro hm; cases hm)
      | pumping | stopping =>
        simp only [mainStep] at hmain
        split at hmain <;> cases hmain
        cases hm
      | storeStop =>
        cases hmain
        cases hm
      | done => exact absurd rfl hdone
    | thread | router | kj | event | callback =>
      obtain ⟨r, -, rfl⟩ := Option.map_eq_some_iff.mp hstep
      exact absurd hm hdone
    | signal =>
      cases hstep
      exact absurd hm hdone

variable {s : CondState State Unit}

/-- **A thread that sleeps leaves its session calm.** -/
theorem calm_of_asleep (h : wakeable.Reach (lift Blocks) s) (hi : CondVar.Asleep s ()) :
    s.state.thread = .wait ∧ Calm s.state := by
  have hstart : ∀ s (i : Unit), session.Reach Blocks s → wakeupCv.waits s i = true →
      wakeupCv.cond s i = false → Calm s := by
    intro s i hr _ hfalse
    exact calm_of_running hr (Bool.or_eq_false_iff.mp hfalse).2
  obtain ⟨hwaits, hcalm⟩ := CondVar.of_asleep (fun s _ => Calm s) hstart
    (fun s a t i hr _ hstep hne _ hs =>
      hs.step (reach_slotted hr).2 (reach_tied hr).1 (thread_ne hne) hstep) wakeupCv_fits h hi
  exact ⟨of_decide_eq_true hwaits, hcalm⟩

/-- Where nobody can move, the thread has returned, or waits for `main`, or is blocked. -/
theorem thread_of_halted (h : wakeable.Reach (lift Blocks) s) (hstop : s.state.shared.gStop = true)
    (hquiet : s.state.Quiet) (hkj : s.state.step (.kj true) = none)
    (hnone : s.blocked () = false → s.state.step (.thread true) = none) :
    s.state.thread = .done ∨
      (∃ site, s.state.thread = .close site .lock ∧ s.state.shared.closeMu ≠ none) ∨
      s.blocked () = true ∧ s.state.thread = .wait := by
  have hr := CondVar.refines.reach h
  cases hblocked : s.blocked () with
  | true => exact Or.inr (Or.inr ⟨rfl, (calm_of_asleep h (Or.inr hblocked)).1⟩)
  | false =>
    have hthread := Option.map_eq_none_iff.mp (hnone hblocked)
    rcases threadStep_none hquiet.callbacks hthread with hdone | hclose | ⟨hawait, hwait⟩ | ⟨-, -, hrun⟩
    · exact Or.inl hdone
    · exact Or.inr (Or.inl hclose)
    · exact absurd hawait (not_await_of_quiet (reach_answering hr).2 hquiet hkj hwait)
    · cases hrun.symm.trans hstop

/-- Where the thread is outside of its `close` and `main` cannot move, `main` is done or waits to join the
thread. -/
theorem main_of_halted {s : State} (hr : session.Reach Blocks s) (hstop : s.shared.gStop = true)
    (hquiet : s.Quiet) (houtside : s.thread.inside = false) (hnone : mainStep s true = none) :
    s.shared.closeMu = none ∧ (s.main = .done ∨ s.main = .joining ∧ s.thread ≠ .done) := by
  have hmain := mainStep_none hstop hquiet.router hquiet.callbacks hnone
  have hmainOut : s.main.inside = false := by
    rcases hmain with hm | ⟨hm, -⟩ | ⟨hm, -⟩ <;> rw [hm] <;> rfl
  have hfree : s.shared.closeMu = none := by
    cases hmu : s.shared.closeMu with
    | none => rfl
    | some who =>
      have hin := (reach_answering hr).1 who hmu
      cases who with
      | thread => cases houtside.symm.trans hin
      | main => cases hmainOut.symm.trans hin
  refine ⟨hfree, ?_⟩
  rcases hmain with hm | ⟨-, hheld⟩ | hjoin
  · exact Or.inl hm
  · exact absurd hfree hheld
  · exact Or.inr hjoin

/-- In each of the three ends the thread has returned, or waits for `main`, or is blocked. -/
theorem thread_of_end (h : wakeable.Reach (lift Blocks) s)
    (hend : s.state.Over ∨ s.state.Hung ∨ wakeupCv.Lost s () ∧ s.state.main = .joining) :
    s.state.thread = .done ∨
      (∃ site, s.state.thread = .close site .lock ∧ s.state.shared.closeMu ≠ none) ∨
      s.blocked () = true ∧ s.state.thread = .wait := by
  rcases hend with ⟨hdone, -⟩ | hhung | ⟨hlost, -⟩
  · exact Or.inl hdone
  · obtain ⟨site, _, _, ht, -⟩ := id hhung
    have hlock := (reach_slotted (CondVar.refines.reach h)).1
    exact Or.inr (Or.inl ⟨site, ht, hhung.held hlock⟩)
  · exact Or.inr (Or.inr ⟨hlost.blocked, (calm_of_asleep h (Or.inr hlost.blocked)).1⟩)

/-- In each of the three ends nobody can move, a blocked thread apart. -/
theorem step_none_of_end (h : wakeable.Reach (lift Blocks) s) (hquiet : s.state.Quiet)
    (hend : s.state.Over ∨ s.state.Hung ∨ wakeupCv.Lost s () ∧ s.state.main = .joining) {a : Action}
    (hinner : a.inner = true) (hblocks : Blocks s.state a)
    (hawake : ∀ i, wakeupCv.thread a = some i → s.blocked i = false) : s.state.step a = none := by
  have hthread := thread_of_end h hend
  cases a with
  | thread ok =>
    apply Option.map_eq_none_iff.mpr
    rcases hthread with ht | ⟨site, ht, hheld⟩ | ⟨hblocked, -⟩
    · rw [ht]
      rfl
    · rw [ht]
      exact threadStep_lock hheld site
    · cases (hawake () rfl).symm.trans hblocked
  | main ok =>
    rcases hend with ⟨-, hdone⟩ | hhung | ⟨hlost, hjoining⟩
    · simp [State.step, mainStep, hdone]
    · exact absurd hblocks hhung.not_blocks
    · have hwait := (calm_of_asleep h (Or.inr hlost.blocked)).1
      simp [State.step, mainStep, hjoining, hwait]
  | router =>
    have hmain : s.state.main ≠ .pumping := by
      rcases hend with ⟨-, hm⟩ | ⟨site, r, x, -, hm, -⟩ | ⟨-, hm⟩ <;> rw [hm] <;>
        exact MainPc.noConfusion
    simp [State.step, routerStep, hquiet.router, hmain]
  | kj ok =>
    have hfuture : s.state.shared.future = .none := by
      by_contra hne
      have hawait := (reach_answering (CondVar.refines.reach h)).2.await.mpr hne
      rcases hthread with ht | ⟨site, ht, -⟩ | ⟨-, ht⟩ <;> cases ht.symm.trans hawait
    simp [State.step, kjStep, hquiet.kj, hfuture]
  | callback x => simp [State.step, callbackStep, hquiet.callbacks x]
  | event | signal => cases hinner

/-- **Where nobody can move.** -/
theorem halted_iff (h : wakeable.Reach (lift Blocks) s) (hstop : s.state.shared.gStop = true) :
    Halted s ↔ CondVar.Settled s ∧ s.state.Quiet ∧
      (s.state.Over ∨ s.state.Hung ∨ wakeupCv.Lost s () ∧ s.state.main = .joining) := by
  have hr : session.Reach Blocks s.state := CondVar.refines.reach h
  have hcond : wakeupCv.cond s.state () = true := Bool.or_eq_true_iff.mpr (Or.inr hstop)
  rw [Halted, CondVar.still_iff]
  refine and_congr_right fun hsettled => ⟨?_, fun ⟨hquiet, hend⟩ =>
    ⟨fun _ _ _ => hcond, fun _ => step_none_of_end h hquiet hend⟩⟩
  rintro ⟨-, hnone⟩
  have hother : ∀ a, a.inner = true → (∀ ok, a ≠ .thread ok) → Blocks s.state a →
      s.state.step a = none := by
    intro a hinner hne hblocks
    refine hnone a hinner hblocks fun i hi => ?_
    cases a with
    | thread ok => exact absurd rfl (hne ok)
    | _ => cases hi
  have hquiet := State.quiet_of_none hother
  have hkj : s.state.step (.kj true) = none := hother _ rfl (by simp) (fun r hr => by cases hr)
  have hthread := thread_of_halted h hstop hquiet hkj fun hawake =>
    hnone (.thread true) rfl (blocks_thread hr true) fun _ _ => hawake
  have houtside : s.state.thread.inside = false := by
    rcases hthread with ht | ⟨site, ht, -⟩ | ⟨-, ht⟩ <;> rw [ht] <;> rfl
  refine ⟨hquiet, ?_⟩
  by_cases hblocks : Blocks s.state (.main true)
  · have hmain := Option.map_eq_none_iff.mp (hother (.main true) rfl (by simp) hblocks)
    obtain ⟨hfree, hm | ⟨hm, hjoin⟩⟩ := main_of_halted hr hstop hquiet houtside hmain
    · exact Or.inl ⟨reach_joined hr hm, hm⟩
    · rcases hthread with hdone | ⟨site, -, hheld⟩ | ⟨hblocked, -⟩
      · exact absurd hdone hjoin
      · exact absurd hfree hheld
      · exact Or.inr (Or.inr ⟨⟨hblocked, hcond, hsettled.pending⟩, hm⟩)
  · -- `main` waits for a connection that is open, so the thread has not returned and is not blocked
    obtain ⟨r, x, hmain, hopen, hparent⟩ := not_blocks_main hblocks
    rcases hthread with hdone | ⟨site, ht, -⟩ | ⟨hblocked, hwait⟩
    · have hemptied : s.state.thread.emptied = true := by
        rw [hdone]
        rfl
      exact absurd hopen ((reach_tied hr).2.emptied hemptied x)
    · exact Or.inr (Or.inl ⟨site, r, x, ht, hmain, hopen, hparent⟩)
    · exact absurd hopen ((calm_of_asleep h (Or.inr hblocked)).2.closed hwait hmain x)

/-! ## A hang is for ever -/

theorem State.Hung.same {s s' : State} (hs : s.Hung) (ht : s'.thread = s.thread)
    (hm : s'.main = s.main) (hsame : SameHandles s.shared s'.shared) : s'.Hung := by
  obtain ⟨site, r, x, hthread, hmain, hopen, hparent⟩ := hs
  refine ⟨site, r, x, ht.trans hthread, hm.trans hmain, ?_, ?_⟩
  · constructor
    · show x < s'.shared.next .connection
      rw [hsame.next]
      exact hopen.1
    · show (s'.shared.handles .connection x).closed = false
      rw [hsame.handles]
      exact hopen.2
  · rw [hsame.handles]
    exact hparent

theorem State.Hung.step {s s' : State} {a : Action} (hs : s.Hung) (hlock : s.view.Locked)
    (hblocks : Blocks s a) (h : s.step a = some s') : s'.Hung := by
  cases a with
  | thread ok =>
    obtain ⟨⟨sh, t'⟩, hthread, rfl⟩ := Option.map_eq_some_iff.mp h
    obtain ⟨site, _, _, ht, -⟩ := id hs
    rw [ht, threadStep_lock (hs.held hlock)] at hthread
    cases hthread
  | main ok => exact absurd hblocks hs.not_blocks
  | router =>
    obtain ⟨p, -, rfl⟩ := Option.map_eq_some_iff.mp h
    exact hs.same rfl rfl ⟨rfl, rfl, rfl⟩
  | kj ok =>
    obtain ⟨⟨sh, k'⟩, hkj, rfl⟩ := Option.map_eq_some_iff.mp h
    exact hs.same rfl rfl (kjStep_same hkj)
  | event y e =>
    obtain ⟨sh, hdeliver, rfl⟩ := Option.map_eq_some_iff.mp h
    exact hs.same rfl rfl (deliver_same hdeliver).1
  | callback y =>
    obtain ⟨sh, hcallback, rfl⟩ := Option.map_eq_some_iff.mp h
    exact hs.same rfl rfl (callbackStep_same hcallback).1
  | signal =>
    cases h
    exact hs.same rfl rfl ⟨rfl, rfl, rfl⟩

theorem hung_after {s t : State} (h : session.Reach Blocks s) (hhung : s.Hung)
    (ht : (session.after s).Reach Blocks t) : t.Hung := by
  have hboth : t.view.Locked ∧ t.Hung := by
    refine ht.invariant (I := fun t => t.view.Locked ∧ t.Hung) ⟨(reach_slotted h).1, hhung⟩ ?_
    intro s₁ a s₂ _ hblocks hstep hs₁
    exact ⟨(step_move hstep).locked hs₁.1, hs₁.2.step hs₁.1 hblocks hstep⟩
  exact hboth.2

/-- **A shutdown ends, or stops in one of two places.** From any state with `g_stop` set, the connection
thread, `main` and the registration thread take at most 123 steps in all, those of the wait included,
whatever happens between them. When nobody can move, either all has come to its end, or `main` waits in
`RegistrationClose`, with `close_mu_` held, for a connection that is open under the registration, and the
connection thread for `close_mu_`, and then it is so for ever; or the wakeup of the connection thread is
lost, and `main` waits to join it. No wakeup is lost in a run without a `notify_all` between its test and
its block. -/
theorem shutdown_ends (h : wakeable.Reach (lift Blocks) s) (hstop : s.state.shared.gStop = true) :
    (∀ history t, (wakeable.after s).Run (lift Blocks) history t →
      history.countP (fun x => CondVar.counts Action.ofThreads x.2) ≤ 123) ∧
    (Halted s ↔ CondVar.Settled s ∧ s.state.Quiet ∧
      (s.state.Over ∨ s.state.Hung ∨ wakeupCv.Lost s () ∧ s.state.main = .joining)) ∧
    (s.state.Hung → ∀ t, (wakeable.after s).Reach (lift Blocks) t → t.state.Hung) ∧
    (wakeable.Reach (fun s a => lift Blocks s a ∧ wakeupCv.NotEarly s a) s → ¬wakeupCv.Lost s ()) := by
  refine ⟨?_, halted_iff h hstop, ?_, fun hearly => CondVar.not_lost_of_notEarly wakeupCv_fits hearly ()⟩
  · intro history t hrun
    have hle := CondVar.countP_le (c := wakeupCv) (fun s => s.shared.gStop = true) State.todo
      Action.ofThreads (fun s a t _ hstep hset => step_todo hset hstep)
      (fun s i hset => Bool.or_eq_true_iff.mpr (Or.inr hset)) hstop hrun
    have htodo := s.state.todo_le
    omega
  · intro hhung t ht
    exact hung_after (CondVar.refines.reach h) hhung ((CondVar.refines.after h).reach ht)

/-- `main`'s reset is torn as before; the callback ends, and the registration is refused. -/
def hungSteps : List Action :=
  tornSteps ++ [.callback 0] ++ threadSteps 1 ++ List.replicate 3 (.kj true) ++ threadSteps 1

/-- The first connection is up, and the thread has found its condition false. Before it blocks, the
signal handler and `shutdown_all` store `g_stop` and notify; `main` then closes the client. -/
def lostSteps : List (CondAction Action Unit) :=
  upSteps.map .step ++ [.notify, .test ()] ++
    ([.main true, .signal, .main false, .main false, .main false] : List Action).map .step ++
    [.notify, .notify, .block ()] ++ List.replicate 16 (.step (.main false))

/-- Both are reached. -/
theorem shutdown_ends_stuck :
    (∃ s, wakeable.Reach (lift Blocks) s ∧ s.state.Hung ∧ Halted s ∧
      ∀ t, (wakeable.after s).Reach (lift Blocks) t → t.state.Hung) ∧
    ∃ s, wakeable.Reach (lift Blocks) s ∧ wakeupCv.Lost s () ∧ s.state.main = .joining ∧ Halted s := by
  have hidle : ∀ {s : CondState State Unit}, wakeable.Reach (lift Blocks) s →
      s.state.shared.next .connection = 1 → (s.state.shared.conn 0).callback = none →
      ∀ x, (s.state.shared.conn x).callback = none := by
    intro s hs hnext hidle x
    by_contra hne
    have hx : x < s.state.shared.next .connection :=
      ((reach_flagged (CondVar.refines.reach hs)).running x hne).1
    rw [hnext] at hx
    obtain rfl : x = 0 := Nat.lt_one_iff.mp hx
    exact hne hidle
  constructor
  · have hrun : (wakeable.exec (lift Blocks) wakeable.init (hungSteps.map .step ++ [.notify, .notify])).any (fun s =>
        decide (s.state.thread = .close .regFailed .lock ∧
          s.state.main = .closing (.reset .registration (.drain 0)) ∧
          s.state.shared.next .connection = 1 ∧
          (s.state.shared.handles .connection 0).closed = false ∧
          (s.state.shared.handles .connection 0).parent = some 0 ∧ s.state.kj = .idle ∧
          s.state.router = .idle ∧ (s.state.shared.conn 0).callback = none ∧
          s.state.shared.gStop = true ∧ s.mu = none ∧ s.pending = 0)) = true := by decide
    obtain ⟨s, hs, hthread, hmain, hnext, hopen, hparent, hkj, hrouter, hcallback, hstop, hmu,
      hpending⟩ := Machine.exists_reach_of_exec hrun
    have hlt : 0 < s.state.shared.next .connection := by
      rw [hnext]
      exact Nat.one_pos
    have hhung : s.state.Hung := ⟨.regFailed, 0, 0, hthread, hmain, ⟨hlt, hopen⟩, hparent⟩
    obtain ⟨-, hhalted, hforever, -⟩ := shutdown_ends hs hstop
    exact ⟨s, hs, hhung, hhalted.mpr ⟨⟨hmu, hpending⟩,
      ⟨hkj, hrouter, hidle hs hnext hcallback⟩, Or.inr (Or.inl hhung)⟩, hforever hhung⟩
  · have hrun : (wakeable.exec (lift Blocks) wakeable.init lostSteps).any (fun s =>
        decide (s.blocked () = true ∧ s.pending = 0 ∧ s.mu = none ∧ s.state.main = .joining ∧
          s.state.shared.next .connection = 1 ∧ s.state.kj = .idle ∧
          s.state.router = .idle ∧ (s.state.shared.conn 0).callback = none ∧
          s.state.shared.gStop = true)) = true := by decide
    obtain ⟨s, hs, hblocked, hpending, hmu, hmain, hnext, hkj, hrouter, hcallback, hstop⟩ :=
      Machine.exists_reach_of_exec hrun
    have hlost : wakeupCv.Lost s () := ⟨hblocked, Bool.or_eq_true_iff.mpr (Or.inr hstop), hpending⟩
    obtain ⟨-, hhalted, -⟩ := shutdown_ends hs hstop
    exact ⟨s, hs, hlost, hmain, hhalted.mpr ⟨⟨hmu, hpending⟩,
      ⟨hkj, hrouter, hidle hs hnext hcallback⟩, Or.inr (Or.inr ⟨hlost, hmain⟩)⟩⟩

end Cfd.Tunnel.Session
