import Cfd.Base.CondVar
import Cfd.Tunnel.Shutdown

/-!
# The wait for a disconnect

The wait at the end of a connection thread's loop body, on `g_wakeup_cv`. In `session` the wait is one
step, which is enabled when `disc_fired` or `g_stop` is set; `wakeable` spells it out, so that the thread
blocks, and is woken by the `notify_all` of a disconnect handler, of the signal handler, of `shutdown_all`,
or of a thread that has registered. The waits of `interruptible_sleep` and of `main` are timed, so they end
however it is.

A thread that sleeps there has found `g_stop` not set, so all that `main` does to its client comes behind
that: no connection gets lost between the two (`Calm`), which is what closing the client then relies on.
-/

set_option autoImplicit false

namespace Cfd.Tunnel.Session

open Cfd.Base

/-! ## The condition variable -/

/-- The steps that are followed by `g_wakeup_cv.notify_all()`. -/
def State.wakes (s : State) : Action → Bool
  | .callback h => (s.shared.conn h).callback = some (.fireCall true)
  | .main _ => s.main = .storeStop
  | .thread _ => s.thread = .advertise
  | .signal => true
  | .router | .kj _ | .event _ _ => false

/-- `g_wakeup_cv`, as far as the connection thread waits on it. -/
def wakeupCv : CondVar State Action Unit where
  waits s _ := s.thread = .wait
  cond s _ := s.shared.discFired || s.shared.gStop
  thread
    | .thread _ => some ()
    | _ => none
  notifies := State.wakes

/-- The runs of one connection with the wait for a disconnect spelled out. -/
def wakeable : Machine (CondState State Unit) (CondAction Action Unit) := wakeupCv.withWaits session

variable {s s' : State} {a : Action}

/-- Only the thread moves itself. -/
theorem step_thread (h : s.step a = some s') (hother : ∀ ok, a ≠ .thread ok) :
    s'.thread = s.thread := by
  cases a with
  | thread ok => exact absurd rfl (hother ok)
  | main | router | kj | event | callback =>
    obtain ⟨r, -, rfl⟩ := Option.map_eq_some_iff.mp h
    rfl
  | signal =>
    cases h
    rfl

/-- `disc_fired` is set by a callback that has copied the handler. -/
theorem Move.fires {v v' : View} (h : Move v a v') (hclear : v.discFired = false)
    (hfired : v'.discFired = true) :
    ∃ x, a = .callback x ∧ (v.conn x).callback = some (.fireCall true) := by
  cases h with
  | @fire x hpc => exact ⟨x, rfl, hpc⟩
  | clearDisc => cases hfired
  | lock who | unlock who | beginReset who | read who | writeNull who | write who | call who | drain who =>
    cases who <;> cases hclear.symm.trans hfired
  | _ => cases hclear.symm.trans hfired

theorem mainStep_gStop {sh : Shared} {m : MainPc} {ok : Bool} (h : mainStep s ok = some (sh, m)) :
    s.main = .storeStop ∨ sh.gStop = s.shared.gStop := by
  rcases mainStep_cases h with ⟨p, q, -, hclose, -⟩ | ⟨-, hne, -⟩
  · exact Or.inr (closeStep_todo hclose).2.2
  · obtain ⟨sh₀, t, r, k, m₀⟩ := s
    cases m₀ with
    | storeStop => exact Or.inl rfl
    | closing p => exact absurd rfl (hne p)
    | waiting =>
      cases h
      exact Or.inr rfl
    | pumping | stopping | joining =>
      simp only [mainStep] at h
      split at h <;> cases h
      exact Or.inr rfl
    | done => cases h

/-- `g_stop` is set by the signal handler and by `shutdown_all`. -/
theorem step_stops (h : s.step a = some s') (hother : ∀ ok, a ≠ .thread ok)
    (hrun : s.shared.gStop = false) (hstop : s'.shared.gStop = true) : s.wakes a = true := by
  cases a with
  | thread ok => exact absurd rfl (hother ok)
  | main ok =>
    obtain ⟨⟨sh, m⟩, hmain, rfl⟩ := Option.map_eq_some_iff.mp h
    rcases mainStep_gStop hmain with hstore | hsame
    · simp [State.wakes, hstore]
    · cases hrun.symm.trans (hsame.symm.trans hstop)
  | router =>
    obtain ⟨p, -, rfl⟩ := Option.map_eq_some_iff.mp h
    cases hrun.symm.trans hstop
  | kj ok =>
    obtain ⟨⟨sh, k⟩, hkj, rfl⟩ := Option.map_eq_some_iff.mp h
    cases hrun.symm.trans ((kjStep_todo hkj).2.symm.trans hstop)
  | event x e =>
    obtain ⟨sh, hdeliver, rfl⟩ := Option.map_eq_some_iff.mp h
    cases hrun.symm.trans ((deliver_future hdeliver).2.symm.trans hstop)
  | callback x =>
    obtain ⟨sh, hcallback, rfl⟩ := Option.map_eq_some_iff.mp h
    cases hrun.symm.trans ((callbackStep_future hcallback).2.symm.trans hstop)
  | signal => rfl

theorem thread_ne {i : Unit} (hne : wakeupCv.thread a ≠ some i) : ∀ ok, a ≠ .thread ok := by
  rintro ok rfl
  exact hne rfl

/-- **The wait fits the session**: its condition becomes true by a step that is followed by a
`notify_all`. -/
theorem wakeupCv_fits {guard : State → Action → Prop} : wakeupCv.Fits session guard where
  keeps s a t i _ _ hstep hne hwaits := by
    have hsame : t.thread = s.thread := step_thread hstep (thread_ne hne)
    show decide (t.thread = .wait) = true
    rw [hsame]
    exact hwaits
  rises s a t i _ _ hstep hne hfalse htrue := by
    obtain ⟨hclear, hrun⟩ := Bool.or_eq_false_iff.mp hfalse
    rcases Bool.or_eq_true_iff.mp htrue with hfired | hstop
    · obtain ⟨x, rfl, hpc⟩ := (step_move hstep).fires hclear hfired
      have hcopied : (s.shared.conn x).callback = some (.fireCall true) := hpc
      exact decide_eq_true hcopied
    · exact step_stops hstep (thread_ne hne) hrun hstop

/-! ## What `main` does while the thread sleeps -/

/-- Behind the reset of the connection in `main`'s `close`. -/
def MainPc.emptied : MainPc → Bool
  | .closing (.reset .configuration _) | .closing (.reset .registration _) | .closing .unlock |
    .joining | .done => true
  | _ => false

/-- No connection has got lost, and none will by a write of `main`. -/
structure Calm (s : State) : Prop where
  stray : ∀ x, ¬s.view.Stray x
  matched : ∀ old, s.main.connOp = .reset (.write old) → old = s.shared.held .connection
  emptied : s.main.emptied = true → s.shared.held .connection = none

/-- Before the shutdown a session is calm. -/
theorem calm_of_running (h : session.Reach Blocks s) (hrun : s.shared.gStop = false) : Calm s := by
  obtain ⟨hlock, -⟩ := reach_slotted h
  obtain ⟨-, htied⟩ := reach_tied h
  have hdown : s.main.down = false := by
    refine Bool.eq_false_iff.mpr fun hset => ?_
    cases hrun.symm.trans (hlock.stopped hset)
  have hclosing : ∀ p, s.main ≠ .closing p := by
    intro p hp
    rw [hp] at hdown
    cases hdown
  obtain ⟨hop, hcloses⟩ := MainPc.outside hclosing
  refine ⟨fun x hx => ?_, fun old hold => ?_, fun hemptied => ?_⟩
  · obtain ⟨r, hr, -⟩ := htied.parent x hx.1
    exact hcloses r (htied.stray x r hx hr)
  · cases hop.symm.trans hold
  · cases hm : s.main with
    | closing p => exact absurd hm (hclosing p)
    | joining | done => simp [hm, MainPc.down] at hdown
    | waiting | pumping | stopping | storeStop => simp [hm, MainPc.emptied] at hemptied

/-- What `main` is about to write over is what the pointer holds, as long as the thread stays where it
is. -/
theorem Move.mainMatched {v v' : View} (h : Move v a v') (hother : ∀ ok, a ≠ .thread ok)
    (hv : ∀ old, v.mainOp = .reset (.write old) → old = v.held) :
    ∀ old, v'.mainOp = .reset (.write old) → old = v'.held := by
  have hmain : ∀ {who}, a.By who → who = .main := by
    intro who hby
    cases who with
    | main => rfl
    | thread =>
      cases a with
      | thread ok => exact absurd rfl (hother ok)
      | _ => cases hby
  cases h with
  | read who hby =>
    obtain rfl := hmain hby
    intro old heq
    cases heq
    rfl
  | writeNull who hby | write who hby | call who hby | drain who hby | beginReset who hby =>
    obtain rfl := hmain hby
    intro old heq
    cases heq
  | lock who hby | unlock who hby =>
    obtain rfl := hmain hby
    exact hv
  | stay | signal | shutdown | connected | shutdownEvent | connectedLock | copy | noCopy | fire | noFire =>
    exact hv
  | _ => exact absurd rfl (hother _)

/-- Behind the reset of the connection in its `close`, `main` leaves the pointer empty. -/
theorem mainStep_emptied {sh : Shared} {m : MainPc} {ok : Bool} (hslot : s.view.Slotted)
    (h : mainStep s ok = some (sh, m)) (hs : s.main.emptied = true → s.shared.held .connection = none)
    (hm : m.emptied = true) : sh.held .connection = none := by
  rcases mainStep_cases h with ⟨p, q, hp, hclose, rfl⟩ | ⟨hsame, hne, -⟩
  · rw [hp] at hs
    cases p with
    | lock =>
      simp only [closeStep] at hclose
      split at hclose <;> cases hclose
      cases hm
    | test =>
      cases hclose
      revert hm
      split <;> (intro hm; cases hm)
    | shutdown =>
      cases hclose
      cases hm
    | unlock =>
      cases hclose
      exact hs rfl
    | reset kind p =>
      obtain ⟨q, hassign, rfl⟩ := closeStep_reset hclose
      cases kind with
      | connection =>
        rcases assignStep_cases hassign with ⟨rfl, rfl, rfl⟩ | ⟨old, rfl, rfl, rfl⟩ |
          ⟨old, rfl, rfl, rfl⟩ | ⟨old, rfl, rfl, rfl, -⟩
        · cases hm
        · show Function.update s.shared.held .connection none .connection = none
          rw [Function.update_self]
        · cases hm
        · have hop : s.view.op .main = .reset (.drain old) := by
            show s.main.connOp = _
            rw [hp]
            rfl
          exact (hslot.resetting .main _ hop).1
      | configuration | registration =>
        have hview := assignStep_other (by simp) hassign s.thread s.main
        exact (congrArg (fun v : View => v.held) hview).trans (hs rfl)
  · rw [hsame.held]
    apply hs
    obtain ⟨sh₀, t, r, k, m₀⟩ := s
    cases m₀ with
    | closing p => exact absurd rfl (hne p)
    | joining => rfl
    | waiting =>
      cases h
      revert hm
      split <;> (intro hm; cases hm)
    | pumping | stopping =>
      simp only [mainStep] at h
      split at h <;> cases h
      cases hm
    | storeStop =>
      cases h
      cases hm
    | done => cases h

/-- **A session stays calm as long as its thread stays where it is.** -/
theorem Calm.step (hs : Calm s) (hslot : s.view.Slotted) (hmatched : s.view.ThreadMatched)
    (hother : ∀ ok, a ≠ .thread ok) (h : s.step a = some s') : Calm s' := by
  refine ⟨fun x hx => ?_, (step_move h).mainMatched hother hs.matched, ?_⟩
  · rcases (step_move h).stray hslot hmatched hx with hstray | ⟨-, hwrite, hheld⟩
    · exact hs.stray x hstray
    · cases (hs.matched _ hwrite).trans hheld
  · cases a with
    | thread ok => exact absurd rfl (hother ok)
    | main ok =>
      obtain ⟨⟨sh, m⟩, hmain, rfl⟩ := Option.map_eq_some_iff.mp h
      exact mainStep_emptied hslot hmain hs.emptied
    | router =>
      obtain ⟨p, -, rfl⟩ := Option.map_eq_some_iff.mp h
      exact hs.emptied
    | kj ok =>
      obtain ⟨⟨sh, k⟩, hkj, rfl⟩ := Option.map_eq_some_iff.mp h
      exact fun hm => (congrFun (kjStep_same hkj).held _).trans (hs.emptied hm)
    | event x e =>
      obtain ⟨sh, hdeliver, rfl⟩ := Option.map_eq_some_iff.mp h
      exact fun hm => (congrFun (deliver_same hdeliver).1.held _).trans (hs.emptied hm)
    | callback x =>
      obtain ⟨sh, hcallback, rfl⟩ := Option.map_eq_some_iff.mp h
      exact fun hm => (congrFun (callbackStep_same hcallback).1.held _).trans (hs.emptied hm)
    | signal =>
      cases h
      exact hs.emptied

/-- **Closing the client of a thread that waits leaves no connection open**: when `main` waits for the
registration, the connections of a calm session are closed. -/
theorem Calm.closed (hs : Calm s) (hwait : s.thread = .wait) {r : Handle}
    (hm : s.main = .closing (.reset .registration (.drain r))) (x : Handle) : ¬s.view.Open x := by
  intro hopen
  refine hs.stray x ⟨hopen, ?_, ?_⟩
  · have hheld : s.shared.held .connection = none := by
      apply hs.emptied
      rw [hm]
      rfl
    intro hx
    cases hheld.symm.trans hx
  · have hthread : s.thread.connOp = .none := by
      rw [hwait]
      rfl
    have hmain : s.main.connOp = .none := by
      rw [hm]
      rfl
    intro who
    cases who with
    | thread =>
      show ¬s.thread.connOp.Owns x
      simp [hthread, ConnOp.Owns]
    | main =>
      show ¬s.main.connOp.Owns x
      simp [hmain, ConnOp.Owns]

end Cfd.Tunnel.Session
