import Cfd.Main.Teardown
import Cfd.Tunnel.Redial

/-!
# Every client is dialled again

What the connection threads of `src/main.cpp` are for, as long as the process is not told to stop: a client
that is not connected gets connected. For any number of clients and whatever becomes of the calls,
`reconnects` says of each of them that its thread takes at most 64 steps from one call of `connect` to the
next, beside those of its wait; and that as long as `g_stop` is not set, the parties that serve the client
can all be waiting, at once, only if its connection is up, or its wakeup is lost: the connection went down
between the test of the wait and the block.

So no order of the steps of the other clients, of `main`, or of msquic strands a client in the midst of
its reconnect loop, but the one that `Cfd.Main.Wakeup` is about.
-/

set_option autoImplicit false

namespace Cfd.Main.Process

open Cfd.Base Cfd.Tunnel
open CondVar (lift)
open Session (Handle)

variable {n : Nat} {s s' : State n}

/-! ## From one `connect` to the next -/

/-- A step of the connection thread of this client. -/
def ofThread (i : Fin n) : State n × Action n → Bool
  | (_, .thread j _) => j = i
  | _ => false

/-- The step in which that thread calls `connect`. -/
def dials (i : Fin n) : State n × Action n → Bool
  | (s, .thread j _) => j = i && (s.clients i).thread.dials
  | _ => false

/-- A step brings the thread of a client nearer to its next `connect`, or is none of its steps, or is that
call. -/
theorem Moves.due {a : Action n} (h : Moves s a s') (i : Fin n) :
    (s'.clients i).thread.due + (if ofThread i (s, a) then 1 else 0) ≤
      (s.clients i).thread.due + if dials i (s, a) then 64 else 0 := by
  have hsame : ∀ {s' : State n}, (s'.clients i).thread = (s.clients i).thread →
      (s'.clients i).thread.due ≤ (s.clients i).thread.due := fun heq => heq ▸ Nat.le_refl _
  cases h with
  | @thread j ok sh t _ h =>
    by_cases hij : j = i
    · subst hij
      have hdue := Session.threadStep_due h
      have hpc : (({ s.setClient j { s.clients j with shared := sh, thread := t } with
          queue := if (s.clients j).thread = .post then s.queue ++ [j] else s.queue } : State n).clients
            j).thread = t := by
        show ((s.setClient j _).clients j).thread = t
        rw [clients_setClient, if_pos rfl]
      rw [hpc]
      simpa [ofThread, dials] using hdue
    · simp only [ofThread, dials, hij, decide_false, Bool.false_and, if_false,
        Bool.false_eq_true]
      refine hsame ?_
      show ((s.setClient j _).clients i).thread = _
      rw [clients_setClient, if_neg (Ne.symm hij)]
  | close | take | serve | event | callback | datagram | decode | inject =>
    exact hsame (setClient_same Client.thread s (by rfl) i)
  | drain =>
    refine hsame ?_
    show (ite _ _ _ : Client).thread = _
    split <;> rfl
  | _ => exact hsame rfl

/-! ## Where a client stands still -/

/-- The parties that serve a client: its thread, the callbacks of its connections, and the registration
thread. -/
def Action.serves (i : Fin n) : Action n → Bool
  | .thread j _ | .callback j _ | .inbound j _ => j = i
  | .kj _ => true
  | _ => false

/-- These with the waits spelled out, whoever has `g_wakeup_mu`, and the notifiers. -/
def ServesWait (i : Fin n) : CondAction (Action n) (Fin n) → Prop
  | .step a => a.serves i = true
  | .test j => j = i
  | .block _ | .notify => True
  | .spurious _ => False

/-- None of them can move. -/
def Stands (s : CondState (State n) (Fin n)) (i : Fin n) : Prop :=
  (wakeupCv n).Still (process n) Blocks (ServesWait i) s

/-- Nothing is under way for a client, and its thread is blocked. -/
structure Resting (s : CondState (State n) (Fin n)) (i : Fin n) : Prop where
  settled : CondVar.Settled s
  blocked : s.blocked i = true
  kj : s.state.kj = .acquire
  queue : s.state.queue = []
  callback : ∀ x, ((s.state.shared i).conn x).callback = none
  inbound : ∀ x, (s.state.clients i).inbound x = none

/-- Before the shutdown the registration thread has not been told to stop. -/
theorem kjStop_of_running (h : (process n).Reach Blocks s) (hrun : s.gStop = false) (i : Fin n) :
    s.kjStop = false := by
  refine Bool.eq_false_iff.mpr fun hstop => ?_
  have hdone : (s.client i).thread = .done := (reach_wired h).stopped hstop i
  have hset : s.gStop = true :=
    Session.reach_leaving ((client_refines i).reach h) (by rw [hdone]; rfl)
  cases hrun.symm.trans hset

variable {s : CondState (State n) (Fin n)}

/-- Where nobody can move that serves a client, its thread is blocked in its wait. -/
theorem blocked_of_stands (h : (wakeable n).Reach (lift Blocks) s) (hrun : s.state.gStop = false)
    {i : Fin n} (hstands : Stands s i) (hsettled : CondVar.Settled s)
    (hidle : s.state.kj = .exited ∨ s.state.kj = .acquire ∧ s.state.queue = [] ∧ s.state.kjStop = false)
    (hcallback : ∀ x, ((s.state.shared i).conn x).callback = none)
    (hinbound : ∀ x, (s.state.clients i).inbound x = none) : s.blocked i = true := by
  have hr := CondVar.refines.reach h
  by_contra hawake
  rw [Bool.not_eq_true] at hawake
  have hstep : s.state.step (.thread i true) = none :=
    CondVar.step_none (fun j hj => by cases hj; exact hsettled.free hawake)
      (hstands (.step (.thread i true)) (decide_eq_true rfl) (blocks_thread hr i true))
  simp only [State.step, State.threadStep, not_waits hinbound, Bool.false_eq_true, if_false] at hstep
  have hup := Session.up_of_blocked ((client_refines i).reach hr) hrun hcallback
    (not_await_of_idle hr hidle) (Option.map_eq_none_iff.mp hstep)
  -- it would find its condition false, and go on to block
  have hwaits : (wakeupCv n).waits s.state i = true := decide_eq_true hup.thread
  have hcond : (wakeupCv n).cond s.state i = false := Bool.or_eq_false_iff.mpr ⟨hup.discFired, hrun⟩
  have htest := hstands (.test i) rfl trivial
  simp [CondVar.step, hwaits, hcond, hsettled.free hawake] at htest

/-- A thread that is blocked, with nothing queued or under way for its client, leaves nobody a step. -/
theorem stands_of_resting {i : Fin n} (hrests : Resting s i) (hdown : s.state.kjStop = false) :
    Stands s i := by
  intro a hserves _
  cases a with
  | step a =>
    have hnone : s.state.step a = none → (wakeupCv n).step (process n) s (.step a) = none := by
      intro hstep
      rw [CondVar.step]
      split
      next => exact Option.map_eq_none_iff.mpr hstep
      next => rfl
    cases a with
    | thread j ok =>
      obtain rfl : j = i := of_decide_eq_true hserves
      simp [CondVar.step, wakeupCv, CondVar.free, hrests.blocked]
    | kj ok =>
      refine hnone ?_
      simp [State.step, State.kjStep, hrests.kj, hrests.queue, hdown]
    | callback j x =>
      obtain rfl : j = i := of_decide_eq_true hserves
      refine hnone ?_
      simp [State.step, Session.callbackStep, hrests.callback x]
    | inbound j x =>
      obtain rfl : j = i := of_decide_eq_true hserves
      refine hnone ?_
      simp [State.step, State.inboundStep, hrests.inbound x]
    | main | router | event | datagram | signal => cases hserves
  | test j =>
    obtain rfl : j = i := hserves
    simp [CondVar.step, CondVar.free, hrests.blocked]
  | block j => simp [CondVar.step, hrests.settled.mu]
  | notify => simp [CondVar.step, hrests.settled.pending]
  | spurious j => exact hserves.elim

/-- Where nobody who serves the client can move, its thread is blocked, and nothing is queued or under way
for it. -/
theorem resting_of_stands (h : (wakeable n).Reach (lift Blocks) s) (hrun : s.state.gStop = false) {i : Fin n}
    (hstands : Stands s i) : Resting s i := by
  have hr : (process n).Reach Blocks s.state := CondVar.refines.reach h
  have hsettled : CondVar.Settled s := CondVar.settled_of_still (fun _ => trivial) trivial hstands
  have hother : ∀ a : Action n, a.serves i = true → (∀ i ok, a ≠ .thread i ok) →
      (∀ ok, a ≠ .main ok) → s.state.step a = none := by
    intro a hserves hthread hmain
    refine CondVar.step_none (fun j hj => ?_)
      (hstands (.step a) hserves (blocks_of_not_closing hthread hmain))
    cases a with
    | thread k ok => exact absurd rfl (hthread k ok)
    | _ => cases hj
  have hidle := kj_of_none (fun j p hkj => serving_ne_idle hr hkj)
    (hother (.kj true) rfl (by simp) (by simp))
  obtain ⟨hkj, hqueue, -⟩ : s.state.kj = .acquire ∧ s.state.queue = [] ∧ s.state.kjStop = false := by
    refine hidle.resolve_left fun hexited => ?_
    cases (kjStop_of_running hr hrun i).symm.trans ((reach_wired hr).past (Or.inr hexited)).1
  have hcallback : ∀ x, ((s.state.shared i).conn x).callback = none := fun x =>
    callback_of_none (Option.map_eq_none_iff.mp
      (hother (.callback i x) (decide_eq_true rfl) (by simp) (by simp)))
  have hinbound : ∀ x, (s.state.clients i).inbound x = none := fun x =>
    inbound_of_none (hother (.inbound i x) (decide_eq_true rfl) (by simp) (by simp))
  have hblocked := blocked_of_stands h hrun hstands hsettled hidle hcallback hinbound
  exact ⟨hsettled, hblocked, hkj, hqueue, hcallback, hinbound⟩

/-- **A client stands still before the shutdown exactly when its connection is up, or its wakeup is
lost.** -/
theorem stands_iff (h : (wakeable n).Reach (lift Blocks) s) (hrun : s.state.gStop = false) (i : Fin n) :
    Stands s i ↔ Resting s i ∧ ((s.state.client i).Up ∨ (wakeupCv n).Lost s i) := by
  have hr : (process n).Reach Blocks s.state := CondVar.refines.reach h
  refine ⟨fun hstands => ?_, fun ⟨hrests, _⟩ => stands_of_resting hrests (kjStop_of_running hr hrun i)⟩
  have hrests := resting_of_stands h hrun hstands
  refine ⟨hrests, ?_⟩
  cases hfired : (s.state.shared i).discFired with
  | true =>
    exact Or.inr ⟨hrests.blocked, Bool.or_eq_true_iff.mpr (Or.inl hfired), hrests.settled.pending⟩
  | false =>
    have hwait := (calm_of_asleep h (Or.inr hrests.blocked)).1
    exact Or.inl (Session.up_of_wait ((client_refines i).reach hr) hrun hrests.callback hwait hfired)

/-- A step of the connection thread of this client, those of its wait apart. -/
def ofThreadStep (i : Fin n) : CondState (State n) (Fin n) × CondAction (Action n) (Fin n) → Bool
  | (s, .step a) => ofThread i (s.state, a)
  | _ => false

/-- The step in which that thread calls `connect`. -/
def dialsStep (i : Fin n) : CondState (State n) (Fin n) × CondAction (Action n) (Fin n) → Bool
  | (s, .step a) => dials i (s.state, a)
  | _ => false

/-- **Every client is dialled again.** From any reached state, however the run goes on, the connection
thread of a client takes at most 64 steps for each call of `connect`, and 64 before the first, those of its
wait apart. As long as `g_stop` is not set, none of the parties that serve the client can move exactly when
nothing is under way for it, its thread is blocked in its wait, and its connection is up (it is in the
pointer, has been `CONNECTED`, is not being closed, and no shutdown event of it has been delivered), or the
wakeup is lost. And no wakeup is lost in a run without a `notify_all` between a test and its block. -/
theorem reconnects (h : (wakeable n).Reach (lift Blocks) s) (i : Fin n) :
    (∀ history t, ((wakeable n).after s).Run (lift Blocks) history t →
      history.countP (ofThreadStep i) ≤ 64 * (history.countP (dialsStep i) + 1)) ∧
    (s.state.gStop = false →
      (Stands s i ↔ Resting s i ∧ ((s.state.client i).Up ∨ (wakeupCv n).Lost s i))) ∧
    ((wakeable n).Reach (fun s a => lift Blocks s a ∧ (wakeupCv n).NotEarly s a) s →
      ¬(wakeupCv n).Lost s i) := by
  refine ⟨fun history t hrun => ?_, fun hrun => stands_iff h hrun i,
    fun hearly => CondVar.not_lost_of_notEarly wakeupCv_fits hearly i⟩
  have hdue : ∀ s a s', ((wakeable n).after s).step s a = some s' →
      (s'.state.clients i).thread.due + (if ofThreadStep i (s, a) then 1 else 0) ≤
        (s.state.clients i).thread.due + if dialsStep i (s, a) then 64 else 0 := by
    intro s a s' hstep
    rcases CondVar.step_cases hstep with ⟨b, t, rfl, -, ht, rfl⟩ | ⟨j, rfl, -, -, -, rfl⟩ |
      ⟨j, rfl, -, rfl⟩ | ⟨rfl, -, rfl⟩ | ⟨j, rfl, rfl⟩
    · exact (step_moves ht).due i
    all_goals exact Nat.le_refl _
  have hcount := hrun.countP_le_mul (fun s => (s.state.clients i).thread.due) (ofThreadStep i)
    (dialsStep i) 64 hdue
  have hstart : (((wakeable n).after s).init.state.clients i).thread.due ≤ 64 :=
    Session.ThreadPc.due_le _
  omega

/-- A client is up, and its thread blocks. -/
def restSteps (i : Fin n) : List (CondAction (Action n) (Fin n)) :=
  (Session.upSteps.map (asClient i)).map .step ++ [.notify, .test i, .block i]

/-- The same, but the connection goes down before the thread blocks. -/
def missedSteps (i : Fin n) : List (CondAction (Action n) (Fin n)) :=
  (Session.upSteps.map (asClient i)).map .step ++ [.notify, .test i] ++
    ([.event i 0 .shutdownInitiatedByPeer, .callback i 0, .callback i 0] : List (Action n)).map .step ++
    [.notify, .block i]

/-- Both are reached by the second of two clients, the first not having begun. -/
theorem reconnects_second :
    (∃ s, (wakeable 2).Reach (lift Blocks) s ∧ s.state.gStop = false ∧ (s.state.client 1).Up ∧
      Stands s 1 ∧ (s.state.clients 0).thread = .install) ∧
    ∃ s, (wakeable 2).Reach (lift Blocks) s ∧ s.state.gStop = false ∧ (wakeupCv 2).Lost s 1 ∧
      Stands s 1 := by
  have hrests : ∀ {s : CondState (State 2) (Fin 2)}, (wakeable 2).Reach (lift Blocks) s →
      (s.state.shared 1).next .connection = 1 → ((s.state.shared 1).conn 0).callback = none →
      (s.state.clients 1).inbound 0 = none → s.state.kj = .acquire → s.state.queue = [] →
      CondVar.Settled s → s.blocked 1 = true → Resting s 1 := by
    intro s hs hnext hcallback hinbound hkj hqueue hsettled hblocked
    have hr := CondVar.refines.reach hs
    have honly : ∀ x, (s.state.client 1).view.Open x → x = 0 := by
      intro x hx
      have hlt : x < (s.state.shared 1).next .connection := hx.1
      exact Nat.lt_one_iff.mp (hnext ▸ hlt)
    refine ⟨hsettled, hblocked, hkj, hqueue, fun x => ?_, fun x => ?_⟩
    · by_contra hne
      obtain rfl := honly x ((Session.reach_flagged ((client_refines 1).reach hr)).running x hne)
      exact hne hcallback
    · by_contra hne
      obtain rfl := honly x (reach_callbacks hr 1 x hne)
      exact hne hinbound
  constructor
  · have hexec : ((wakeable 2).exec (lift Blocks) (wakeable 2).init (restSteps 1)).any
        (fun s => decide (s.state.gStop = false ∧ s.blocked 1 = true ∧ s.mu = none ∧ s.pending = 0 ∧
          (s.state.shared 1).discFired = false ∧ s.state.kj = .acquire ∧ s.state.queue = [] ∧
          (s.state.shared 1).next .connection = 1 ∧ ((s.state.shared 1).conn 0).callback = none ∧
          (s.state.clients 1).inbound 0 = none ∧ (s.state.clients 0).thread = .install)) = true := by
      decide
    obtain ⟨s, hs, hrun, hblocked, hmu, hpending, hfired, hkj, hqueue, hnext, hcallback, hinbound,
      hinstall⟩ := Machine.exists_reach_of_exec hexec
    have hresting := hrests hs hnext hcallback hinbound hkj hqueue ⟨hmu, hpending⟩ hblocked
    have hup := Session.up_of_wait ((client_refines 1).reach (CondVar.refines.reach hs)) hrun
      hresting.callback (calm_of_asleep hs (Or.inr hblocked)).1 hfired
    exact ⟨s, hs, hrun, hup, ((reconnects hs 1).2.1 hrun).mpr ⟨hresting, Or.inl hup⟩, hinstall⟩
  · have hexec : ((wakeable 2).exec (lift Blocks) (wakeable 2).init (missedSteps 1)).any
        (fun s => decide (s.state.gStop = false ∧ s.blocked 1 = true ∧ s.mu = none ∧ s.pending = 0 ∧
          (s.state.shared 1).discFired = true ∧ s.state.kj = .acquire ∧ s.state.queue = [] ∧
          (s.state.shared 1).next .connection = 1 ∧ ((s.state.shared 1).conn 0).callback = none ∧
          (s.state.clients 1).inbound 0 = none)) = true := by
      decide
    obtain ⟨s, hs, hrun, hblocked, hmu, hpending, hfired, hkj, hqueue, hnext, hcallback, hinbound⟩ :=
      Machine.exists_reach_of_exec hexec
    have hresting := hrests hs hnext hcallback hinbound hkj hqueue ⟨hmu, hpending⟩ hblocked
    have hlost : (wakeupCv 2).Lost s 1 :=
      ⟨hblocked, Bool.or_eq_true_iff.mpr (Or.inl hfired), hpending⟩
    exact ⟨s, hs, hrun, hlost, ((reconnects hs 1).2.1 hrun).mpr ⟨hresting, Or.inr hlost⟩⟩

end Cfd.Main.Process
