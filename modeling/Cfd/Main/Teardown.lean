import Cfd.Main.ProcessEnd
import Cfd.Tunnel.ShutdownEnd

/-!
# Where the process ends

What becomes of the process once `g_stop` is set, for any number of clients, with the waits on
`g_wakeup_cv` spelled out (`wakeable`). Where nobody can move `main` is done; or it waits for ever in the
close of one registration, the thread of that client waiting for it; or it waits to join a thread whose
wakeup is lost. Every other thread has returned, or has lost its wakeup, too (`teardown_ends`).

What a thread that sleeps relies on is said of one client in `Cfd.Tunnel.WakeupCv`, and holds of each of
the process.
-/

set_option autoImplicit false

namespace Cfd.Main.Process

open Cfd.Base Cfd.Tunnel
open CondVar (lift)
open Session (Handle Shared ConnEvent ClosePc session closeStep deliver)

variable {n : Nat} {s s' : State n}

/-! ## The condition variable -/

/-- The steps that are followed by `g_wakeup_cv.notify_all()`. -/
def State.wakes (s : State n) : Action n → Bool
  | .callback i h => ((s.shared i).conn h).callback = some (.fireCall true)
  | .main _ => s.main = .storeStop
  | .thread i _ => (s.clients i).thread = .advertise
  | .signal => true
  | .router | .kj _ | .event _ _ _ | .datagram _ _ _ | .inbound _ _ => false

/-- `g_wakeup_cv`, as far as the connection threads wait on it. -/
def wakeupCv (n : Nat) : CondVar (State n) (Action n) (Fin n) where
  waits s i := (s.clients i).thread = .wait
  cond s i := (s.shared i).discFired || s.gStop
  thread
    | .thread i _ => some i
    | _ => none
  notifies := State.wakes

/-- The runs of the process with the waits for a disconnect spelled out. -/
def wakeable (n : Nat) : Machine (CondState (State n) (Fin n)) (CondAction (Action n) (Fin n)) :=
  (wakeupCv n).withWaits (process n)

/-- What one client sees as a notifying step is one. -/
theorem wakes_of_seen {i : Fin n} {a : Action n} {b : Session.Action} (hb : s.seen i a = some b)
    (hwakes : (s.client i).wakes b = true) : s.wakes a = true := by
  cases a with
  | main ok =>
    simp only [State.seen] at hb
    split at hb <;> cases hb
    have hm : s.main.of i = .storeStop := of_decide_eq_true hwakes
    refine decide_eq_true ?_
    cases hmain : s.main with
    | storeStop => rfl
    | closing j rest p =>
      rw [hmain, MainPc.of] at hm
      split at hm
      next => cases hm
      next => split at hm <;> cases hm
    | joining rest =>
      rw [hmain, MainPc.of] at hm
      split at hm <;> cases hm
    | waiting | pumping | stopping | stopKj | joinKj | done =>
      rw [hmain] at hm
      cases hm
  | thread j ok | callback j x =>
    simp only [State.seen] at hb
    split at hb
    next hji =>
      cases hb
      subst hji
      exact hwakes
    next => cases hb
  | signal => rfl
  | router | kj | event =>
    simp only [State.seen] at hb
    split at hb <;> cases hb
    cases hwakes
  | datagram | inbound => cases hb

/-- A step of another is seen as a step of another. -/
theorem other_of_seen {i : Fin n} {a : Action n} {b : Session.Action} (hb : s.seen i a = some b)
    (hne : (wakeupCv n).thread a ≠ some i) : ∀ ok, b ≠ .thread ok := by
  rintro ok rfl
  cases a with
  | thread j ok' =>
    simp only [State.seen] at hb
    split at hb
    next hji => exact hne (congrArg some hji)
    next => cases hb
  | main | router | kj | event | callback =>
    simp only [State.seen] at hb
    split at hb <;> cases hb
  | signal | datagram | inbound => cases hb

/-- **The wait fits the process**, as it fits the session of each client. -/
theorem wakeupCv_fits : (wakeupCv n).Fits (process n) Blocks where
  keeps s a t i hr hblocks hstep hne hwaits := by
    cases hb : s.seen i a with
    | none =>
      have hsame := (client_refines i).stay s a t hr hblocks hstep hb
      exact (congrArg (fun c : Session.State => decide (c.thread = .wait)) hsame).trans hwaits
    | some b =>
      obtain ⟨-, hclient⟩ := (client_refines i).move s a t b hr hblocks hstep hb
      have hother := other_of_seen hb hne
      have hsame : (t.client i).thread = (s.client i).thread := Session.step_thread hclient hother
      exact (congrArg (fun p : Session.ThreadPc => decide (p = .wait)) hsame).trans hwaits
  rises s a t i hr hblocks hstep hne hfalse htrue := by
    cases hb : s.seen i a with
    | none =>
      have hsame := (client_refines i).stay s a t hr hblocks hstep hb
      have hcond : ((s.client i).shared.discFired || (s.client i).shared.gStop) = true := hsame ▸ htrue
      cases hfalse.symm.trans hcond
    | some b =>
      obtain ⟨hguard, hclient⟩ := (client_refines i).move s a t b hr hblocks hstep hb
      have hother : Session.wakeupCv.thread b ≠ some () := by
        intro heq
        cases b with
        | thread ok => exact other_of_seen hb hne ok rfl
        | _ => cases heq
      exact wakes_of_seen hb (Session.wakeupCv_fits.rises (s.client i) b (t.client i) ()
        ((client_refines i).reach hr) hguard hclient hother hfalse htrue)

/-- **A thread that sleeps leaves its session calm.** -/
theorem calm_of_asleep {s : CondState (State n) (Fin n)} (h : (wakeable n).Reach (lift Blocks) s)
    {i : Fin n} (hi : CondVar.Asleep s i) :
    (s.state.clients i).thread = .wait ∧ Session.Calm (s.state.client i) := by
  have hstart : ∀ s i, (process n).Reach Blocks s → (wakeupCv n).waits s i = true →
      (wakeupCv n).cond s i = false → Session.Calm (s.client i) := by
    intro s i hr _ hfalse
    exact Session.calm_of_running ((client_refines i).reach hr) (Bool.or_eq_false_iff.mp hfalse).2
  have hkeep : ∀ s a t i, (process n).Reach Blocks s → Blocks s a → (process n).step s a = some t →
      (wakeupCv n).thread a ≠ some i → (wakeupCv n).waits s i = true → Session.Calm (s.client i) →
        Session.Calm (t.client i) := by
    intro s a t i hr hblocks hstep hne _ hs
    cases hb : s.seen i a with
    | none =>
      rw [(client_refines i).stay s a t hr hblocks hstep hb]
      exact hs
    | some b =>
      obtain ⟨-, hclient⟩ := (client_refines i).move s a t b hr hblocks hstep hb
      have hsession := (client_refines i).reach hr
      exact hs.step (Session.reach_slotted hsession).2 (Session.reach_tied hsession).1
        (other_of_seen hb hne) hclient
  obtain ⟨hwaits, hcalm⟩ := CondVar.of_asleep (fun s i => Session.Calm (s.client i)) hstart hkeep
    wakeupCv_fits h hi
  exact ⟨of_decide_eq_true hwaits, hcalm⟩

/-! ## Where nobody can move -/

/-- The parties of the process, msquic's events and the signal apart. -/
def Action.inner : Action n → Bool
  | .event _ _ _ | .datagram _ _ _ | .signal => false
  | _ => true

/-- No party can move. -/
def Halted (s : CondState (State n) (Fin n)) : Prop :=
  (wakeupCv n).Still (process n) Blocks (CondVar.Inner fun a => a.inner = true) s

/-- No callback runs, the router thread is idle, and the registration thread has nothing to do. -/
structure Quiet (s : State n) : Prop where
  router : s.router = .idle
  kj : s.kj = .exited ∨ s.kj = .acquire ∧ s.queue = [] ∧ s.kjStop = false
  callback : ∀ i x, ((s.shared i).conn x).callback = none
  inbound : ∀ i x, (s.clients i).inbound x = none

/-- The thread of a client has returned, or its wakeup is lost. -/
def Stopped (s : CondState (State n) (Fin n)) (i : Fin n) : Prop :=
  (s.state.clients i).thread = .done ∨ (wakeupCv n).Lost s i

/-- `main` waits in the close of a registration of this client, and all other threads have stopped. -/
def HungIn (s : CondState (State n) (Fin n)) (i : Fin n) : Prop :=
  (s.state.client i).Hung ∧ ∀ j, j ≠ i → Stopped s j

/-- `main` waits to join the thread of this client, whose wakeup is lost, and all threads have stopped. -/
def JoinsLost (s : CondState (State n) (Fin n)) (i : Fin n) : Prop :=
  (∃ rest, s.state.main = .joining (i :: rest)) ∧ (wakeupCv n).Lost s i ∧ ∀ j, Stopped s j

/-- `main` is done, or waits for ever, or for a lost thread. -/
def Ended (s : CondState (State n) (Fin n)) : Prop :=
  s.state.main = .done ∨ (∃ i, HungIn s i) ∨ ∃ i, JoinsLost s i

/-- Only the two closing threads wait for a registration. -/
theorem blocks_of_not_closing {a : Action n} (hthread : ∀ i ok, a ≠ .thread i ok)
    (hmain : ∀ ok, a ≠ .main ok) : Blocks s a := by
  intro i b hb r hr
  cases a with
  | thread i ok => exact absurd rfl (hthread i ok)
  | main ok => exact absurd rfl (hmain ok)
  | router | kj | event | callback =>
    simp only [State.seen] at hb
    split at hb <;> cases hb
    cases hr
  | signal =>
    cases hb
    cases hr
  | datagram | inbound => cases hb

/-- A connection thread never waits for a registration. -/
theorem blocks_thread (h : (process n).Reach Blocks s) (i : Fin n) (ok : Bool) : Blocks s (.thread i ok) := by
  intro j b hb
  simp only [State.seen] at hb
  split at hb <;> cases hb
  exact Session.blocks_thread ((client_refines j).reach h) ok

/-- Where the registration thread cannot move. -/
theorem kj_of_none (hserving : ∀ i p, s.kj = .serving i p → p ≠ .idle) (hnone : s.kjStep true = none) :
    s.kj = .exited ∨ s.kj = .acquire ∧ s.queue = [] ∧ s.kjStop = false := by
  simp only [State.kjStep] at hnone
  cases hpc : s.kj with
  | exited => exact Or.inl rfl
  | acquire =>
    rw [hpc] at hnone
    cases hqueue : s.queue with
    | cons i rest =>
      rw [hqueue] at hnone
      cases hnone
    | nil =>
      simp only [hqueue] at hnone
      split at hnone
      next => cases hnone
      next hstop => exact Or.inr ⟨rfl, rfl, Bool.not_eq_true _ ▸ hstop⟩
  | draining =>
    rw [hpc] at hnone
    cases hnone
  | serving i p =>
    rw [hpc] at hnone
    have hkj : Session.kjStep (s.shared i) true p = none := Option.map_eq_none_iff.mp hnone
    cases p with
    | idle => exact absurd rfl (hserving i _ hpc)
    | registering p =>
      simp only [Session.kjStep] at hkj
      split at hkj <;> cases hkj
    | rpc | answer => cases hkj

/-- A callback that runs can move. -/
theorem callback_of_none {sh : Shared} {x : Handle} (hnone : Session.callbackStep sh x = none) :
    (sh.conn x).callback = none := by
  cases hpc : (sh.conn x).callback with
  | none => rfl
  | some p =>
    simp only [Session.callbackStep, hpc] at hnone
    cases p with
    | connectedLock | fireCall => cases hnone
    | fireLock =>
      simp only at hnone
      split at hnone <;> cases hnone

theorem inbound_of_none {i : Fin n} {x : Handle} (hnone : s.inboundStep i x = none) :
    (s.clients i).inbound x = none := by
  simp only [State.inboundStep] at hnone
  cases hpc : (s.clients i).inbound x with
  | none => rfl
  | some p =>
    rw [hpc] at hnone
    cases p <;> cases hnone

/-- Where nobody but the threads and `main` can move, nobody else is in the midst of something that waits
for nothing. -/
theorem quiet_of_none (hserving : ∀ i p, s.kj = .serving i p → p ≠ .idle)
    (hnone : ∀ a : Action n, a.inner = true → (∀ i ok, a ≠ .thread i ok) → (∀ ok, a ≠ .main ok) →
      s.step a = none) : Quiet s := by
  refine ⟨?_, kj_of_none hserving (hnone (.kj true) rfl (by simp) (by simp)), fun i x => ?_, fun i x => ?_⟩
  · have hrouter := hnone .router rfl (by simp) (by simp)
    cases hpc : s.router with
    | idle => rfl
    | sending i p =>
      simp only [State.step, State.routerStep, hpc] at hrouter
      split at hrouter <;> cases hrouter
  · exact callback_of_none (Option.map_eq_none_iff.mp (hnone (.callback i x) rfl (by simp) (by simp)))
  · exact inbound_of_none (hnone (.inbound i x) rfl (by simp) (by simp))

/-- With no callback running nobody waits for one. -/
theorem not_waits {c : Client} (hidle : ∀ x, c.inbound x = none) (o : Session.ConnOp) :
    c.waits o = false := by
  unfold Client.waits
  split
  next x => rw [hidle]; rfl
  next x => rw [hidle]; rfl
  next => rfl

/-- A work that is being served has a client that waits for it. -/
theorem serving_ne_idle (h : (process n).Reach Blocks s) {i : Fin n} {p : Session.KjPc}
    (hkj : s.kj = .serving i p) : p ≠ .idle := by
  obtain ⟨-, hanswering⟩ := Session.reach_answering ((client_refines i).reach h)
  have htaken : (s.client i).shared.future = .taken := ((reach_wired h).serving i p hkj).2
  have hp : (s.client i).kj = p := (of_kj hkj).trans (if_pos rfl)
  exact hp ▸ hanswering.taken.mpr htaken

/-- Where the registration thread has nothing to do, nobody waits for an answer that is not there. -/
theorem not_await_of_idle (h : (process n).Reach Blocks s) {i : Fin n}
    (hkj : s.kj = .exited ∨ s.kj = .acquire ∧ s.queue = [] ∧ s.kjStop = false)
    (hwait : ∀ ok, (s.shared i).future ≠ .answered ok) : (s.clients i).thread ≠ .await := by
  obtain ⟨-, hanswering⟩ := Session.reach_answering ((client_refines i).reach h)
  intro hawait
  have hne : (s.shared i).future ≠ .none := hanswering.await.mp hawait
  -- its work is in the queue, being served, or answered
  cases hfuture : (s.shared i).future with
  | none => exact hne hfuture
  | posted =>
    have hin := (reach_wired h).posted i hfuture
    rcases hkj with hkj | ⟨-, hqueue, -⟩
    · rw [((reach_wired h).past (Or.inr hkj)).2] at hin
      cases hin
    · rw [hqueue] at hin
      cases hin
  | taken =>
    have hbusy : s.kj.of i ≠ .idle := hanswering.taken.mpr hfuture
    rcases hkj with hkj | ⟨hkj, -⟩ <;> rw [hkj] at hbusy <;> exact hbusy rfl
  | answered ok => exact hwait ok hfuture

theorem inside_of {m : MainPc n} {i : Fin n} (h : (m.of i).inside = true) :
    ∃ rest p, m = .closing i rest p ∧ p.inside = true := by
  cases m with
  | closing j rest p =>
    by_cases hji : j = i
    · subst hji
      rw [MainPc.of, if_pos rfl] at h
      exact ⟨rest, p, rfl, h⟩
    · rw [MainPc.of, if_neg hji] at h
      split at h <;> cases h
  | joining rest =>
    rw [MainPc.of] at h
    split at h <;> cases h
  | waiting | pumping | stopping | storeStop | stopKj | joinKj | done => cases h

/-- Whoever waits for `close_mu_` outside it waits for `main`. -/
theorem main_of_locked (h : (process n).Reach Blocks s) {i : Fin n}
    (houtside : (s.clients i).thread.inside = false) (hheld : (s.shared i).closeMu ≠ none) :
    ∃ rest p, s.main = .closing i rest p ∧ p.inside = true := by
  obtain ⟨hholder, -⟩ := Session.reach_answering ((client_refines i).reach h)
  obtain ⟨who, hwho⟩ := Option.ne_none_iff_exists'.mp hheld
  have hin := hholder who hwho
  cases who with
  | thread =>
    have hthread : (s.clients i).thread.inside = true := hin
    rw [houtside] at hthread
    cases hthread
  | main => exact inside_of hin

/-- The thread of a client has returned, waits for `close_mu_`, or is blocked for good. -/
def Idle (s : CondState (State n) (Fin n)) (i : Fin n) : Prop :=
  (s.state.clients i).thread = .done ∨
    (∃ site, (s.state.clients i).thread = .close site .lock ∧ (s.state.shared i).closeMu ≠ none) ∨
    (wakeupCv n).Lost s i ∧ (s.state.clients i).thread = .wait

variable {s : CondState (State n) (Fin n)}

theorem lost_of_blocked (hstop : s.state.gStop = true) (hsettled : CondVar.Settled s) {i : Fin n}
    (hblocked : s.blocked i = true) : (wakeupCv n).Lost s i :=
  ⟨hblocked, Bool.or_eq_true_iff.mpr (Or.inr hstop), hsettled.pending⟩

/-- Where nobody can move, every thread is idle. -/
theorem idle_of_halted (h : (wakeable n).Reach (lift Blocks) s) (hstop : s.state.gStop = true)
    (hsettled : CondVar.Settled s) (hquiet : Quiet s.state) (i : Fin n)
    (hnone : s.blocked i = false → s.state.step (.thread i true) = none) : Idle s i := by
  have hr := CondVar.refines.reach h
  cases hblocked : s.blocked i with
  | true =>
    exact Or.inr (Or.inr ⟨lost_of_blocked hstop hsettled hblocked,
      (calm_of_asleep h (Or.inr hblocked)).1⟩)
  | false =>
    have hthread := hnone hblocked
    simp only [State.step, State.threadStep, not_waits (hquiet.inbound i), Bool.false_eq_true, if_false]
      at hthread
    rcases Session.threadStep_none (hquiet.callback i) (Option.map_eq_none_iff.mp hthread) with
      hdone | hclose | ⟨hawait, hwait⟩ | ⟨-, -, hrun⟩
    · exact Or.inl hdone
    · exact Or.inr (Or.inl hclose)
    · exact absurd hawait (not_await_of_idle hr hquiet.kj hwait)
    · cases hrun.symm.trans hstop

/-- A thread that is idle is outside `close_mu_`. -/
theorem Idle.outside {i : Fin n} (hi : Idle s i) : (s.state.clients i).thread.inside = false := by
  rcases hi with ht | ⟨site, ht, -⟩ | ⟨-, ht⟩ <;> rw [ht] <;> rfl

/-- A thread that is idle has stopped, unless `main` is in the close of its client. -/
theorem Idle.stopped (hr : (process n).Reach Blocks s.state) {i : Fin n} (hi : Idle s i) :
    Stopped s i ∨ ∃ rest p, s.state.main = .closing i rest p ∧ p.inside = true := by
  rcases id hi with hdone | ⟨-, -, hheld⟩ | ⟨hlost, -⟩
  · exact Or.inl (Or.inl hdone)
  · exact Or.inr (main_of_locked hr hi.outside hheld)
  · exact Or.inl (Or.inr hlost)

/-- Where nobody can move and `main` waits for no registration, it is done, or waits to join a thread. -/
theorem main_of_halted (hr : (process n).Reach Blocks s.state) (hstop : s.state.gStop = true)
    (hquiet : Quiet s.state) (hidle : ∀ i, Idle s i) (hnone : s.state.mainStep true = none) :
    s.state.main = .done ∨ ∃ i rest, s.state.main = .joining (i :: rest) ∧
      (s.state.clients i).thread ≠ .done := by
  simp only [State.mainStep] at hnone
  cases hm : s.state.main with
  | done => exact Or.inl rfl
  | waiting | storeStop | stopKj => simp [hm] at hnone
  | pumping => simp [hm, hstop] at hnone
  | stopping => simp [hm, hquiet.router] at hnone
  | closing i rest p =>
    simp only [hm, not_waits (hquiet.inbound i), Bool.false_eq_true, if_false] at hnone
    obtain ⟨rfl, hheld⟩ :=
      Session.closeStep_none (hquiet.callback i) (Option.map_eq_none_iff.mp hnone)
    obtain ⟨rest', p', hm', hin⟩ := main_of_locked hr (hidle i).outside hheld
    cases hm.symm.trans hm'
    cases hin
  | joining rest =>
    cases rest with
    | nil => simp [hm] at hnone
    | cons i rest =>
      simp only [hm] at hnone
      split at hnone
      next => cases hnone
      next hne => exact Or.inr ⟨i, rest, rfl, hne⟩
  | joinKj =>
    simp only [hm] at hnone
    split at hnone
    next => cases hnone
    next hne =>
      obtain ⟨-, -, hdown⟩ := hquiet.kj.resolve_left hne
      cases hdown.symm.trans ((reach_settled hr).stop hm)

/-- In a hang `main` is in the close of that client. -/
theorem HungIn.main {i : Fin n} (hs : HungIn s i) : ∃ rest p, s.state.main = .closing i rest p := by
  obtain ⟨_, r, _, -, hreset, -⟩ := hs.1
  have hof : s.state.main.of i = .closing (.reset .registration (.drain r)) := hreset
  obtain ⟨rest, p, hm, -⟩ := inside_of (m := s.state.main) (i := i) (by rw [hof]; rfl)
  exact ⟨rest, p, hm⟩

/-- Where `main` waits for the registration of a client. -/
theorem of_not_blocks {ok : Bool} {s : State n} (h : ¬Blocks s (.main ok)) :
    ∃ i r x, s.main.of i = .closing (.reset .registration (.drain r)) ∧ (s.client i).view.Open x ∧
      ((s.shared i).handles .connection x).parent = some r := by
  obtain ⟨i, hi⟩ := Classical.not_forall.mp h
  obtain ⟨b, hb⟩ := Classical.not_forall.mp hi
  obtain ⟨hseen, hnot⟩ := Classical.not_imp.mp hb
  have hmain : b = .main ok := by
    simp only [State.seen, Option.mem_def] at hseen
    split at hseen <;> cases hseen
    rfl
  subst hmain
  obtain ⟨r, x, hreset, hopen, hparent⟩ := Session.not_blocks_main hnot
  exact ⟨i, r, x, hreset, hopen, hparent⟩

theorem idle_of_stopped (h : (wakeable n).Reach (lift Blocks) s) {i : Fin n} (hi : Stopped s i) :
    Idle s i := by
  rcases hi with hdone | hlost
  · exact Or.inl hdone
  · exact Or.inr (Or.inr ⟨hlost, (calm_of_asleep h (Or.inr hlost.blocked)).1⟩)

/-- At the end every thread is idle. -/
theorem Ended.idle (h : (wakeable n).Reach (lift Blocks) s) (hend : Ended s) (j : Fin n) : Idle s j := by
  have hr := CondVar.refines.reach h
  rcases hend with hdone | ⟨i, hhung, hothers⟩ | ⟨i, -, -, hall⟩
  · exact Or.inl ((reach_wired hr).joined j (hdone ▸ rfl))
  · by_cases hji : j = i
    · subst hji
      obtain ⟨site, _, _, hclose, -⟩ := id hhung
      have hlock := (Session.reach_slotted ((client_refines j).reach hr)).1
      exact Or.inr (Or.inl ⟨site, hclose, hhung.held hlock⟩)
    · exact idle_of_stopped h (hothers j hji)
  · exact idle_of_stopped h (hall j)

/-- Where it ends nobody can move, the blocked threads apart. -/
theorem step_none_of_ended (h : (wakeable n).Reach (lift Blocks) s) (hquiet : Quiet s.state)
    (hend : Ended s) {a : Action n} (hinner : a.inner = true) (hblocks : Blocks s.state a)
    (hawake : ∀ i, (wakeupCv n).thread a = some i → s.blocked i = false) : s.state.step a = none := by
  have hmain : s.state.main ≠ .pumping := by
    rcases hend with hdone | ⟨i, hhung⟩ | ⟨i, ⟨rest, hm⟩, -⟩
    · simp [hdone]
    · obtain ⟨rest, p, hm⟩ := hhung.main
      simp [hm]
    · simp [hm]
  cases a with
  | thread i ok =>
    simp only [State.step, State.threadStep]
    split
    next => rfl
    next =>
      apply Option.map_eq_none_iff.mpr
      rcases hend.idle h i with hdone | ⟨site, hclose, hheld⟩ | ⟨hlost, -⟩
      · rw [hdone]
        rfl
      · rw [hclose]
        exact Session.threadStep_lock hheld site
      · cases (hawake i rfl).symm.trans hlost.blocked
  | main ok =>
    rcases hend with hdone | ⟨i, hhung⟩ | ⟨i, ⟨rest, hm⟩, hlost, -⟩
    · simp [State.step, State.mainStep, hdone]
    · obtain ⟨rest, p, hm⟩ := hhung.main
      have hseen : s.state.seen i (.main ok) = some (.main ok) := by
        simp only [State.seen, hm, MainPc.about, decide_true, if_true]
      exact absurd (hblocks i _ hseen) hhung.1.not_blocks
    · have hwait := (calm_of_asleep h (Or.inr hlost.blocked)).1
      simp [State.step, State.mainStep, hm, hwait]
  | router => simp [State.step, State.routerStep, hquiet.router, hmain]
  | kj ok =>
    rcases hquiet.kj with hkj | ⟨hkj, hqueue, hdown⟩
    · simp [State.step, State.kjStep, hkj]
    · simp [State.step, State.kjStep, hkj, hqueue, hdown]
  | callback i x => simp [State.step, Session.callbackStep, hquiet.callback i x]
  | inbound i x => simp [State.step, State.inboundStep, hquiet.inbound i x]
  | event | datagram | signal => cases hinner

/-- **Where nobody can move.** -/
theorem halted_iff (h : (wakeable n).Reach (lift Blocks) s) (hstop : s.state.gStop = true) :
    Halted s ↔ CondVar.Settled s ∧ Quiet s.state ∧ Ended s := by
  have hr : (process n).Reach Blocks s.state := CondVar.refines.reach h
  have hcond : ∀ i, (wakeupCv n).cond s.state i = true := fun i => Bool.or_eq_true_iff.mpr (Or.inr hstop)
  rw [Halted, CondVar.still_iff]
  refine and_congr_right fun hsettled => ⟨?_, fun ⟨hquiet, hend⟩ =>
    ⟨fun i _ _ => hcond i, fun _ => step_none_of_ended h hquiet hend⟩⟩
  rintro ⟨-, hnone⟩
  have hother : ∀ a : Action n, a.inner = true → (∀ i ok, a ≠ .thread i ok) → Blocks s.state a →
      s.state.step a = none := by
    intro a hinner hne hblocks
    refine hnone a hinner hblocks fun i hi => ?_
    cases a with
    | thread j ok => exact absurd rfl (hne j ok)
    | _ => cases hi
  have hquiet : Quiet s.state := quiet_of_none (fun i p hkj => serving_ne_idle hr hkj)
    fun a hinner hthread hmain => hother a hinner hthread (blocks_of_not_closing hthread hmain)
  have hidle : ∀ i, Idle s i := fun i => idle_of_halted h hstop hsettled hquiet i fun hawake =>
    hnone (.thread i true) rfl (blocks_thread hr i true) fun j hj => by cases hj; exact hawake
  refine ⟨hquiet, ?_⟩
  by_cases hblocks : Blocks s.state (.main true)
  · have hmain : s.state.mainStep true = none := hother (.main true) rfl (by simp) hblocks
    rcases main_of_halted hr hstop hquiet hidle hmain with hdone | ⟨i, rest, hm, hne⟩
    · exact Or.inl hdone
    · have hstopped : ∀ j, Stopped s j := by
        intro j
        refine ((hidle j).stopped hr).resolve_right ?_
        rintro ⟨rest', p, hm', -⟩
        cases hm.symm.trans hm'
      exact Or.inr (Or.inr ⟨i, ⟨rest, hm⟩, (hstopped i).resolve_left hne, hstopped⟩)
  · obtain ⟨i, r, x, hreset, hopen, hparent⟩ := of_not_blocks hblocks
    obtain ⟨rest, p, hm, -⟩ := inside_of (m := s.state.main) (i := i) (by rw [hreset]; rfl)
    refine Or.inr (Or.inl ⟨i, ?_, fun j hji => ?_⟩)
    · rcases hidle i with hdone | ⟨site, hclose, -⟩ | ⟨hlost, hwait⟩
      · exact absurd hopen ((gone_of_thread hr hdone).closed x)
      · exact ⟨site, r, x, hclose, hreset, hopen, hparent⟩
      · exact absurd hopen ((calm_of_asleep h (Or.inr hlost.blocked)).2.closed hwait hreset x)
    · refine ((hidle j).stopped hr).resolve_right ?_
      rintro ⟨rest', p', hm', -⟩
      cases hm.symm.trans hm'
      exact absurd rfl hji

/-- **The shutdown of all clients ends, or stops in one of two places.** From any state with `g_stop` set,
the connection threads of `n` clients, `main` and the registration thread take at most `122 * n + 10` steps
in all, those of the waits included, whatever happens between them. When nobody can move, `main` is done;
or it waits in `RegistrationClose` of one client, with `close_mu_` of it held, for a connection that is
open under the registration, and the thread of that client waits for the mutex, and then it is so for ever;
or it waits to join a thread whose wakeup is lost. The other threads have returned, or have lost their
wakeup, too. No wakeup is lost in a run without a `notify_all` between a test and its block. -/
theorem teardown_ends (h : (wakeable n).Reach (lift Blocks) s) (hstop : s.state.gStop = true) :
    (∀ history t, ((wakeable n).after s).Run (lift Blocks) history t →
      history.countP (fun x => CondVar.counts Action.ofThreads x.2) ≤ 122 * n + 10) ∧
    (Halted s ↔ CondVar.Settled s ∧ Quiet s.state ∧ Ended s) ∧
    (∀ i, (s.state.client i).Hung → ∀ t, ((wakeable n).after s).Reach (lift Blocks) t →
      (t.state.client i).Hung) ∧
    ((wakeable n).Reach (fun s a => lift Blocks s a ∧ (wakeupCv n).NotEarly s a) s →
      ∀ i, ¬(wakeupCv n).Lost s i) := by
  have hr : (process n).Reach Blocks s.state := CondVar.refines.reach h
  refine ⟨?_, halted_iff h hstop, ?_, fun hearly => CondVar.not_lost_of_notEarly wakeupCv_fits hearly⟩
  · intro history t hrun
    have hbound : ∀ (s : State n) a t, Blocks s a → (process n).step s a = some t →
        Wired s ∧ s.gStop = true →
          (Wired t ∧ t.gStop = true) ∧ t.todo + (if a.ofThreads then 1 else 0) ≤ s.todo := by
      intro s a t _ hstep hs
      have hmoves := step_moves hstep
      obtain ⟨hset, htodo⟩ := hmoves.todo hs.1 hs.2
      exact ⟨⟨hmoves.wired hs.1, hset⟩, htodo⟩
    have hle := CondVar.countP_le (c := wakeupCv n) (fun s => Wired s ∧ s.gStop = true) State.todo
      Action.ofThreads hbound (fun s i hset => Bool.or_eq_true_iff.mpr (Or.inr hset.2))
      ⟨reach_wired hr, hstop⟩ hrun
    have htodo := s.state.todo_le
    omega
  · intro i hhung t ht
    exact Session.hung_after ((client_refines i).reach hr) hhung
      (((client_refines i).after hr).reach ((CondVar.refines.after h).reach ht))

/-- The hang of one client while the thread of another returns. -/
def hangSteps (i j : Fin n) : List (CondAction (Action n) (Fin n)) :=
  (Session.hungSteps.map (asClient i) ++ List.replicate 12 (.thread j true) : List (Action n)).map .step ++
    [.notify, .notify]

/-- The wakeup of one client is lost while the thread of another returns. -/
def lostSteps (i j : Fin n) : List (CondAction (Action n) (Fin n)) :=
  (Session.upSteps.map (asClient i)).map .step ++ [.notify, .test i] ++
    ([.main true, .signal, .main false, .main false, .main false] : List (Action n)).map .step ++
    [.notify, .notify, .block i] ++
    (List.replicate 12 (.thread j true) ++ List.replicate 25 (.main false) : List (Action n)).map .step

theorem teardown_ends_stuck :
    (∃ s, (wakeable 2).Reach (lift Blocks) s ∧ HungIn s 0 ∧ Halted s ∧
      ∀ t, ((wakeable 2).after s).Reach (lift Blocks) t → (t.state.client 0).Hung) ∧
    ∃ s, (wakeable 2).Reach (lift Blocks) s ∧ JoinsLost s 0 ∧ Halted s := by
  have hquiet : ∀ {s : CondState (State 2) (Fin 2)}, (wakeable 2).Reach (lift Blocks) s →
      (s.state.clients 1).thread = .done → (s.state.shared 0).next .connection = 1 →
      ((s.state.shared 0).conn 0).callback = none → (s.state.clients 0).inbound 0 = none →
      s.state.router = .idle → (s.state.kj = .acquire ∧ s.state.queue = [] ∧ s.state.kjStop = false) →
      Quiet s.state := by
    intro s hs hdone hnext hcallback hinbound hrouter hkj
    have hr := CondVar.refines.reach hs
    have hgone : Gone s.state 1 := gone_of_thread hr hdone
    have honly : ∀ x, (s.state.client 0).view.Open x → x = 0 := by
      intro x hx
      have hlt : x < (s.state.shared 0).next .connection := hx.1
      exact Nat.lt_one_iff.mp (hnext ▸ hlt)
    refine ⟨hrouter, Or.inr hkj, Fin.forall_fin_two.mpr ⟨fun x => ?_, hgone.callback⟩,
      Fin.forall_fin_two.mpr ⟨fun x => ?_, hgone.inbound⟩⟩
    · by_contra hne
      obtain rfl := honly x ((Session.reach_flagged ((client_refines 0).reach hr)).running x hne)
      exact hne hcallback
    · by_contra hne
      obtain rfl := honly x (reach_callbacks hr 0 x hne)
      exact hne hinbound
  constructor
  · have hexec : ((wakeable 2).exec (lift Blocks) (wakeable 2).init (hangSteps 0 1)).any (fun s =>
        decide ((s.state.clients 1).thread = .done ∧
          (s.state.clients 0).thread = .close .regFailed .lock ∧
          s.state.main.of 0 = .closing (.reset .registration (.drain 0)) ∧
          (s.state.shared 0).next .connection = 1 ∧
          ((s.state.shared 0).handles .connection 0).closed = false ∧
          ((s.state.shared 0).handles .connection 0).parent = some 0 ∧
          ((s.state.shared 0).conn 0).callback = none ∧ (s.state.clients 0).inbound 0 = none ∧
          s.state.router = .idle ∧
          (s.state.kj = .acquire ∧ s.state.queue = [] ∧ s.state.kjStop = false) ∧
          s.state.gStop = true ∧ s.mu = none ∧ s.pending = 0)) = true := by decide
    obtain ⟨s, hs, hdone, hthread, hmain, hnext, hopen, hparent, hcallback, hinbound, hrouter, hkj,
      hstop, hmu, hpending⟩ := Machine.exists_reach_of_exec hexec
    have hlt : 0 < (s.state.shared 0).next .connection := by
      rw [hnext]
      exact Nat.one_pos
    have hhung : HungIn s 0 := by
      refine ⟨⟨.regFailed, 0, 0, hthread, hmain, ⟨hlt, hopen⟩, hparent⟩, fun j hj => ?_⟩
      obtain rfl : j = 1 := by omega
      exact Or.inl hdone
    obtain ⟨-, hhalted, hforever, -⟩ := teardown_ends hs hstop
    exact ⟨s, hs, hhung, hhalted.mpr ⟨⟨hmu, hpending⟩,
      hquiet hs hdone hnext hcallback hinbound hrouter hkj, Or.inr (Or.inl ⟨0, hhung⟩)⟩,
      hforever 0 hhung.1⟩
  · have hexec : ((wakeable 2).exec (lift Blocks) (wakeable 2).init (lostSteps 0 1)).any (fun s =>
        decide ((s.state.clients 1).thread = .done ∧ s.blocked 0 = true ∧
          s.state.main = .joining [0, 1] ∧
          (s.state.shared 0).next .connection = 1 ∧
          ((s.state.shared 0).conn 0).callback = none ∧ (s.state.clients 0).inbound 0 = none ∧
          s.state.router = .idle ∧
          (s.state.kj = .acquire ∧ s.state.queue = [] ∧ s.state.kjStop = false) ∧
          s.state.gStop = true ∧ s.mu = none ∧ s.pending = 0)) = true := by decide
    obtain ⟨s, hs, hdone, hblocked, hmain, hnext, hcallback, hinbound, hrouter, hkj, hstop, hmu,
      hpending⟩ := Machine.exists_reach_of_exec hexec
    have hlost : (wakeupCv 2).Lost s 0 := lost_of_blocked hstop ⟨hmu, hpending⟩ hblocked
    have hjoins : JoinsLost s 0 :=
      ⟨⟨[1], hmain⟩, hlost, Fin.forall_fin_two.mpr ⟨Or.inr hlost, Or.inl hdone⟩⟩
    obtain ⟨-, hhalted, -⟩ := teardown_ends hs hstop
    exact ⟨s, hs, hjoins, hhalted.mpr ⟨⟨hmu, hpending⟩,
      hquiet hs hdone hnext hcallback hinbound hrouter hkj, Or.inr (Or.inr ⟨0, hjoins⟩)⟩⟩

end Cfd.Main.Process
