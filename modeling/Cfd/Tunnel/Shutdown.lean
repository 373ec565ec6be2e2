import Cfd.Tunnel.ThreadExit

/-!
# The steps that a shutdown has left

What becomes of the threads once `g_stop` is set. The connection thread, `main` and the registration
thread have only so many steps left (`State.todo`), whatever events msquic delivers and however many
packets the router sends. And with no callback running each of them waits in few places only
(`threadStep_none`, `mainStep_none`): for `close_mu_`, for a registration to be answered, for `disc_fired`
or `g_stop`, for the close of a registration, and `main` to join the thread.
-/

set_option autoImplicit false

namespace Cfd.Tunnel.Session

open Cfd.Base

/-! ## The steps that are left -/

/-- How many steps an assignment can take from this position. -/
def AssignPc.todo : AssignPc → Nat
  | .read => 4
  | .write _ => 3
  | .call _ => 2
  | .drain _ => 1

/-- How many steps follow the reset of a handle in `close`. -/
def HandleKind.todoClose : HandleKind → Nat
  | .connection => 9
  | .configuration => 5
  | .registration => 1

def ClosePc.todo : ClosePc → Nat
  | .lock => 16
  | .test => 15
  | .shutdown => 14
  | .reset kind p => kind.todoClose + p.todo
  | .unlock => 1

/-- How many steps follow the store of a handle in `connect`. -/
def HandleKind.todoConnect : HandleKind → Nat
  | .registration => 19
  | .configuration => 13
  | .connection => 6

def ConnectPc.todo : ConnectPc → Nat
  | .resetFlags => 27
  | .apiInit => 26
  | .openHandle kind => kind.todoConnect + 6
  | .openCall kind _ => kind.todoConnect + 5
  | .store kind _ p => kind.todoConnect + p.todo
  | .loadCredential => 13
  | .resolve => 6
  | .setParam => 5
  | .start => 4
  | .startConfig _ => 3
  | .startCall _ _ => 2
  | .handshake => 1

/-- How many steps the connection thread can take with `g_stop` set, those of the registration thread
that it causes included. -/
def ThreadPc.todo : ThreadPc → Nat
  | .done => 0
  | .close .exit p => p.todo
  | .clearHandler => 17
  | .check => 18
  | .install => 19
  | .sleep => 19
  | .recheck => 20
  | .wait => 21
  | .advertise => 22
  | .close .regFailed p => 19 + p.todo
  | .await => 36
  | .post => 44
  | .connect p => 44 + p.todo
  | .close .loopTop p => 71 + p.todo
  | .clearDisc => 88

def UsePc.todo : UsePc → Nat
  | .guardConnection => 4
  | .guardHandshake => 3
  | .fetch => 2
  | .call _ => 1

def KjPc.todo : KjPc → Nat
  | .idle => 0
  | .answer _ => 1
  | .rpc => 2
  | .registering p => 2 + p.todo

/-- A registration that is posted has all its steps before it. -/
def Future.todo : Future → Nat
  | .posted => 7
  | _ => 0

def MainPc.todo : MainPc → Nat
  | .done => 0
  | .joining => 1
  | .closing p => 1 + p.todo
  | .storeStop => 18
  | .stopping => 19
  | .pumping => 20
  | .waiting => 21

/-- The steps that are left to the three threads. -/
def State.todo (s : State) : Nat :=
  s.thread.todo + s.main.todo + s.kj.todo + s.shared.future.todo

/-- A step of one of the three threads. -/
def Action.ofThreads : Action → Bool
  | .thread _ | .main _ | .kj _ => true
  | _ => false

variable {s s' : Shared} {ok : Bool}

theorem assignStep_todo {kind : HandleKind} {new : Option Handle} {p : AssignPc} {q : Option AssignPc}
    (h : assignStep s kind new p = some (s', q)) :
    q.elim 0 AssignPc.todo + 1 ≤ p.todo ∧ s'.future = s.future ∧ s'.gStop = s.gStop := by
  rcases assignStep_cases h with ⟨rfl, rfl, rfl⟩ | ⟨old, rfl, rfl, rfl⟩ | ⟨old, rfl, rfl, rfl⟩ |
    ⟨old, rfl, rfl, rfl, -⟩
  · exact ⟨Nat.le_refl _, rfl, rfl⟩
  · refine ⟨?_, rfl, rfl⟩
    cases old with
    | none => decide
    | some old => exact Nat.le_refl _
  · exact ⟨Nat.le_refl _, rfl, rfl⟩
  · exact ⟨Nat.le_refl _, rfl, rfl⟩

theorem closeStep_todo {who : Closer} {p : ClosePc} {q : Option ClosePc}
    (h : closeStep who s p = some (s', q)) :
    q.elim 0 ClosePc.todo + 1 ≤ p.todo ∧ s'.future = s.future ∧ s'.gStop = s.gStop := by
  cases p with
  | lock =>
    simp only [closeStep] at h
    split at h
    next =>
      cases h
      exact ⟨Nat.le_refl _, rfl, rfl⟩
    next => cases h
  | test =>
    cases h
    refine ⟨?_, rfl, rfl⟩
    split <;> decide
  | shutdown =>
    cases h
    exact ⟨by decide, rfl, rfl⟩
  | reset kind p =>
    obtain ⟨q', hassign, rfl⟩ := closeStep_reset h
    obtain ⟨htodo, hfuture, hstop⟩ := assignStep_todo hassign
    refine ⟨?_, hfuture, hstop⟩
    cases q' with
    | some p' => exact Nat.add_le_add_left htodo _
    | none =>
      have hafter : kind.afterReset.todo = kind.todoClose := by cases kind <;> rfl
      have hpos : 0 + 1 ≤ p.todo := htodo
      show kind.afterReset.todo + 1 ≤ kind.todoClose + p.todo
      omega
  | unlock =>
    cases h
    exact ⟨Nat.le_refl _, rfl, rfl⟩

def ConnectNext.todo : ConnectNext → Nat
  | .goto p => p.todo
  | .returned _ => 0

theorem connectStep_todo {p : ConnectPc} {q : ConnectNext} (h : connectStep s ok p = some (s', q)) :
    q.todo + 1 ≤ p.todo ∧ s'.future = s.future ∧ s'.gStop = s.gStop := by
  cases p with
  | resetFlags | openHandle | setParam | start | startConfig =>
    cases h
    exact ⟨Nat.le_refl _, rfl, rfl⟩
  | handshake =>
    cases h
    exact ⟨Nat.le_refl _, rfl, rfl⟩
  | loadCredential | resolve =>
    cases h
    cases ok <;> exact ⟨by decide, rfl, rfl⟩
  | apiInit =>
    simp only [connectStep] at h
    split at h
    next =>
      cases h
      exact ⟨Nat.le_refl _, rfl, rfl⟩
    next =>
      split at h
      next =>
        cases h
        exact ⟨Nat.le_refl _, rfl, rfl⟩
      next =>
        cases h
        exact ⟨by decide, rfl, rfl⟩
  | openCall kind parent =>
    simp only [connectStep] at h
    split at h
    next =>
      cases h
      exact ⟨Nat.le_refl _, rfl, rfl⟩
    next =>
      cases h
      exact ⟨Nat.succ_pos _, rfl, rfl⟩
  | store kind raw p =>
    obtain ⟨q', hassign, rfl⟩ := connectStep_store h
    obtain ⟨htodo, hfuture, hstop⟩ := assignStep_todo hassign
    refine ⟨?_, hfuture, hstop⟩
    cases q' with
    | some p' => exact Nat.add_le_add_left htodo _
    | none =>
      have hafter : kind.afterStore.todo = kind.todoConnect := by cases kind <;> rfl
      have hpos : 0 + 1 ≤ p.todo := htodo
      show kind.afterStore.todo + 1 ≤ kind.todoConnect + p.todo
      omega
  | startCall x config =>
    cases x with
    | none =>
      cases h
      exact ⟨Nat.succ_pos _, rfl, rfl⟩
    | some x =>
      cases config with
      | none =>
        cases h
        exact ⟨Nat.succ_pos _, rfl, rfl⟩
      | some config =>
        simp only [connectStep] at h
        split at h
        next =>
          cases h
          exact ⟨Nat.le_refl _, rfl, rfl⟩
        next =>
          cases h
          exact ⟨Nat.succ_pos _, rfl, rfl⟩

/-- With `g_stop` set, a step of the thread is one of those it had left. -/
theorem threadStep_todo {t t' : ThreadPc} (hstop : s.gStop = true)
    (h : threadStep s ok t = some (s', t')) :
    t'.todo + s'.future.todo + 1 ≤ t.todo + s.future.todo ∧ s'.gStop = true := by
  cases t with
  | close site p =>
    rw [threadStep_close] at h
    obtain ⟨⟨s₁, q⟩, hclose, hpair⟩ := Option.map_eq_some_iff.mp h
    cases hpair
    obtain ⟨htodo, hfuture, hgStop⟩ := closeStep_todo hclose
    refine ⟨?_, hgStop.trans hstop⟩
    rw [hfuture]
    cases q with
    | some p' =>
      have hp : p'.todo + 1 ≤ p.todo := htodo
      cases site <;> simp only [Option.elim, ThreadPc.todo] <;> omega
    | none =>
      have hp : 0 + 1 ≤ p.todo := htodo
      cases site <;> simp only [Option.elim, CloseSite.after, ThreadPc.todo, ConnectPc.todo] <;> omega
  | connect p =>
    rw [threadStep_connect] at h
    obtain ⟨⟨s₁, q⟩, hconnect, hpair⟩ := Option.map_eq_some_iff.mp h
    cases hpair
    obtain ⟨htodo, hfuture, hgStop⟩ := connectStep_todo hconnect
    refine ⟨?_, hgStop.trans hstop⟩
    rw [hfuture]
    cases q with
    | goto p' =>
      have hp : p'.todo + 1 ≤ p.todo := htodo
      simp only [ConnectNext.pc, ThreadPc.todo]
      omega
    | returned ok =>
      have hp : 0 + 1 ≤ p.todo := htodo
      cases ok <;> simp only [ConnectNext.pc, ThreadPc.todo] <;> omega
  | check =>
    simp only [threadStep, hstop, if_true, Option.some.injEq, Prod.mk.injEq] at h
    obtain ⟨rfl, rfl⟩ := h
    exact ⟨by simp only [ThreadPc.todo]; omega, hstop⟩
  | await =>
    simp only [threadStep] at h
    split at h
    next hfuture =>
      cases h
      exact ⟨by simp only [ThreadPc.todo, Future.todo]; omega, hstop⟩
    next hfuture =>
      cases h
      exact ⟨by simp only [ThreadPc.todo, ClosePc.todo, Future.todo]; omega, hstop⟩
    next => cases h
  | wait =>
    simp only [threadStep] at h
    split at h
    next =>
      cases h
      exact ⟨by simp only [ThreadPc.todo]; omega, hstop⟩
    next => cases h
  | recheck =>
    cases h
    refine ⟨?_, hstop⟩
    split <;> simp only [ThreadPc.todo] <;> omega
  | post =>
    cases h
    exact ⟨by simp only [ThreadPc.todo, Future.todo]; omega, hstop⟩
  | install | clearDisc | sleep | advertise | clearHandler =>
    cases h
    exact ⟨by simp only [ThreadPc.todo, ClosePc.todo]; omega, hstop⟩
  | done => cases h

theorem mainStep_todo {s : State} {s' : Shared} {m' : MainPc} (hstop : s.shared.gStop = true)
    (h : mainStep s ok = some (s', m')) :
    m'.todo + 1 ≤ s.main.todo ∧ s'.future = s.shared.future ∧ s'.gStop = true := by
  unfold mainStep at h
  cases hm : s.main with
  | closing p =>
    simp only [hm] at h
    split at h
    next => cases h
    next s₁ p' hclose =>
      cases h
      obtain ⟨htodo, hfuture, hgStop⟩ := closeStep_todo hclose
      exact ⟨Nat.add_le_add_left htodo 1, hfuture, hgStop.trans hstop⟩
    next s₁ hclose =>
      cases h
      obtain ⟨htodo, hfuture, hgStop⟩ := closeStep_todo hclose
      exact ⟨Nat.add_le_add_left htodo 1, hfuture, hgStop.trans hstop⟩
  | waiting =>
    simp only [hm, hstop, Bool.not_true, Bool.and_false, Bool.false_eq_true, if_false,
      Option.some.injEq, Prod.mk.injEq] at h
    obtain ⟨rfl, rfl⟩ := h
    exact ⟨by decide, rfl, hstop⟩
  | pumping =>
    simp only [hm, hstop, if_true, Option.some.injEq, Prod.mk.injEq] at h
    obtain ⟨rfl, rfl⟩ := h
    exact ⟨by decide, rfl, hstop⟩
  | stopping | joining =>
    simp only [hm] at h
    split at h
    next =>
      cases h
      exact ⟨by decide, rfl, hstop⟩
    next => cases h
  | storeStop =>
    simp only [hm] at h
    cases h
    exact ⟨Nat.le_refl _, rfl, rfl⟩
  | done =>
    simp only [hm] at h
    cases h

theorem useStep_todo {p p' : UsePc} (h : useStep s p = .goto p') : p'.todo + 1 ≤ p.todo := by
  cases p with
  | guardConnection =>
    simp only [useStep] at h
    split at h
    next => cases h
    next =>
      cases h
      exact Nat.le_refl _
  | guardHandshake =>
    simp only [useStep] at h
    split at h
    next =>
      cases h
      exact Nat.le_refl _
    next => cases h
  | fetch =>
    cases h
    exact Nat.le_refl _
  | call x => cases h

theorem kjStep_todo {k k' : KjPc} (h : kjStep s ok k = some (s', k')) :
    k'.todo + s'.future.todo + 1 ≤ k.todo + s.future.todo ∧ s'.gStop = s.gStop := by
  cases k with
  | idle =>
    simp only [kjStep] at h
    split at h
    next hposted =>
      cases h
      exact ⟨by simp only [hposted, KjPc.todo, UsePc.todo, Future.todo]; omega, rfl⟩
    next => cases h
  | registering p =>
    have hpos : 0 < p.todo := by cases p <;> exact Nat.succ_pos _
    simp only [kjStep] at h
    split at h
    next p' huse =>
      have hp := useStep_todo huse
      cases h
      exact ⟨by simp only [KjPc.todo]; omega, rfl⟩
    next =>
      cases h
      exact ⟨by simp only [KjPc.todo]; omega, rfl⟩
    next =>
      cases h
      exact ⟨by simp only [KjPc.todo]; omega, rfl⟩
  | rpc =>
    cases h
    exact ⟨by simp only [KjPc.todo]; omega, rfl⟩
  | answer ok =>
    cases h
    exact ⟨by simp only [KjPc.todo, Future.todo]; omega, rfl⟩

theorem deliver_future {x : Handle} {e : ConnEvent} (h : deliver s x e = some s') :
    s'.future = s.future ∧ s'.gStop = s.gStop := by
  simp only [deliver] at h
  split at h
  next => cases h
  next =>
    split at h
    next =>
      split at h
      next =>
        cases h
        exact ⟨rfl, rfl⟩
      next => cases h
    next =>
      cases h
      exact ⟨rfl, rfl⟩

theorem callbackStep_future {x : Handle} (h : callbackStep s x = some s') :
    s'.future = s.future ∧ s'.gStop = s.gStop := by
  simp only [callbackStep] at h
  split at h
  next => cases h
  next =>
    cases h
    exact ⟨rfl, rfl⟩
  next =>
    split at h <;> cases h <;> exact ⟨rfl, rfl⟩
  next =>
    cases h
    split <;> exact ⟨rfl, rfl⟩

/-- **With `g_stop` set, a step of the three threads is one of those that were left**, and nobody else
adds to them. -/
theorem step_todo {s s' : State} {a : Action} (hstop : s.shared.gStop = true)
    (h : s.step a = some s') :
    s'.shared.gStop = true ∧ s'.todo + (if a.ofThreads then 1 else 0) ≤ s.todo := by
  cases a with
  | thread ok =>
    obtain ⟨⟨sh, t'⟩, hthread, rfl⟩ := Option.map_eq_some_iff.mp h
    obtain ⟨htodo, hgStop⟩ := threadStep_todo hstop hthread
    exact ⟨hgStop, by simp only [State.todo, Action.ofThreads, if_true]; omega⟩
  | main ok =>
    obtain ⟨⟨sh, m'⟩, hmain, rfl⟩ := Option.map_eq_some_iff.mp h
    obtain ⟨htodo, hfuture, hgStop⟩ := mainStep_todo hstop hmain
    exact ⟨hgStop, by simp only [State.todo, Action.ofThreads, if_true, hfuture]; omega⟩
  | kj ok =>
    obtain ⟨⟨sh, k'⟩, hkj, rfl⟩ := Option.map_eq_some_iff.mp h
    obtain ⟨htodo, hgStop⟩ := kjStep_todo hkj
    exact ⟨hgStop.trans hstop, by simp only [State.todo, Action.ofThreads, if_true]; omega⟩
  | router =>
    obtain ⟨p, -, rfl⟩ := Option.map_eq_some_iff.mp h
    exact ⟨hstop, Nat.le_refl _⟩
  | event x e =>
    obtain ⟨sh, hdeliver, rfl⟩ := Option.map_eq_some_iff.mp h
    obtain ⟨hfuture, hgStop⟩ := deliver_future hdeliver
    refine ⟨hgStop.trans hstop, ?_⟩
    simp only [State.todo, Action.ofThreads, hfuture, Bool.false_eq_true, if_false]
    omega
  | callback x =>
    obtain ⟨sh, hcallback, rfl⟩ := Option.map_eq_some_iff.mp h
    obtain ⟨hfuture, hgStop⟩ := callbackStep_future hcallback
    refine ⟨hgStop.trans hstop, ?_⟩
    simp only [State.todo, Action.ofThreads, hfuture, Bool.false_eq_true, if_false]
    omega
  | signal =>
    cases h
    exact ⟨rfl, Nat.le_refl _⟩

/-! ## At most so many -/

theorem AssignPc.todo_le (p : AssignPc) : p.todo ≤ 4 := by
  cases p <;> simp only [AssignPc.todo] <;> omega

theorem ClosePc.todo_le (p : ClosePc) : p.todo ≤ 16 := by
  cases p with
  | reset kind p =>
    have hp := p.todo_le
    cases kind <;> simp only [ClosePc.todo, HandleKind.todoClose] <;> omega
  | lock | test | shutdown | unlock => decide

theorem ConnectPc.todo_le (p : ConnectPc) : p.todo ≤ 27 := by
  cases p with
  | store kind raw p =>
    have hp := p.todo_le
    cases kind <;> simp only [ConnectPc.todo, HandleKind.todoConnect] <;> omega
  | openHandle kind | openCall kind =>
    cases kind <;> simp only [ConnectPc.todo, HandleKind.todoConnect] <;> omega
  | resetFlags | apiInit | loadCredential | resolve | setParam | start | startConfig | startCall |
    handshake => simp only [ConnectPc.todo]; omega

theorem State.todo_le (s : State) : s.todo ≤ 122 := by
  have hthread : s.thread.todo ≤ 88 := by
    cases s.thread with
    | close site p =>
      have hp := p.todo_le
      cases site <;> simp only [ThreadPc.todo] <;> omega
    | connect p =>
      have hp := p.todo_le
      simp only [ThreadPc.todo]
      omega
    | _ => simp only [ThreadPc.todo]; omega
  have hmain : s.main.todo ≤ 21 := by
    cases s.main with
    | closing p =>
      have hp := p.todo_le
      simp only [MainPc.todo]
      omega
    | _ => simp only [MainPc.todo]; omega
  have hkj : s.kj.todo ≤ 6 := by
    cases s.kj with
    | registering p => cases p <;> simp only [KjPc.todo, UsePc.todo] <;> omega
    | _ => simp only [KjPc.todo]; omega
  have hfuture : s.shared.future.todo ≤ 7 := by
    cases s.shared.future <;> simp only [Future.todo] <;> omega
  unfold State.todo
  omega

/-! ## Who waits for whom -/

/-- `close_mu_` is held by who is inside. -/
def View.Holder (v : View) : Prop := ∀ who, v.closeMu = some who → v.inside who = true

theorem Move.holder {v v' : View} {a : Action} (hv : v.Holder) (h : Move v a v') : v'.Holder := by
  cases h with
  | lock who =>
    intro who' heq
    cases heq
    rw [View.inside_setInside, if_pos rfl]
  | unlock who =>
    intro who' heq
    cases heq
  | _ => exact hv

/-- The registration thread has the future that the connection thread waits for. -/
structure Answering (s : State) : Prop where
  await : s.thread = .await ↔ s.shared.future ≠ .none
  taken : s.kj ≠ .idle ↔ s.shared.future = .taken

theorem threadStep_future {t t' : ThreadPc} (h : threadStep s ok t = some (s', t')) :
    (t = .post ∧ t' = .await ∧ s'.future = .posted) ∨
      (t = .await ∧ t' ≠ .await ∧ (∃ ok, s.future = .answered ok) ∧ s'.future = .none) ∨
      (t ≠ .await ∧ t' ≠ .await ∧ s'.future = s.future) := by
  cases t with
  | close site p =>
    rw [threadStep_close] at h
    obtain ⟨⟨s₁, q⟩, hclose, hpair⟩ := Option.map_eq_some_iff.mp h
    cases hpair
    obtain ⟨-, hfuture, -⟩ := closeStep_todo hclose
    refine Or.inr (Or.inr ⟨by simp, ?_, hfuture⟩)
    cases q with
    | some p' => simp
    | none => cases site <;> simp [CloseSite.after]
  | connect p =>
    rw [threadStep_connect] at h
    obtain ⟨⟨s₁, q⟩, hconnect, hpair⟩ := Option.map_eq_some_iff.mp h
    cases hpair
    obtain ⟨-, hfuture, -⟩ := connectStep_todo hconnect
    refine Or.inr (Or.inr ⟨by simp, ?_, hfuture⟩)
    cases q with
    | goto p' => simp [ConnectNext.pc]
    | returned ok => cases ok <;> simp [ConnectNext.pc]
  | post =>
    cases h
    exact Or.inl ⟨rfl, rfl, rfl⟩
  | await =>
    simp only [threadStep] at h
    split at h
    next hanswered =>
      cases h
      exact Or.inr (Or.inl ⟨rfl, by simp, ⟨_, hanswered⟩, rfl⟩)
    next hanswered =>
      cases h
      exact Or.inr (Or.inl ⟨rfl, by simp, ⟨_, hanswered⟩, rfl⟩)
    next => cases h
  | wait =>
    simp only [threadStep] at h
    split at h
    next =>
      cases h
      exact Or.inr (Or.inr ⟨by simp, by simp, rfl⟩)
    next => cases h
  | check | recheck =>
    cases h
    refine Or.inr (Or.inr ⟨by simp, ?_, rfl⟩)
    split <;> simp
  | install | clearDisc | sleep | advertise | clearHandler =>
    cases h
    exact Or.inr (Or.inr ⟨by simp, by simp, rfl⟩)
  | done => cases h

theorem mainStep_future {s : State} {s' : Shared} {m' : MainPc}
    (h : mainStep s ok = some (s', m')) : s'.future = s.shared.future := by
  unfold mainStep at h
  cases hm : s.main with
  | closing p =>
    simp only [hm] at h
    split at h
    next => cases h
    next s₁ p' hclose =>
      cases h
      exact (closeStep_todo hclose).2.1
    next s₁ hclose =>
      cases h
      exact (closeStep_todo hclose).2.1
  | waiting | storeStop =>
    simp only [hm] at h
    cases h
    rfl
  | pumping | stopping | joining =>
    simp only [hm] at h
    split at h
    next =>
      cases h
      rfl
    next => cases h
  | done =>
    simp only [hm] at h
    cases h

theorem kjStep_future {k k' : KjPc} (h : kjStep s ok k = some (s', k')) :
    (k = .idle ∧ k' ≠ .idle ∧ s.future = .posted ∧ s'.future = .taken) ∨
      (k ≠ .idle ∧ k' = .idle ∧ ∃ ok, s'.future = .answered ok) ∨
      (k ≠ .idle ∧ k' ≠ .idle ∧ s'.future = s.future) := by
  cases k with
  | idle =>
    simp only [kjStep] at h
    split at h
    next hposted =>
      cases h
      exact Or.inl ⟨rfl, by simp, hposted, rfl⟩
    next => cases h
  | registering p =>
    simp only [kjStep] at h
    split at h <;> cases h <;> exact Or.inr (Or.inr ⟨by simp, by simp, rfl⟩)
  | rpc =>
    cases h
    exact Or.inr (Or.inr ⟨by simp, by simp, rfl⟩)
  | answer ok =>
    cases h
    exact Or.inr (Or.inl ⟨by simp, rfl, ok, rfl⟩)

/-- A step that leaves the two threads and the future alone. -/
theorem Answering.same {s s' : State} (hs : Answering s) (ht : s'.thread = s.thread)
    (hk : s'.kj = s.kj) (hfuture : s'.shared.future = s.shared.future) : Answering s' where
  await := by rw [ht, hfuture, hs.await]
  taken := by rw [hk, hfuture, hs.taken]

theorem Answering.step {s s' : State} {a : Action} (hs : Answering s) (h : s.step a = some s') :
    Answering s' := by
  obtain ⟨hawait, htaken⟩ := hs
  cases a with
  | thread ok =>
    obtain ⟨⟨sh, t'⟩, hthread, rfl⟩ := Option.map_eq_some_iff.mp h
    rcases threadStep_future hthread with ⟨ht, rfl, hfuture⟩ | ⟨ht, ht', ⟨ok', hanswered⟩, hfuture⟩ |
      ⟨ht, ht', hfuture⟩
    · constructor <;> grind
    · constructor <;> grind
    · constructor <;> grind
  | main ok =>
    obtain ⟨⟨sh, m'⟩, hmain, rfl⟩ := Option.map_eq_some_iff.mp h
    exact Answering.same ⟨hawait, htaken⟩ rfl rfl (mainStep_future hmain)
  | kj ok =>
    obtain ⟨⟨sh, k'⟩, hkj, rfl⟩ := Option.map_eq_some_iff.mp h
    rcases kjStep_future hkj with ⟨hk, hk', hposted, hfuture⟩ | ⟨hk, rfl, ok', hfuture⟩ |
      ⟨hk, hk', hfuture⟩
    · constructor <;> grind
    · constructor <;> grind
    · constructor <;> grind
  | router =>
    obtain ⟨p, -, rfl⟩ := Option.map_eq_some_iff.mp h
    exact ⟨hawait, htaken⟩
  | event x e =>
    obtain ⟨sh, hdeliver, rfl⟩ := Option.map_eq_some_iff.mp h
    exact Answering.same ⟨hawait, htaken⟩ rfl rfl (deliver_future hdeliver).1
  | callback x =>
    obtain ⟨sh, hcallback, rfl⟩ := Option.map_eq_some_iff.mp h
    exact Answering.same ⟨hawait, htaken⟩ rfl rfl (callbackStep_future hcallback).1
  | signal =>
    cases h
    exact ⟨hawait, htaken⟩

theorem reach_answering {guard : State → Action → Prop} {s : State} (h : session.Reach guard s) :
    s.view.Holder ∧ Answering s := by
  have hinit : session.init.view.Holder ∧ Answering session.init := by
    refine ⟨?_, ⟨by decide, by decide⟩⟩
    intro who heq
    cases heq
  refine h.invariant (I := fun s => s.view.Holder ∧ Answering s) hinit ?_
  intro s a s' _ _ hstep hs
  exact ⟨(step_move hstep).holder hs.1, hs.2.step hstep⟩

/-! ## Where nobody can move -/

/-- With no callback running an assignment goes on. -/
theorem assignStep_ne_none (hidle : ∀ x, (s.conn x).callback = none) (kind : HandleKind)
    (new : Option Handle) (p : AssignPc) : assignStep s kind new p ≠ none := by
  cases p with
  | drain old =>
    have hdrained : ¬(kind = .connection ∧ (s.conn old).callback ≠ none) := fun hand =>
      hand.2 (hidle old)
    rw [assignStep, if_neg hdrained]
    exact Option.some_ne_none _
  | read | write | call => exact Option.some_ne_none _

/-- `close` waits for its lock only. -/
theorem closeStep_none {who : Closer} {p : ClosePc} (hidle : ∀ x, (s.conn x).callback = none)
    (h : closeStep who s p = none) : p = .lock ∧ s.closeMu ≠ none := by
  cases p with
  | lock =>
    refine ⟨rfl, ?_⟩
    intro hfree
    rw [closeStep, if_pos hfree] at h
    cases h
  | reset kind p =>
    simp only [closeStep] at h
    split at h
    next hassign => exact absurd hassign (assignStep_ne_none hidle kind none p)
    next => cases h
    next => cases h
  | test | shutdown | unlock => cases h

/-- `connect` waits for nothing. -/
theorem connectStep_ne_none (hidle : ∀ x, (s.conn x).callback = none) (p : ConnectPc) :
    connectStep s ok p ≠ none := by
  intro h
  cases p with
  | store kind raw p =>
    simp only [connectStep] at h
    split at h
    next hassign => exact absurd hassign (assignStep_ne_none hidle kind (some raw) p)
    next => cases h
    next => cases h
  | apiInit =>
    simp only [connectStep] at h
    split at h
    next => cases h
    next => split at h <;> cases h
  | openCall =>
    simp only [connectStep] at h
    split at h <;> cases h
  | startCall x config =>
    cases x with
    | none => cases h
    | some x =>
      cases config with
      | none => cases h
      | some config =>
        simp only [connectStep] at h
        split at h <;> cases h
  | resetFlags | openHandle | loadCredential | resolve | setParam | start | startConfig | handshake =>
    cases h

/-- Where the thread cannot move, with no callback running. -/
theorem threadStep_none {t : ThreadPc} (hidle : ∀ x, (s.conn x).callback = none)
    (h : threadStep s ok t = none) :
    t = .done ∨ (∃ site, t = .close site .lock ∧ s.closeMu ≠ none) ∨
      (t = .await ∧ ∀ ok, s.future ≠ .answered ok) ∨
      (t = .wait ∧ s.discFired = false ∧ s.gStop = false) := by
  cases t with
  | close site p =>
    rw [threadStep_close, Option.map_eq_none_iff] at h
    obtain ⟨rfl, hheld⟩ := closeStep_none hidle h
    exact Or.inr (Or.inl ⟨site, rfl, hheld⟩)
  | connect p =>
    rw [threadStep_connect, Option.map_eq_none_iff] at h
    exact absurd h (connectStep_ne_none hidle p)
  | await =>
    refine Or.inr (Or.inr (Or.inl ⟨rfl, ?_⟩))
    intro ok' hanswered
    cases ok' <;> simp [threadStep, hanswered] at h
  | wait =>
    refine Or.inr (Or.inr (Or.inr ⟨rfl, ?_⟩))
    simpa [threadStep] using h
  | done => exact Or.inl rfl
  | install | check | clearDisc | sleep | post | advertise | recheck | clearHandler => cases h

theorem mainStep_none {s : State} (hstop : s.shared.gStop = true) (hrouter : s.router = .idle)
    (hidle : ∀ x, (s.shared.conn x).callback = none) (h : mainStep s ok = none) :
    s.main = .done ∨ (s.main = .closing .lock ∧ s.shared.closeMu ≠ none) ∨
      (s.main = .joining ∧ s.thread ≠ .done) := by
  cases hm : s.main with
  | closing p =>
    simp only [mainStep, hm] at h
    split at h
    next hclose =>
      obtain ⟨rfl, hheld⟩ := closeStep_none hidle hclose
      exact Or.inr (Or.inl ⟨rfl, hheld⟩)
    next => cases h
    next => cases h
  | joining =>
    refine Or.inr (Or.inr ⟨rfl, ?_⟩)
    intro hdone
    simp [mainStep, hm, hdone] at h
  | done => exact Or.inl rfl
  | waiting | storeStop => simp [mainStep, hm] at h
  | pumping => simp [mainStep, hm, hstop] at h
  | stopping => simp [mainStep, hm, hrouter] at h

/-- The thread never waits for a registration. -/
theorem blocks_thread {s : State} (h : session.Reach Blocks s) (ok : Bool) : Blocks s (.thread ok) := by
  obtain ⟨-, hslot⟩ := reach_slotted h
  obtain ⟨-, htied⟩ := reach_tied h
  -- where it closes one, it has closed its connection, and has opened no other
  have hnone : ∀ r, s.registrationReturn (.thread ok) = some r → ∀ x, ¬s.view.Open x := by
    intro r hr
    simp only [State.registrationReturn] at hr
    split at hr
    next site r' ht =>
      apply htied.emptied
      rw [ht]
      rfl
    next raw r' ht =>
      apply hslot.not_open
      · show s.thread.phase = .prep
        rw [ht]
        rfl
      · show s.thread.connOp = .none
        rw [ht]
        rfl
    next => cases hr
  intro r hr x hlt hparent
  by_contra hopen
  exact hnone r hr x ⟨hlt, Bool.eq_false_iff.mpr hopen⟩

/-- Where `main` waits for a registration. -/
theorem not_blocks_main {s : State} (h : ¬Blocks s (.main ok)) :
    ∃ r x, s.main = .closing (.reset .registration (.drain r)) ∧ s.view.Open x ∧
      (s.shared.handles .connection x).parent = some r := by
  unfold Blocks at h
  simp only [not_forall] at h
  obtain ⟨r, hr, x, hlt, hparent, hopen⟩ := h
  have hmain : s.main = .closing (.reset .registration (.drain r)) := by
    simp only [State.registrationReturn] at hr
    split at hr
    next r' hm =>
      cases hr
      exact hm
    next => cases hr
  exact ⟨r, x, hmain, ⟨hlt, Bool.eq_false_iff.mpr hopen⟩, hparent⟩

end Cfd.Tunnel.Session
