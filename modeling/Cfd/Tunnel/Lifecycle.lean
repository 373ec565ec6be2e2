import Cfd.Tunnel.Session

/-!
# The life of a connection

What the session is about, without its program counters: a connection is opened only after the one
before it has been closed, and the handshake flags speak of that connection. `View` is the state of
a session as far as this goes: the pointer `connection_`, the handles and connections, what each of
the two closing threads is doing to the pointer, how far the connection thread has come in its loop,
and the flags. `Move` lists what can happen to it, and `step_move` says that a step of any party is
one of these moves, or nothing to the view.

Everything proved about the handles and the flags of a session is proved about moves.
-/

set_option autoImplicit false

namespace Cfd.Tunnel.Session

open Cfd.Base

/-! ## Positions -/

/-- What a thread is doing to `connection_`. -/
inductive ConnOp where
  | none
  | reset (p : AssignPc)
  | store (raw : Handle) (p : AssignPc)
  deriving DecidableEq

/-- How far the connection thread has come between two connections: up to the close of the old one,
between that and the store of the new one, or behind. -/
inductive Phase where
  | top
  | prep
  | late
  deriving DecidableEq

/-- How far the connection thread has come with `disc_fired` and the handshake flags. -/
inductive Stage where
  /-- The handler is not installed. -/
  | out
  | idle
  /-- About to clear `disc_fired`. -/
  | clearing
  /-- Behind that, up to the reset of the flags. -/
  | cleared
  /-- Behind that, up to the open of the connection. -/
  | opening
  /-- From the open to the handshake. -/
  | dialed
  /-- Behind the handshake, up to the wait. -/
  | up
  deriving DecidableEq

def ClosePc.connOp : ClosePc → ConnOp
  | .reset .connection p => .reset p
  | _ => .none

def ConnectPc.connOp : ConnectPc → ConnOp
  | .store .connection raw p => .store raw p
  | _ => .none

def ThreadPc.connOp : ThreadPc → ConnOp
  | .close _ p => p.connOp
  | .connect p => p.connOp
  | _ => .none

def MainPc.connOp : MainPc → ConnOp
  | .closing p => p.connOp
  | _ => .none

/-- Behind the lock of `close_mu_`. -/
def ClosePc.inside : ClosePc → Bool
  | .lock => false
  | _ => true

def ThreadPc.inside : ThreadPc → Bool
  | .close _ p => p.inside
  | _ => false

def MainPc.inside : MainPc → Bool
  | .closing p => p.inside
  | _ => false

/-- In `shutdown_all`, behind the store of `g_stop`. -/
def MainPc.down : MainPc → Bool
  | .closing _ | .joining | .done => true
  | _ => false

def ClosePc.phase : ClosePc → Phase
  | .lock | .test | .shutdown | .reset .connection _ => .top
  | _ => .prep

def ConnectPc.phase : ConnectPc → Phase
  | .store .connection _ (.call _) | .store .connection _ (.drain _) => .late
  | .resolve | .setParam | .start | .startConfig _ | .startCall _ _ | .handshake => .late
  | _ => .prep

def ThreadPc.phase : ThreadPc → Phase
  | .clearDisc => .top
  | .close .loopTop p => p.phase
  | .connect p => p.phase
  | _ => .late

def ConnectPc.stage : ConnectPc → Stage
  | .resetFlags => .cleared
  | .store .connection _ _ | .resolve | .setParam | .start | .startConfig _ | .startCall _ _ |
    .handshake => .dialed
  | _ => .opening

def ThreadPc.stage : ThreadPc → Stage
  | .install | .close .exit _ | .done => .out
  | .check | .sleep | .recheck | .close .regFailed _ | .clearHandler => .idle
  | .clearDisc => .clearing
  | .close .loopTop _ => .cleared
  | .connect p => p.stage
  | .post | .await | .advertise | .wait => .up

/-! ## The view -/

/-- The pointer `connection_` with what the two closing threads are doing to it, and the handles. -/
structure Slot where
  phase : Phase
  threadOp : ConnOp
  mainOp : ConnOp
  down : Bool
  held : Option Handle
  next : Handle
  handles : Handle → HandleRec
  mine : Option Handle

/-- The handshake flags and `disc_fired`, with what the connection thread is doing to them. -/
structure Flags where
  stage : Stage
  handshakeOk : Bool
  discNotified : Bool
  disconnectHandler : Bool
  discFired : Bool
  invoked : Nat

/-- A session as far as its connection goes. -/
structure View extends Slot, Flags where
  threadIn : Bool
  mainIn : Bool
  closeMu : Option Closer
  gStop : Bool
  conn : Handle → ConnRec

/-- The first for the thread, the second for `main`. -/
def Closer.pick {α : Type} (thread main : α) : Closer → α
  | .thread => thread
  | .main => main

/-- The view of a session, from its parts. -/
def Shared.view (s : Shared) (t : ThreadPc) (m : MainPc) : View where
  phase := t.phase
  stage := t.stage
  threadOp := t.connOp
  mainOp := m.connOp
  threadIn := t.inside
  mainIn := m.inside
  down := m.down
  closeMu := s.closeMu
  gStop := s.gStop
  held := s.held .connection
  next := s.next .connection
  handles := s.handles .connection
  conn := s.conn
  handshakeOk := s.handshakeOk
  discNotified := s.discNotified
  disconnectHandler := s.disconnectHandler
  discFired := s.discFired
  mine := s.mine
  invoked := s.invoked

/-- The view of a session. -/
def State.view (s : State) : View := s.shared.view s.thread s.main

namespace Slot

/-- A connection that has been opened and whose close has not returned. -/
def Open (v : Slot) (h : Handle) : Prop := h < v.next ∧ (v.handles h).closed = false

/-- A connection that has been opened and whose close has not been called. -/
def Live (v : Slot) (h : Handle) : Prop := v.Open h ∧ (v.handles h).closing = false

/-- What `who` is doing to the pointer. -/
def op (v : Slot) (who : Closer) : ConnOp := who.pick v.threadOp v.mainOp

end Slot

namespace View

/-- `who` holds `close_mu_`. -/
def inside (v : View) (who : Closer) : Bool := who.pick v.threadIn v.mainIn

/-- `who` goes on to this position. -/
def setOp (v : View) (who : Closer) (o : ConnOp) : View :=
  { v with threadOp := who.pick o v.threadOp, mainOp := who.pick v.mainOp o }

def setInside (v : View) (who : Closer) (b : Bool) : View :=
  { v with threadIn := who.pick b v.threadIn, mainIn := who.pick v.mainIn b }

/-- `who` is done with the pointer: at the top of the loop the thread then has no connection. -/
def finish (v : View) (who : Closer) : View :=
  { v.setOp who .none with
    phase := who.pick (if v.phase = .top then .prep else v.phase) v.phase }

def setHandle (v : View) (h : Handle) (r : HandleRec) : View :=
  { v with handles := Function.update v.handles h r }

def setConn (v : View) (h : Handle) (r : ConnRec) : View :=
  { v with conn := Function.update v.conn h r }

theorem handles_setHandle (v : View) (old : Handle) (r : HandleRec) (h : Handle) :
    (v.setHandle old r).handles h = if h = old then r else v.handles h :=
  Function.update_apply v.handles old r h

theorem conn_setConn (v : View) (x : Handle) (r : ConnRec) (h : Handle) :
    (v.setConn x r).conn h = if h = x then r else v.conn h :=
  Function.update_apply v.conn x r h

/-- The thread opens a connection, and goes on to store it. -/
def openConn (v : View) (parent : Option Handle) : View :=
  { (v.setHandle v.next { parent }).setConn v.next {} with
    next := v.next + 1
    mine := some v.next
    stage := .dialed
    threadOp := .store v.next .read }

end View

/-- The party of an action. -/
def Action.By : Closer → Action → Prop
  | .thread, .thread _ => True
  | .main, .main _ => True
  | _, _ => False

/-! ## The moves -/

/-- What an action can do to the view. -/
inductive Move (v : View) : Action → View → Prop
  /-- Nothing. -/
  | stay {a : Action} : Move v a v
  /-- The thread comes to the top of its loop, with `g_stop` not set. -/
  | top {ok : Bool} : v.stage = .idle → v.phase = .late → v.threadOp = .none → v.gStop = false →
      Move v (.thread ok) { v with stage := .clearing, phase := .top }
  /-- The thread gives an attempt up, or leaves its wait. -/
  | giveUp {ok : Bool} : v.phase ≠ .top → v.stage ≠ .out → v.threadOp = .none →
      Move v (.thread ok) { v with stage := .idle, phase := .late }
  | install {ok : Bool} : v.stage = .out →
      Move v (.thread ok) { v with stage := .idle, disconnectHandler := true }
  | clearHandler {ok : Bool} : v.stage = .idle →
      Move v (.thread ok) { v with stage := .out, disconnectHandler := false }
  | clearDisc {ok : Bool} : v.stage = .clearing →
      Move v (.thread ok) { v with stage := .cleared, discFired := false }
  | resetFlags {ok : Bool} : v.stage = .cleared → v.phase = .prep → v.threadOp = .none →
      Move v (.thread ok) { v with
        stage := .opening
        handshakeOk := false
        discNotified := false
        mine := none
        invoked := 0 }
  | lock (who : Closer) {a : Action} : a.By who → v.closeMu = none → v.op who = .none →
      (who = .main → v.down = true) →
      Move v a ({ v with closeMu := some who }.setInside who true)
  | unlock (who : Closer) {a : Action} : a.By who → v.inside who = true → v.op who = .none →
      Move v a ({ v with closeMu := none }.setInside who false)
  | beginReset (who : Closer) {a : Action} : a.By who → v.inside who = true → v.op who = .none →
      (who = .thread → v.phase ≠ .prep) → Move v a (v.setOp who (.reset .read))
  | read (who : Closer) {a : Action} : a.By who → v.op who = .reset .read →
      Move v a (v.setOp who (.reset (.write v.held)))
  | writeNull (who : Closer) {a : Action} : a.By who → v.op who = .reset (.write none) →
      Move v a ({ v with held := none }.finish who)
  | write (who : Closer) {a : Action} {old : Handle} : a.By who →
      v.op who = .reset (.write (some old)) →
      Move v a ({ v with held := none }.setOp who (.reset (.call old)))
  | call (who : Closer) {a : Action} {old : Handle} : a.By who → v.op who = .reset (.call old) →
      Move v a ((v.setHandle old { v.handles old with closing := true }).setOp who
        (.reset (.drain old)))
  | drain (who : Closer) {a : Action} {old : Handle} : a.By who → v.op who = .reset (.drain old) →
      (v.conn old).callback = none →
      Move v a ((v.setHandle old { v.handles old with closed := true }).finish who)
  | openConn {ok : Bool} {parent : Option Handle} : v.stage = .opening → v.phase = .prep →
      v.threadOp = .none → Move v (.thread ok) (v.openConn parent)
  | storeRead {ok : Bool} {raw : Handle} : v.threadOp = .store raw .read →
      Move v (.thread ok) (v.setOp .thread (.store raw (.write v.held)))
  | storeNull {ok : Bool} {raw : Handle} : v.threadOp = .store raw (.write none) →
      Move v (.thread ok) ({ v with held := some raw, phase := .late }.setOp .thread .none)
  | store {ok : Bool} {raw old : Handle} : v.threadOp = .store raw (.write (some old)) →
      Move v (.thread ok)
        ({ v with held := some raw, phase := .late }.setOp .thread (.store raw (.call old)))
  | storeCall {ok : Bool} {raw old : Handle} : v.threadOp = .store raw (.call old) →
      Move v (.thread ok) ((v.setHandle old { v.handles old with closing := true }).setOp .thread
        (.store raw (.drain old)))
  | storeDrain {ok : Bool} {raw old : Handle} : v.threadOp = .store raw (.drain old) →
      (v.conn old).callback = none →
      Move v (.thread ok) ((v.setHandle old { v.handles old with closed := true }).setOp .thread
        .none)
  | succeed {ok : Bool} : v.stage = .dialed → v.handshakeOk = true →
      Move v (.thread ok) { v with stage := .up }
  | start {ok : Bool} {h : Handle} :
      Move v (.thread ok) (v.setConn h { v.conn h with started := true })
  | signal : Move v .signal { v with gStop := true }
  | shutdown {ok : Bool} : Move v (.main ok) { v with gStop := true, down := true }
  | connected {h : Handle} : v.Open h → (v.conn h).callback = none → (v.conn h).shutDown = false →
      Move v (.event h .connected)
        (v.setConn h { v.conn h with connected := true, callback := some .connectedLock })
  | shutdownEvent {h : Handle} {e : ConnEvent} : v.Open h → (v.conn h).callback = none →
      Move v (.event h e)
        (v.setConn h { v.conn h with shutDown := true, callback := some .fireLock })
  | connectedLock {h : Handle} : (v.conn h).callback = some .connectedLock →
      Move v (.callback h)
        { v.setConn h { v.conn h with callback := none } with handshakeOk := true }
  | copy {h : Handle} : (v.conn h).callback = some .fireLock → v.handshakeOk = true →
      v.discNotified = false →
      Move v (.callback h)
        { v.setConn h { v.conn h with callback := some (.fireCall v.disconnectHandler) } with
          discNotified := true }
  | noCopy {h : Handle} : (v.conn h).callback = some .fireLock →
      (v.handshakeOk = true → v.discNotified = true) →
      Move v (.callback h) (v.setConn h { v.conn h with callback := some (.fireCall false) })
  | fire {h : Handle} : (v.conn h).callback = some (.fireCall true) →
      Move v (.callback h)
        { v.setConn h { v.conn h with callback := none, processed := true } with
          discFired := true
          invoked := v.invoked + 1 }
  | noFire {h : Handle} : (v.conn h).callback = some (.fireCall false) →
      Move v (.callback h) (v.setConn h { v.conn h with callback := none, processed := true })

/-! ## Every step is a move -/

/-- **What a step of an assignment can do.** -/
theorem assignStep_cases {s s' : Shared} {kind : HandleKind} {new : Option Handle} {p : AssignPc}
    {q : Option AssignPc} (h : assignStep s kind new p = some (s', q)) :
    (p = .read ∧ s' = s ∧ q = some (.write (s.held kind))) ∨
      (∃ old, p = .write old ∧ s' = s.write kind new ∧ q = old.map .call) ∨
      (∃ old, p = .call old ∧ q = some (.drain old) ∧
        s' = s.setHandle kind old { s.handles kind old with closing := true }) ∨
      (∃ old, p = .drain old ∧ q = none ∧
        s' = s.setHandle kind old { s.handles kind old with closed := true } ∧
        (kind = .connection → (s.conn old).callback = none)) := by
  cases p with
  | read =>
    cases h
    exact Or.inl ⟨rfl, rfl, rfl⟩
  | write old =>
    cases h
    exact Or.inr (Or.inl ⟨old, rfl, rfl, rfl⟩)
  | call old =>
    cases h
    exact Or.inr (Or.inr (Or.inl ⟨old, rfl, rfl, rfl⟩))
  | drain old =>
    simp only [assignStep] at h
    split at h
    · cases h
    next hdrained =>
      cases h
      exact Or.inr (Or.inr (Or.inr ⟨old, rfl, rfl, rfl, fun hk => by simpa [hk] using hdrained⟩))

/-- A step of an assignment of another handle is nothing to the view. -/
theorem assignStep_other {s s' : Shared} {kind : HandleKind} {new : Option Handle} {p : AssignPc}
    {q : Option AssignPc} (hkind : kind ≠ .connection) (h : assignStep s kind new p = some (s', q))
    (t : ThreadPc) (m : MainPc) : s'.view t m = s.view t m := by
  rcases assignStep_cases h with ⟨-, rfl, -⟩ | ⟨old, -, rfl, -⟩ | ⟨old, -, -, rfl⟩ |
    ⟨old, -, -, rfl, -⟩
  · rfl
  all_goals
    cases kind with
    | connection => exact absurd rfl hkind
    | registration => rfl
    | configuration => rfl

/-- A step of a reset in `close`, seen from its assignment. -/
theorem closeStep_reset {who : Closer} {s s' : Shared} {kind : HandleKind} {p : AssignPc}
    {q : Option ClosePc} (h : closeStep who s (.reset kind p) = some (s', q)) :
    ∃ q', assignStep s kind none p = some (s', q') ∧
      q = some (q'.elim kind.afterReset (.reset kind)) := by
  simp only [closeStep] at h
  split at h
  · cases h
  next s'' p' hassign =>
    cases h
    exact ⟨_, hassign, rfl⟩
  next s'' hassign =>
    cases h
    exact ⟨_, hassign, rfl⟩

theorem threadStep_close {s : Shared} {ok : Bool} {site : CloseSite} {p : ClosePc} :
    threadStep s ok (.close site p) =
      (closeStep .thread s p).map fun r => (r.1, r.2.elim site.after (.close site)) := by
  simp only [threadStep]
  cases closeStep .thread s p with
  | none => rfl
  | some r => rcases r with ⟨s', _ | p'⟩ <;> rfl

/-- A step of the thread inside `close`. -/
theorem closeStep_thread {s s' : Shared} {site : CloseSite} {p : ClosePc} {q : Option ClosePc}
    (h : closeStep .thread s p = some (s', q)) (m : MainPc) (ok : Bool) :
    Move (s.view (.close site p) m) (.thread ok)
      (s'.view (q.elim site.after (.close site)) m) := by
  cases p with
  | lock =>
    simp only [closeStep] at h
    split at h
    next hnone =>
      cases h
      cases site <;> exact Move.lock .thread trivial hnone rfl nofun
    next => cases h
  | test =>
    cases h
    split
    · cases site <;> exact Move.beginReset .thread trivial rfl rfl nofun
    · cases site <;> exact Move.stay
  | shutdown =>
    cases h
    cases site <;> exact Move.beginReset .thread trivial rfl rfl nofun
  | reset kind p =>
    obtain ⟨q', hassign, rfl⟩ := closeStep_reset h
    cases kind with
    | connection =>
      rcases assignStep_cases hassign with ⟨rfl, rfl, rfl⟩ | ⟨old, rfl, rfl, rfl⟩ |
        ⟨old, rfl, rfl, rfl⟩ | ⟨old, rfl, rfl, rfl, hdrained⟩
      · cases site <;> exact Move.read .thread trivial rfl
      · cases old with
        | none => cases site <;> exact Move.writeNull .thread trivial rfl
        | some old => cases site <;> exact Move.write .thread trivial rfl
      · cases site <;> exact Move.call .thread trivial rfl
      · cases site <;> exact Move.drain .thread trivial rfl (hdrained rfl)
    | registration =>
      rw [assignStep_other (by decide) hassign]
      cases q' <;> cases site <;> exact Move.stay
    | configuration =>
      rw [assignStep_other (by decide) hassign]
      cases q' <;> cases site <;> exact Move.stay
  | unlock =>
    cases h
    cases site <;> exact Move.unlock .thread trivial rfl rfl

/-- A step of `main` inside `close`. -/
theorem closeStep_main {s s' : Shared} {p : ClosePc} {q : Option ClosePc}
    (h : closeStep .main s p = some (s', q)) (t : ThreadPc) (ok : Bool) :
    Move (s.view t (.closing p)) (.main ok) (s'.view t (q.elim .joining .closing)) := by
  cases p with
  | lock =>
    simp only [closeStep] at h
    split at h
    next hnone =>
      cases h
      exact Move.lock .main trivial hnone rfl fun _ => rfl
    next => cases h
  | test =>
    cases h
    split
    · exact Move.beginReset .main trivial rfl rfl nofun
    · exact Move.stay
  | shutdown =>
    cases h
    exact Move.beginReset .main trivial rfl rfl nofun
  | reset kind p =>
    obtain ⟨q', hassign, rfl⟩ := closeStep_reset h
    cases kind with
    | connection =>
      rcases assignStep_cases hassign with ⟨rfl, rfl, rfl⟩ | ⟨old, rfl, rfl, rfl⟩ |
        ⟨old, rfl, rfl, rfl⟩ | ⟨old, rfl, rfl, rfl, hdrained⟩
      · exact Move.read .main trivial rfl
      · cases old with
        | none => exact Move.writeNull .main trivial rfl
        | some old => exact Move.write .main trivial rfl
      · exact Move.call .main trivial rfl
      · exact Move.drain .main trivial rfl (hdrained rfl)
    | registration =>
      rw [assignStep_other (by decide) hassign]
      cases q' <;> exact Move.stay
    | configuration =>
      rw [assignStep_other (by decide) hassign]
      cases q' <;> exact Move.stay
  | unlock =>
    cases h
    exact Move.unlock .main trivial rfl rfl

/-- Where the thread goes after a step of `connect`. -/
def ConnectNext.pc : ConnectNext → ThreadPc
  | .goto p => .connect p
  | .returned true => .post
  | .returned false => .sleep

theorem threadStep_connect {s : Shared} {ok : Bool} {p : ConnectPc} :
    threadStep s ok (.connect p) = (connectStep s ok p).map fun r => (r.1, r.2.pc) := by
  simp only [threadStep]
  cases connectStep s ok p with
  | none => rfl
  | some r => rcases r with ⟨s', p' | _ | _⟩ <;> rfl

/-- A step of a store in `connect`, seen from its assignment. -/
theorem connectStep_store {s s' : Shared} {ok : Bool} {kind : HandleKind} {raw : Handle}
    {p : AssignPc} {q : ConnectNext} (h : connectStep s ok (.store kind raw p) = some (s', q)) :
    ∃ q', assignStep s kind (some raw) p = some (s', q') ∧
      q = .goto (q'.elim kind.afterStore (.store kind raw)) := by
  simp only [connectStep] at h
  split at h
  · cases h
  next s'' p' hassign =>
    cases h
    exact ⟨_, hassign, rfl⟩
  next s'' hassign =>
    cases h
    exact ⟨_, hassign, rfl⟩

/-- A step of the thread inside `connect`. -/
theorem connectStep_thread {s s' : Shared} {p : ConnectPc} {q : ConnectNext} {ok : Bool}
    (h : connectStep s ok p = some (s', q)) (m : MainPc) :
    Move (s.view (.connect p) m) (.thread ok) (s'.view q.pc m) := by
  cases p with
  | resetFlags =>
    cases h
    exact Move.resetFlags rfl rfl rfl
  | apiInit =>
    simp only [connectStep] at h
    split at h
    · cases h
      exact Move.stay
    · split at h <;> cases h
      · exact Move.stay
      · exact Move.giveUp nofun nofun rfl
  | openHandle kind =>
    cases h
    cases kind <;> exact Move.stay
  | openCall kind parent =>
    simp only [connectStep] at h
    split at h <;> cases h
    · cases kind with
      | connection => exact Move.openConn rfl rfl rfl
      | registration => exact Move.stay
      | configuration => exact Move.stay
    · exact Move.giveUp nofun nofun rfl
  | store kind raw p =>
    obtain ⟨q', hassign, rfl⟩ := connectStep_store h
    cases kind with
    | connection =>
      rcases assignStep_cases hassign with ⟨rfl, rfl, rfl⟩ | ⟨old, rfl, rfl, rfl⟩ |
        ⟨old, rfl, rfl, rfl⟩ | ⟨old, rfl, rfl, rfl, hdrained⟩
      · exact Move.storeRead rfl
      · cases old with
        | none => exact Move.storeNull rfl
        | some old => exact Move.store rfl
      · exact Move.storeCall rfl
      · exact Move.storeDrain rfl (hdrained rfl)
    | registration =>
      rw [assignStep_other (by decide) hassign]
      cases q' <;> exact Move.stay
    | configuration =>
      rw [assignStep_other (by decide) hassign]
      cases q' <;> exact Move.stay
  | loadCredential =>
    cases h
    split
    · exact Move.stay
    · exact Move.giveUp nofun nofun rfl
  | resolve =>
    cases h
    split
    · exact Move.stay
    · exact Move.giveUp nofun nofun rfl
  | setParam =>
    cases h
    exact Move.stay
  | start =>
    cases h
    exact Move.stay
  | startConfig x =>
    cases h
    exact Move.stay
  | startCall x config =>
    cases x with
    | none =>
      cases h
      exact Move.giveUp nofun nofun rfl
    | some x =>
      cases config with
      | none =>
        cases h
        exact Move.giveUp nofun nofun rfl
      | some config =>
        simp only [connectStep] at h
        split at h <;> cases h
        · exact Move.start
        · exact Move.giveUp nofun nofun rfl
  | handshake =>
    cases h
    cases hok : s.handshakeOk with
    | true => exact Move.succeed rfl hok
    | false => exact Move.giveUp nofun nofun rfl

/-- A step of the connection thread. -/
theorem threadStep_move {s s' : Shared} {t t' : ThreadPc} {ok : Bool}
    (h : threadStep s ok t = some (s', t')) (m : MainPc) :
    Move (s.view t m) (.thread ok) (s'.view t' m) := by
  cases t with
  | install =>
    cases h
    exact Move.install rfl
  | check =>
    cases h
    cases hstop : s.gStop with
    | true => exact Move.stay
    | false => exact Move.top rfl rfl rfl hstop
  | clearDisc =>
    cases h
    exact Move.clearDisc rfl
  | close site p =>
    rw [threadStep_close] at h
    obtain ⟨⟨s'', q⟩, hclose, heq⟩ := Option.map_eq_some_iff.mp h
    cases heq
    exact closeStep_thread hclose m ok
  | connect p =>
    rw [threadStep_connect] at h
    obtain ⟨⟨s'', q⟩, hconnect, heq⟩ := Option.map_eq_some_iff.mp h
    cases heq
    exact connectStep_thread hconnect m
  | sleep =>
    cases h
    exact Move.stay
  | post =>
    cases h
    exact Move.stay
  | await =>
    simp only [threadStep] at h
    split at h
    · cases h
      exact Move.stay
    · cases h
      exact Move.giveUp nofun nofun rfl
    · cases h
  | advertise =>
    cases h
    exact Move.stay
  | wait =>
    simp only [threadStep] at h
    split at h <;> cases h
    exact Move.giveUp nofun nofun rfl
  | recheck =>
    cases h
    split <;> exact Move.stay
  | clearHandler =>
    cases h
    exact Move.clearHandler rfl
  | done => cases h

/-- A step of `main`. -/
theorem mainStep_move {s : State} {s' : Shared} {m : MainPc} {ok : Bool}
    (h : mainStep s ok = some (s', m)) :
    Move s.view (.main ok) (s'.view s.thread m) := by
  obtain ⟨sh, t, r, k, m₀⟩ := s
  cases m₀ with
  | waiting =>
    cases h
    dsimp only
    split <;> exact Move.stay
  | pumping =>
    simp only [mainStep] at h
    split at h <;> cases h
    exact Move.stay
  | stopping =>
    simp only [mainStep] at h
    split at h <;> cases h
    exact Move.stay
  | storeStop =>
    cases h
    exact Move.shutdown
  | closing p =>
    simp only [mainStep] at h
    split at h
    · cases h
    next hclose => cases h; exact closeStep_main hclose t ok
    next hclose => cases h; exact closeStep_main hclose t ok
  | joining =>
    simp only [mainStep] at h
    split at h <;> cases h
    exact Move.stay
  | done => cases h

/-- The delivery of an event. -/
theorem deliver_move {s s' : Shared} {x : Handle} {e : ConnEvent} (h : deliver s x e = some s')
    (t : ThreadPc) (m : MainPc) : Move (s.view t m) (.event x e) (s'.view t m) := by
  simp only [deliver] at h
  split at h
  · cases h
  next hopen =>
    simp only [not_or, Nat.not_le, ne_eq, Decidable.not_not] at hopen
    obtain ⟨hlt, hclosed, hidle⟩ := hopen
    have hopen' : (s.view t m).Open x := ⟨hlt, Bool.eq_false_iff.mpr hclosed⟩
    split at h
    · split at h <;> cases h
      next hready =>
        simp only [Bool.and_eq_true, Bool.not_eq_true'] at hready
        exact Move.connected hopen' hidle hready.2
    · cases h
      exact Move.shutdownEvent hopen' hidle

/-- A step of a callback. -/
theorem callbackStep_move {s s' : Shared} {x : Handle} (h : callbackStep s x = some s')
    (t : ThreadPc) (m : MainPc) : Move (s.view t m) (.callback x) (s'.view t m) := by
  simp only [callbackStep] at h
  split at h
  · cases h
  next hpc =>
    cases h
    exact Move.connectedLock hpc
  next hpc =>
    split at h
    next hfirst =>
      cases h
      simp only [Bool.and_eq_true, Bool.not_eq_true'] at hfirst
      exact Move.copy hpc hfirst.1 hfirst.2
    next hfirst =>
      cases h
      refine Move.noCopy hpc fun hok => ?_
      change s.discNotified = true
      simpa [show s.handshakeOk = true from hok] using hfirst
  next copied hpc =>
    cases copied with
    | true =>
      cases h
      exact Move.fire hpc
    | false =>
      cases h
      exact Move.noFire hpc

/-- A step of the registration thread is nothing to the view. -/
theorem kjStep_view {s s' : Shared} {k k' : KjPc} {ok : Bool} (h : kjStep s ok k = some (s', k'))
    (t : ThreadPc) (m : MainPc) : s'.view t m = s.view t m := by
  cases k with
  | idle =>
    simp only [kjStep] at h
    split at h <;> cases h
    rfl
  | registering p =>
    simp only [kjStep] at h
    split at h <;> cases h <;> rfl
  | rpc =>
    cases h
    rfl
  | answer ok =>
    cases h
    rfl

/-- **Every step is a move.** -/
theorem step_move {s s' : State} {a : Action} (h : s.step a = some s') :
    Move s.view a s'.view := by
  cases a with
  | thread ok =>
    obtain ⟨⟨sh, t⟩, hstep, rfl⟩ := Option.map_eq_some_iff.mp h
    exact threadStep_move hstep s.main
  | main ok =>
    obtain ⟨⟨sh, m⟩, hstep, rfl⟩ := Option.map_eq_some_iff.mp h
    exact mainStep_move hstep
  | router =>
    obtain ⟨p, -, rfl⟩ := Option.map_eq_some_iff.mp h
    exact Move.stay
  | kj ok =>
    obtain ⟨⟨sh, k⟩, hstep, rfl⟩ := Option.map_eq_some_iff.mp h
    have hview : sh.view s.thread s.main = s.view := kjStep_view hstep s.thread s.main
    change Move s.view (.kj ok) (sh.view s.thread s.main)
    exact hview ▸ Move.stay
  | event x e =>
    obtain ⟨sh, hstep, rfl⟩ := Option.map_eq_some_iff.mp h
    exact deliver_move hstep s.thread s.main
  | callback x =>
    obtain ⟨sh, hstep, rfl⟩ := Option.map_eq_some_iff.mp h
    exact callbackStep_move hstep s.thread s.main
  | signal =>
    cases h
    exact Move.signal

end Cfd.Tunnel.Session
