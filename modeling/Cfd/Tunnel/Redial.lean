import Cfd.Tunnel.Disconnect
import Cfd.Tunnel.Shutdown

/-!
# The reconnect loop

What keeps the loop of a connection thread in `src/main.cpp` going. Between two calls of `connect` the
thread takes a bounded number of steps (`threadStep_due`), whatever comes of the calls. And where it
cannot move, no callback of its connections runs, nobody has to answer its registration, and `g_stop` is
not set, the connection is up (`up_of_blocked`): the pointer `connection_` holds a connection that has been
`CONNECTED`, that nobody closes, and of which no shutdown event has been delivered.

The wait is one step here, which is enabled when its condition holds; `Cfd.Tunnel.WakeupCv` spells it out.
-/

set_option autoImplicit false

namespace Cfd.Tunnel.Session

open Cfd.Base

/-! ## From one `connect` to the next -/

/-- How many steps the connection thread takes at most up to its next call of `connect`, or to its
return. -/
def ThreadPc.due : ThreadPc → Nat
  | .done => 0
  | .close .exit p => p.todo
  | .clearHandler => 17
  | .connect .resetFlags => 1
  | .close .loopTop p => 1 + p.todo
  | .clearDisc => 18
  | .check => 19
  | .install | .sleep => 20
  | .recheck => 21
  | .wait => 22
  | .advertise => 23
  | .close .regFailed p => 20 + p.todo
  | .await => 37
  | .post => 38
  | .connect p => 38 + p.todo

/-- The thread calls `connect`. -/
def ThreadPc.dials (t : ThreadPc) : Bool := t = .connect .resetFlags

theorem ThreadPc.due_le (t : ThreadPc) : t.due ≤ 64 := by
  cases t with
  | close site p =>
    have hp := p.todo_le
    cases site <;> simp only [due] <;> omega
  | connect p =>
    cases p with
    | store kind _ p =>
      have hp := p.todo_le
      cases kind <;> simp only [due, ConnectPc.todo, HandleKind.todoConnect] <;> omega
    | openHandle kind | openCall kind => cases kind <;> exact Nat.le_of_ble_eq_true rfl
    | _ => exact Nat.le_of_ble_eq_true rfl
  | _ => decide

theorem due_connect_le (p : ConnectPc) : (ThreadPc.connect p).due ≤ 38 + p.todo := by
  cases p with
  | resetFlags => decide
  | _ => exact Nat.le_refl _

/-- Behind a step of `connect`. -/
theorem ConnectNext.due_le (q : ConnectNext) : q.pc.due ≤ 38 + q.todo := by
  cases q with
  | goto p => exact due_connect_le p
  | returned ok => cases ok <;> decide

variable {s s' : Shared} {ok : Bool}

/-- **A step of the thread is one of those up to its next `connect`**, except for the step in which it
calls `connect`, behind which there are at most 64 more. -/
theorem threadStep_due {t t' : ThreadPc} (h : threadStep s ok t = some (s', t')) :
    t'.due + 1 ≤ t.due + if t.dials then 64 else 0 := by
  cases t with
  | close site p =>
    rw [threadStep_close] at h
    obtain ⟨⟨sh, q⟩, hclose, heq⟩ := Option.map_eq_some_iff.mp h
    cases heq
    obtain ⟨htodo, -, -⟩ := closeStep_todo hclose
    cases q with
    | none => cases site <;> simp_all [ThreadPc.due, CloseSite.after] <;> omega
    | some p' => cases site <;> simp_all [ThreadPc.due] <;> omega
  | connect p =>
    rw [threadStep_connect] at h
    obtain ⟨⟨sh, q⟩, hconnect, heq⟩ := Option.map_eq_some_iff.mp h
    cases heq
    obtain ⟨htodo, -, -⟩ := connectStep_todo hconnect
    have hdue := q.due_le
    by_cases hp : p = .resetFlags
    · subst hp
      have hcall : (ThreadPc.connect .resetFlags).due + 64 = 38 + ConnectPc.todo .resetFlags := rfl
      rw [if_pos (by decide)]
      show q.pc.due + 1 ≤ _
      omega
    · have hpc : (ThreadPc.connect p).due = 38 + p.todo := by
        cases p with
        | resetFlags => exact absurd rfl hp
        | _ => rfl
      rw [hpc]
      show q.pc.due + 1 ≤ _
      omega
  | await =>
    simp only [threadStep] at h
    split at h <;> cases h <;> decide
  | wait =>
    simp only [threadStep] at h
    split at h <;> cases h
    decide
  | check | recheck =>
    cases h
    split <;> decide
  | install | clearDisc | sleep | post | advertise | clearHandler =>
    cases h
    decide
  | done => cases h

/-! ## What a connection thread that waits has -/

/-- The positions from which the thread only returns. -/
def ThreadPc.leaving : ThreadPc → Bool
  | .clearHandler | .close .exit _ | .done => true
  | _ => false

theorem threadStep_leaving {t t' : ThreadPc} (h : threadStep s ok t = some (s', t'))
    (hleaving : t'.leaving = true) : t.leaving = true ∨ s.gStop = true := by
  cases t with
  | close site p =>
    rw [threadStep_close] at h
    obtain ⟨⟨sh, q⟩, -, heq⟩ := Option.map_eq_some_iff.mp h
    cases heq
    cases site with
    | exit => exact Or.inl rfl
    | loopTop | regFailed => cases q <;> cases hleaving
  | connect p =>
    rw [threadStep_connect] at h
    obtain ⟨⟨sh, q⟩, -, heq⟩ := Option.map_eq_some_iff.mp h
    cases heq
    cases q with
    | goto => cases hleaving
    | returned ok => cases ok <;> cases hleaving
  | check =>
    cases h
    split at hleaving
    next hstop => exact Or.inr hstop
    next => cases hleaving
  | await | wait =>
    simp only [threadStep] at h
    split at h <;> cases h <;> cases hleaving
  | recheck =>
    cases h
    split at hleaving <;> cases hleaving
  | install | clearDisc | sleep | post | advertise =>
    cases h
    cases hleaving
  | clearHandler | done => exact Or.inl rfl

/-- Nobody clears `g_stop`. -/
theorem step_gStop {s s' : State} {a : Action} (h : s.step a = some s')
    (hstop : s.shared.gStop = true) : s'.shared.gStop = true := (step_todo hstop h).1

/-- The thread returns only with `g_stop` set. -/
theorem reach_leaving {guard : State → Action → Prop} {s : State} (h : session.Reach guard s) :
    s.thread.leaving = true → s.shared.gStop = true := by
  refine h.invariant (I := fun s => s.thread.leaving = true → s.shared.gStop = true)
    (by intro hleaving; cases hleaving) fun s a s' _ _ hstep ih hleaving => ?_
  have hbefore : s.thread.leaving = true ∨ s.shared.gStop = true := by
    cases a with
    | thread ok =>
      obtain ⟨⟨sh, t⟩, hthread, rfl⟩ := Option.map_eq_some_iff.mp hstep
      exact threadStep_leaving hthread hleaving
    | main | router | kj | event | callback =>
      obtain ⟨r, -, rfl⟩ := Option.map_eq_some_iff.mp hstep
      exact Or.inl hleaving
    | signal =>
      cases hstep
      exact Or.inl hleaving
  rcases hbefore with hleaves | hset
  · exact step_gStop hstep (ih hleaves)
  · exact step_gStop hstep hset

/-- A shutdown event that has been delivered has been processed, or is being processed. -/
structure Heard (c : ConnRec) : Prop where
  processed : c.shutDown = true → c.callback = none → c.processed = true
  connecting : c.callback = some .connectedLock → c.shutDown = false

/-- What the thread is doing to the pointer while its connection is dialled or up. -/
structure View.Placed (v : View) : Prop where
  up : v.stage = .up → v.threadOp = .none
  dialed : v.stage = .dialed → ∀ p, v.threadOp ≠ .reset p

theorem State.placed (s : State) : s.view.Placed := by
  have hplaced : ∀ t : ThreadPc, (t.stage = .up → t.connOp = .none) ∧
      (t.stage = .dialed → ∀ p, t.connOp ≠ .reset p) := by
    intro t
    cases t with
    | close site p => cases site <;> exact ⟨nofun, nofun⟩
    | connect p =>
      cases p with
      | store kind _ p => cases kind <;> exact ⟨nofun, nofun⟩
      | _ => exact ⟨nofun, nofun⟩
    | _ => exact ⟨fun _ => rfl, nofun⟩
  exact ⟨(hplaced s.thread).1, (hplaced s.thread).2⟩

/-- Before the shutdown the pointer holds the connection that the thread has stored, up to the end of its
wait. -/
def View.Standing (v : View) : Prop :=
  v.down = false → (v.stage = .up ∨ v.stage = .dialed ∧ v.threadOp = .none) →
    ∃ x, v.held = some x ∧ v.mine = some x

namespace View

variable {v v' : View}

/-- A step that leaves the pointer, and what is dialled or up. -/
theorem Standing.same (hv : v.Standing) (hdown : v'.down = v.down) (hheld : v'.held = v.held)
    (hmine : v'.mine = v.mine) (hstage : v'.stage = v.stage) (hop : v'.threadOp = v.threadOp) :
    v'.Standing := by
  intro hup hat
  rw [hheld, hmine]
  exact hv (hdown ▸ hup) (by rwa [hstage, hop] at hat)

/-- A step to where nothing is dialled or up. -/
theorem standing_of_stage (hup : v.stage ≠ .up) (hdialed : v.stage ≠ .dialed) : v.Standing := by
  rintro - (h | ⟨h, -⟩)
  · exact absurd h hup
  · exact absurd h hdialed

/-- A step to where the thread is busy with the pointer. -/
theorem Placed.standing (hv : v.Placed) (hop : v.threadOp ≠ .none) : v.Standing := by
  rintro - (hup | ⟨-, hnone⟩)
  · exact absurd (hv.up hup) hop
  · exact absurd hnone hop

/-- Before the shutdown only the thread resets the pointer, and then nothing is dialled or up. -/
theorem Placed.of_reset (hv : v.Placed) (hlock : v.Locked) {who : Closer} {p : AssignPc}
    (hop : v.op who = .reset p) (hdown : v.down = false) :
    v.stage ≠ .up ∧ v.stage ≠ .dialed := by
  cases who with
  | thread =>
    have hthread : v.threadOp = .reset p := hop
    refine ⟨fun hup => ?_, fun hdialed => hv.dialed hdialed p hthread⟩
    rw [hv.up hup] at hthread
    cases hthread
  | main =>
    have hset : v.down = true := hlock.mainDown (hlock.resetInside .main p hop)
    rw [hdown] at hset
    cases hset

end View

/-- **A move keeps the connection that stands.** -/
theorem Move.standing {v v' : View} {a : Action} (hlock : v.Locked) (hslot : v.Slotted)
    (hplaced : v.Placed) (hplaced' : v'.Placed) (hv : v.Standing) (h : Move v a v') : v'.Standing := by
  -- a step of a reset
  have hreset : ∀ {who : Closer} {p : AssignPc}, v.op who = .reset p → v'.down = v.down →
      v'.stage = v.stage → v'.Standing := by
    intro who p hop hdown hstage hup
    obtain ⟨hne, hne'⟩ := hplaced.of_reset hlock hop (hdown ▸ hup)
    exact View.standing_of_stage (hstage ▸ hne) (hstage ▸ hne') hup
  cases h with
  | top | giveUp | install | clearHandler | clearDisc | resetFlags =>
    exact View.standing_of_stage nofun nofun
  | read who _ hop | writeNull who _ hop | write who _ hop | call who _ hop | drain who _ hop =>
    refine hreset hop ?_ ?_ <;> cases who <;> rfl
  | openConn | storeRead => exact hplaced'.standing nofun
  | @storeNull _ raw hop =>
    obtain ⟨-, -, -, hlive⟩ := hslot.storing .thread raw _ hop
    exact fun _ _ => ⟨raw, rfl, hslot.mine raw hlive.1⟩
  | @store _ raw _ hop | @storeCall _ raw _ hop | @storeDrain _ raw _ hop =>
    -- there is nothing in the pointer that a store would have to close
    obtain ⟨-, hread | hwrite, -⟩ := hslot.storing .thread raw _ hop
    · cases hread
    · cases hwrite
  | succeed hstage => exact fun hdown _ => hv hdown (Or.inr ⟨hstage, hplaced'.up rfl⟩)
  | shutdown => exact fun hdown => nomatch hdown
  | lock who | unlock who => cases who <;> exact hv.same rfl rfl rfl rfl rfl
  | beginReset who =>
    cases who with
    | thread => exact hplaced'.standing nofun
    | main => exact hv.same rfl rfl rfl rfl rfl
  | _ => exact hv.same rfl rfl rfl rfl rfl

/-- **A move keeps what has been heard of the connections.** -/
theorem Move.heard {v v' : View} {a : Action} (hv : ∀ x, Heard (v.conn x)) (h : Move v a v') :
    ∀ x, Heard (v'.conn x) := by
  have hset : ∀ (y : Handle) (r : ConnRec), Heard r → ∀ x, Heard ((v.setConn y r).conn x) := by
    intro y r hr x
    rw [View.conn_setConn]
    split
    next => exact hr
    next => exact hv x
  cases h with
  | lock who | unlock who | beginReset who | read who | writeNull who | write who | call who
  | drain who => cases who <;> exact hv
  | openConn => exact hset _ _ ⟨nofun, nofun⟩
  | @start _ x => exact hset x _ ⟨(hv x).processed, (hv x).connecting⟩
  | @connected x _ _ hup => exact hset x _ ⟨nofun, fun _ => hup⟩
  | @shutdownEvent x => exact hset x _ ⟨nofun, nofun⟩
  | @connectedLock x hpc =>
    refine hset x _ ⟨fun hshut _ => ?_, nofun⟩
    cases hshut.symm.trans ((hv x).connecting hpc)
  | @copy x | @noCopy x => exact hset x _ ⟨nofun, nofun⟩
  | @fire x | @noFire x => exact hset x _ ⟨fun _ _ => rfl, nofun⟩
  | _ => exact hv

theorem standing_init : session.init.view.Standing ∧ ∀ x, Heard (session.init.shared.conn x) := by
  refine ⟨View.standing_of_stage nofun nofun, fun x => ?_⟩
  exact ⟨nofun, nofun⟩

/-- What the runs of a session keep of the connection that stands. -/
theorem reach_standing {guard : State → Action → Prop} {s : State} (h : session.Reach guard s) :
    s.view.Standing ∧ ∀ x, Heard (s.shared.conn x) := by
  refine h.invariant (I := fun s => s.view.Standing ∧ ∀ x, Heard (s.shared.conn x))
    standing_init fun s a s' hr _ hstep ih => ?_
  obtain ⟨hlock, hslot⟩ := reach_slotted hr
  exact ⟨(step_move hstep).standing hlock hslot s.placed s'.placed ih.1, (step_move hstep).heard ih.2⟩

/-- The connection of a client is up: its thread waits for a disconnect, and the connection that it waits
for is in the pointer, has been `CONNECTED`, is not being closed, and has not been shut down. -/
structure State.Up (s : State) : Prop where
  thread : s.thread = .wait
  discFired : s.shared.discFired = false
  connection : ∃ x, s.shared.held .connection = some x ∧ s.view.Live x ∧
    (s.shared.conn x).connected = true ∧ (s.shared.conn x).shutDown = false
  handshakeOk : s.shared.handshakeOk = true

/-- **A thread that waits for nothing to come has its connection up.** -/
theorem up_of_wait {guard : State → Action → Prop} {s : State} (h : session.Reach guard s)
    (hrun : s.shared.gStop = false) (hidle : ∀ x, (s.shared.conn x).callback = none)
    (hwait : s.thread = .wait) (hfired : s.shared.discFired = false) : s.Up := by
  obtain ⟨hlock, hslot⟩ := reach_slotted h
  obtain ⟨hstanding, hheard⟩ := reach_standing h
  have hflags := reach_flagged h
  have hup : s.view.stage = .up := by
    show s.thread.stage = .up
    rw [hwait]
    rfl
  have hdown : s.view.down = false := by
    refine Bool.eq_false_iff.mpr fun hset => ?_
    cases hrun.symm.trans (hlock.stopped hset)
  obtain ⟨x, hheld, hmine⟩ := hstanding hdown (Or.inl hup)
  have hok := hflags.up hup
  have htold := hflags.told x hmine
  have hconnected := htold.confirmed hok
  refine ⟨hwait, hfired, ⟨x, hheld, hslot.held x hheld, hconnected, ?_⟩, hok⟩
  refine Bool.eq_false_iff.mpr fun hshut => ?_
  -- a shutdown that has been delivered has been processed, and has set `disc_fired`
  have hprocessed := (hheard x).processed hshut (hidle x)
  have hdialed : s.view.stage.Dialed := hup ▸ trivial
  cases hfired.symm.trans (htold.fired hdialed hconnected hprocessed)

/-- **Where the thread cannot move before the shutdown**, no callback of its connections runs, and nobody
has to answer it, its connection is up. -/
theorem up_of_blocked {guard : State → Action → Prop} {s : State} (h : session.Reach guard s)
    (hrun : s.shared.gStop = false) (hidle : ∀ x, (s.shared.conn x).callback = none)
    (hanswered : (∀ ok, s.shared.future ≠ .answered ok) → s.thread ≠ .await)
    (hblocked : threadStep s.shared ok s.thread = none) : s.Up := by
  rcases threadStep_none hidle hblocked with hdone | ⟨site, hclose, hheld⟩ | ⟨hawait, hnone⟩ |
    ⟨hwait, hfired, -⟩
  · cases hrun.symm.trans (reach_leaving h (by rw [hdone]; rfl))
  · -- only `main` can hold the lock, and it takes it behind the store of `g_stop`
    exfalso
    obtain ⟨hlock, -⟩ := reach_slotted h
    obtain ⟨hholder, -⟩ := reach_answering h
    cases hmu : s.shared.closeMu with
    | none => exact hheld hmu
    | some who =>
      have hinside := hholder who hmu
      cases who with
      | thread =>
        have hin : s.thread.inside = true := hinside
        rw [hclose] at hin
        cases hin
      | main => cases hrun.symm.trans (hlock.stopped (hlock.mainDown hinside))
  · exact absurd hawait (hanswered hnone)
  · exact up_of_wait h hrun hidle hwait hfired

end Cfd.Tunnel.Session
