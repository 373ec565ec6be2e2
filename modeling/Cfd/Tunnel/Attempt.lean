import Cfd.Tunnel.Slot

/-!
# One attempt

What the handshake flags and `disc_fired` say of the connection opened since the last reset of the
flags. `Told` relates the flags to the record of that connection, with one lemma for each event and
each step of a callback. `Flagged` is the same for a view: that no other connection has a callback
comes from `Slotted.mine`.

`disc_fired` is only said to be set once a shutdown has been processed, not to be clear before:
that an earlier connection leaves nothing in it is not established here.
-/

set_option autoImplicit false

namespace Cfd.Tunnel.Session

open Cfd.Base

/-- From the open of the connection to the wait. -/
def Stage.Dialed : Stage → Prop
  | .dialed | .up => True
  | _ => False

/-- What holds while a callback is at this position. -/
def Flags.Running (f : Flags) (c : ConnRec) : CallbackPc → Prop
  | .connectedLock => c.connected = true
  | .fireLock => c.shutDown = true
  | .fireCall copied =>
    c.shutDown = true ∧ (c.connected = true → f.discNotified = true) ∧
      (copied = true → f.discNotified = true ∧ f.invoked = 0 ∧ c.processed = false)

/-- **The flags tell what has happened to the connection with this record.** -/
structure Told (f : Flags) (c : ConnRec) : Prop where
  running : ∀ p, c.callback = some p → f.Running c p
  processed : c.processed = true →
    c.shutDown = true ∧ (c.connected = true → f.discNotified = true)
  confirmed : f.handshakeOk = true → c.connected = true
  confirms : c.connected = true → c.callback ≠ some .connectedLock → f.handshakeOk = true
  notified : f.discNotified = true → f.handshakeOk = true
  once : f.invoked ≤ 1
  invoked : 0 < f.invoked → f.discNotified = true
  delivered : f.stage.Dialed → f.discNotified = true →
    f.discFired = true ∨ c.callback = some (.fireCall true)

namespace Told

variable {f : Flags} {c : ConnRec}

/-- The connection has just been opened. -/
theorem fresh (hok : f.handshakeOk = false) (hnotified : f.discNotified = false)
    (hinvoked : f.invoked = 0) : Told f {} := by
  constructor <;> simp [hok, hnotified, hinvoked]

/-- `CONNECTED` is delivered. -/
theorem connected (h : Told f c) (hidle : c.callback = none) (hup : c.shutDown = false) :
    Told f { c with connected := true, callback := some .connectedLock } where
  running p hp := by
    cases hp
    rfl
  processed hdone := by cases (h.processed hdone).1.symm.trans hup
  confirmed _ := rfl
  confirms _ hne := absurd rfl hne
  notified := h.notified
  once := h.once
  invoked := h.invoked
  delivered hstage hwas := (h.delivered hstage hwas).imp_right (hidle ▸ nofun)

/-- A shutdown event is delivered. -/
theorem shutdownEvent (h : Told f c) (hidle : c.callback = none) :
    Told f { c with shutDown := true, callback := some .fireLock } where
  running p hp := by
    cases hp
    rfl
  processed hdone := ⟨rfl, (h.processed hdone).2⟩
  confirmed := h.confirmed
  confirms hc _ := h.confirms hc (hidle ▸ nofun)
  notified := h.notified
  once := h.once
  invoked := h.invoked
  delivered hstage hwas := (h.delivered hstage hwas).imp_right (hidle ▸ nofun)

/-- `CONNECTED` sets the handshake flags. -/
theorem connectedLock (h : Told f c) (hpc : c.callback = some .connectedLock) :
    Told { f with handshakeOk := true } { c with callback := none } where
  running := nofun
  processed := h.processed
  confirmed _ := h.running _ hpc
  confirms _ _ := rfl
  notified _ := rfl
  once := h.once
  invoked := h.invoked
  delivered hstage hwas := (h.delivered hstage hwas).imp_right (hpc ▸ nofun)

/-- The first shutdown event after the handshake copies the handler. -/
theorem copy (h : Told f c) (hpc : c.callback = some .fireLock) (hok : f.handshakeOk = true)
    (hfirst : f.discNotified = false) {copied : Bool} (hcopied : f.stage.Dialed → copied = true) :
    Told { f with discNotified := true } { c with callback := some (.fireCall copied) } where
  running p hp := by
    cases hp
    refine ⟨h.running _ hpc, fun _ => rfl, fun _ => ⟨rfl, ?_, ?_⟩⟩
    · by_contra hne
      cases (h.invoked (Nat.pos_of_ne_zero hne)).symm.trans hfirst
    · cases hdone : c.processed with
      | false => rfl
      | true => cases ((h.processed hdone).2 (h.confirmed hok)).symm.trans hfirst
  processed hdone := ⟨(h.processed hdone).1, fun _ => rfl⟩
  confirmed := h.confirmed
  confirms _ _ := hok
  notified _ := hok
  once := h.once
  invoked _ := rfl
  delivered hstage _ := Or.inr (by rw [hcopied hstage])

/-- A shutdown event finds nothing to notify. -/
theorem noCopy (h : Told f c) (hpc : c.callback = some .fireLock)
    (hdone : f.handshakeOk = true → f.discNotified = true) :
    Told f { c with callback := some (.fireCall false) } where
  running p hp := by
    cases hp
    exact ⟨h.running _ hpc, fun hc => hdone (h.confirms hc (hpc ▸ nofun)), nofun⟩
  processed := h.processed
  confirmed := h.confirmed
  confirms hc _ := h.confirms hc (hpc ▸ nofun)
  notified := h.notified
  once := h.once
  invoked := h.invoked
  delivered hstage hwas := (h.delivered hstage hwas).imp_right (hpc ▸ nofun)

/-- The copied handler is called. -/
theorem fire (h : Told f c) (hpc : c.callback = some (.fireCall true)) :
    Told { f with discFired := true, invoked := f.invoked + 1 }
      { c with callback := none, processed := true } := by
  obtain ⟨hshut, -, hcopied⟩ := h.running _ hpc
  obtain ⟨hnotified, hinvoked, -⟩ := hcopied rfl
  exact {
    running := nofun
    processed := fun _ => ⟨hshut, fun _ => hnotified⟩
    confirmed := h.confirmed
    confirms := fun hc _ => h.confirms hc (hpc ▸ nofun)
    notified := h.notified
    once := Nat.le_of_eq (congrArg (· + 1) hinvoked)
    invoked := fun _ => hnotified
    delivered := fun _ _ => Or.inl rfl }

/-- A shutdown event returns without a call. -/
theorem noFire (h : Told f c) (hpc : c.callback = some (.fireCall false)) :
    Told f { c with callback := none, processed := true } := by
  obtain ⟨hshut, hnotified, -⟩ := h.running _ hpc
  exact {
    running := nofun
    processed := fun _ => ⟨hshut, hnotified⟩
    confirmed := h.confirmed
    confirms := fun hc _ => h.confirms hc (hpc ▸ nofun)
    notified := h.notified
    once := h.once
    invoked := h.invoked
    delivered := fun hstage hwas => (h.delivered hstage hwas).imp_right (hpc ▸ nofun) }

/-- The connection thread goes on; it clears `disc_fired` only outside an attempt. -/
theorem setStage (h : Told f c) {stage : Stage} {handler fired : Bool}
    (hstage : stage.Dialed → f.stage.Dialed ∧ fired = f.discFired) :
    Told { f with stage, disconnectHandler := handler, discFired := fired } c where
  running := h.running
  processed := h.processed
  confirmed := h.confirmed
  confirms := h.confirms
  notified := h.notified
  once := h.once
  invoked := h.invoked
  delivered hdialed hwas := by
    obtain ⟨hdialed', rfl⟩ := hstage hdialed
    exact h.delivered hdialed' hwas

end Told

namespace View

variable {v : View}

/-- The flags of a view tell what has happened to the connection opened since their last reset. -/
structure Flagged (v : View) : Prop where
  running : ∀ h, (v.conn h).callback ≠ none → v.Open h
  unopened : v.mine = none → v.handshakeOk = false ∧ v.discNotified = false ∧ v.invoked = 0
  told : ∀ h, v.mine = some h → Told v.toFlags (v.conn h)
  opening : v.stage = .opening → v.mine = none
  handler : v.stage ≠ .out → v.disconnectHandler = true
  up : v.stage = .up → v.handshakeOk = true

/-- An event of an open connection, or a step of its callback. -/
theorem Flagged.setConn (hslot : v.Slotted) (hv : v.Flagged) {x : Handle} {r : ConnRec} {f : Flags}
    (hopen : v.Open x) (htold : Told v.toFlags (v.conn x) → Told f r)
    (hstage : f.stage = v.stage) (hhandler : f.disconnectHandler = v.disconnectHandler)
    (hok : v.handshakeOk = true → f.handshakeOk = true) :
    Flagged { v.setConn x r with toFlags := f } where
  running h hcb := by
    change ((v.setConn x r).conn h).callback ≠ none at hcb
    rw [conn_setConn] at hcb
    split at hcb
    next heq => exact heq ▸ hopen
    next => exact hv.running h hcb
  unopened hnone := by cases (hslot.mine x hopen).symm.trans hnone
  told h hmine := by
    cases (hslot.mine x hopen).symm.trans hmine
    change Told f ((v.setConn x r).conn x)
    rw [conn_setConn, if_pos rfl]
    exact htold (hv.told x hmine)
  opening hopening := hv.opening (hstage.symm.trans hopening)
  handler hout := hhandler.trans (hv.handler (hstage ▸ hout))
  up hup := hok (hv.up (hstage.symm.trans hup))

/-- The connection thread goes on. -/
theorem Flagged.setStage (hv : v.Flagged) {stage : Stage} {phase : Phase} {handler fired : Bool}
    (hstage : stage.Dialed → v.stage.Dialed ∧ fired = v.discFired) (hopening : stage ≠ .opening)
    (hhandler : stage ≠ .out → handler = true) (hup : stage = .up → v.handshakeOk = true) :
    Flagged { v with stage, phase, disconnectHandler := handler, discFired := fired } where
  running := hv.running
  unopened := hv.unopened
  told h hmine := (hv.told h hmine).setStage hstage
  opening h := absurd h hopening
  handler := hhandler
  up := hup

/-- A handle's record changes, and what is open stays open where a callback runs. -/
theorem Flagged.setHandle (hv : v.Flagged) {old : Handle} {r : HandleRec}
    (hold : (v.conn old).callback ≠ none → r.closed = false) : (v.setHandle old r).Flagged where
  running h hcb := by
    obtain ⟨hlt, hclosed⟩ := hv.running h hcb
    refine ⟨hlt, ?_⟩
    rw [handles_setHandle]
    split
    next heq => exact hold (heq ▸ hcb)
    next => exact hclosed
  unopened := hv.unopened
  told := hv.told
  opening := hv.opening
  handler := hv.handler
  up := hv.up

/-- `ConnectionStart` has succeeded. -/
theorem Flagged.start (hv : v.Flagged) (x : Handle) :
    (v.setConn x { v.conn x with started := true }).Flagged where
  running h hcb := by
    rw [conn_setConn] at hcb
    split at hcb
    next heq => exact hv.running h (heq ▸ hcb)
    next => exact hv.running h hcb
  unopened := hv.unopened
  told h hmine := by
    have htold := hv.told h hmine
    rw [conn_setConn]
    split
    next heq =>
      subst heq
      exact { htold with }
    next => exact htold
  opening := hv.opening
  handler := hv.handler
  up := hv.up

/-- A connection is opened, with the flags reset. -/
theorem Flagged.openConn (hv : v.Flagged) (hstage : v.stage = .opening) (parent : Option Handle) :
    (v.openConn parent).Flagged where
  running h hcb := by
    change (Function.update v.conn v.next {} h).callback ≠ none at hcb
    have hne : h ≠ v.next := fun heq => by simp [heq] at hcb
    rw [Function.update_of_ne hne] at hcb
    obtain ⟨hlt, hclosed⟩ := hv.running h hcb
    refine ⟨Nat.lt_succ_of_lt hlt, ?_⟩
    change (Function.update v.handles v.next { parent } h).closed = false
    rwa [Function.update_of_ne hne]
  unopened := nofun
  told h hmine := by
    cases hmine
    obtain ⟨hok, hnotified, hinvoked⟩ := hv.unopened (hv.opening hstage)
    change Told _ (Function.update v.conn v.next {} v.next)
    rw [Function.update_self]
    exact Told.fresh hok hnotified hinvoked
  opening := nofun
  handler _ := hv.handler (hstage ▸ nofun)
  up := nofun

end View

/-- **A move keeps what the flags tell.** -/
theorem Move.flagged {v v' : View} {a : Action} (hslot : v.Slotted) (hv : v.Flagged)
    (h : Move v a v') : v'.Flagged := by
  cases h with
  | stay | lock | unlock | beginReset | read | writeNull | write | storeRead | storeNull | store |
    signal | shutdown => exact { hv with }
  | top hstage | clearDisc hstage =>
    exact hv.setStage nofun nofun (fun _ => hv.handler (hstage ▸ nofun)) nofun
  | giveUp hphase hstage => exact hv.setStage nofun nofun (fun _ => hv.handler hstage) nofun
  | install => exact hv.setStage nofun nofun (fun _ => rfl) nofun
  | clearHandler => exact hv.setStage nofun nofun (fun hne => absurd rfl hne) nofun
  | succeed hstage hok =>
    exact hv.setStage (fun _ => ⟨hstage ▸ trivial, rfl⟩) nofun
      (fun _ => hv.handler (hstage ▸ nofun)) fun _ => hok
  | resetFlags hstage =>
    exact {
      running := hv.running
      unopened := fun _ => ⟨rfl, rfl, rfl⟩
      told := nofun
      opening := fun _ => rfl
      handler := fun _ => hv.handler (hstage ▸ nofun)
      up := nofun }
  | @call _ _ old | @storeCall _ _ old =>
    have hset : (v.setHandle old { v.handles old with closing := true }).Flagged :=
      hv.setHandle fun hcb => (hv.running old hcb).2
    exact { hset with }
  | @drain _ _ old hby hop hidle | @storeDrain _ _ old hop hidle =>
    have hset : (v.setHandle old { v.handles old with closed := true }).Flagged :=
      hv.setHandle fun hcb => absurd hidle hcb
    exact { hset with }
  | openConn hstage => exact hv.openConn hstage _
  | start => exact hv.start _
  | connected hopen hidle hup =>
    exact hv.setConn hslot hopen (fun h => h.connected hidle hup) rfl rfl id
  | shutdownEvent hopen hidle =>
    exact hv.setConn hslot hopen (fun h => h.shutdownEvent hidle) rfl rfl id
  | @connectedLock x hpc =>
    exact hv.setConn hslot (hv.running x (hpc ▸ nofun)) (fun h => h.connectedLock hpc) rfl rfl
      fun _ => rfl
  | @copy x hpc hok hfirst =>
    refine hv.setConn hslot (hv.running x (hpc ▸ nofun)) (fun h => h.copy hpc hok hfirst ?_) rfl rfl
      id
    exact fun hdialed => hv.handler fun hout => by rwa [hout] at hdialed
  | @noCopy x hpc hdone =>
    exact hv.setConn hslot (hv.running x (hpc ▸ nofun)) (fun h => h.noCopy hpc hdone) rfl rfl id
  | @fire x hpc =>
    exact hv.setConn hslot (hv.running x (hpc ▸ nofun)) (fun h => h.fire hpc) rfl rfl id
  | @noFire x hpc =>
    exact hv.setConn hslot (hv.running x (hpc ▸ nofun)) (fun h => h.noFire hpc) rfl rfl id

/-! ## Runs -/

theorem flagged_init : session.init.view.Flagged where
  running _ hcb := absurd rfl hcb
  unopened _ := ⟨rfl, rfl, rfl⟩
  told := nofun
  opening := nofun
  handler h := absurd rfl h
  up := nofun

/-- **In every run the flags tell what has happened.** -/
theorem reach_flagged {guard : State → Action → Prop} {s : State} (h : session.Reach guard s) :
    s.view.Flagged :=
  h.invariant (I := fun s => s.view.Flagged) flagged_init fun _ _ _ hr _ hstep hs =>
    (step_move hstep).flagged (reach_slotted hr).2 hs

end Cfd.Tunnel.Session
