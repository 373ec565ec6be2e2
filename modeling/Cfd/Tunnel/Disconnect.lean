import Cfd.Tunnel.Attempt

/-!
# What a disconnect tells the connection thread

Two results about the runs of a session. `disconnect_notified`: the handler is called at most once
for an attempt, behind its handshake, and a shutdown that has been processed before the thread
leaves its wait has set `disc_fired`. `disconnect_current`: in runs where no handler is called
between the clear of `disc_fired` and the reset of the flags, what ends the wait is a shutdown of
the connection of that iteration.

The second needs its condition. The `close` at the top of the loop makes the old connection deliver
its shutdown, and if that connection has had its handshake and has not notified, the handler is
called after `disc_fired` has been cleared (`stale_disconnect`).
-/

set_option autoImplicit false

namespace Cfd.Tunnel.Session

open Cfd.Base

/-! ## One notification for an attempt -/

namespace View

variable {v : View}

/-- Once `handshake_ok_` is set, the connection of the attempt has been `CONNECTED`. -/
theorem Flagged.connected_of_ok (hv : v.Flagged) (hok : v.handshakeOk = true) :
    ∃ h, v.mine = some h ∧ (v.conn h).connected = true := by
  cases hmine : v.mine with
  | none => cases (hv.unopened hmine).1.symm.trans hok
  | some h => exact ⟨h, rfl, (hv.told h hmine).confirmed hok⟩

theorem Flagged.once (hv : v.Flagged) : v.invoked ≤ 1 := by
  cases hmine : v.mine with
  | none => exact (hv.unopened hmine).2.2 ▸ Nat.zero_le 1
  | some h => exact (hv.told h hmine).once

/-- The handler is not called before the handshake of the attempt. -/
theorem Flagged.ok_of_invoked (hv : v.Flagged) (hinvoked : 0 < v.invoked) :
    v.handshakeOk = true := by
  cases hmine : v.mine with
  | none => exact absurd (hv.unopened hmine).2.2 (Nat.ne_of_gt hinvoked)
  | some h =>
    have htold := hv.told h hmine
    exact htold.notified (htold.invoked hinvoked)

end View

/-- **No disconnect is lost.** A shutdown that has been processed has set `disc_fired`. -/
theorem Told.fired {f : Flags} {c : ConnRec} (h : Told f c) (hstage : f.stage.Dialed)
    (hconnected : c.connected = true) (hprocessed : c.processed = true) : f.discFired = true := by
  have hnotified := (h.processed hprocessed).2 hconnected
  rcases h.delivered hstage hnotified with hfired | hpending
  · exact hfired
  · -- the copy is of the first shutdown event, so none has been processed
    obtain ⟨-, -, hcopied⟩ := h.running _ hpending
    cases (hcopied rfl).2.2.symm.trans hprocessed

/-- **Exactly one notification for an attempt.** Behind the handshake the connection of the attempt
has been `CONNECTED`; since the last reset of the flags the handler has been called at most once,
and not before that; and from the open to the wait, a shutdown that has been processed has set
`disc_fired`. -/
theorem disconnect_notified {s : State} (hs : session.Reachable s) :
    (s.thread.stage = .up → ∃ h, s.shared.mine = some h ∧ (s.shared.conn h).connected = true) ∧
      (s.shared.invoked ≤ 1 ∧ (0 < s.shared.invoked →
        ∃ h, s.shared.mine = some h ∧ (s.shared.conn h).connected = true)) ∧
      ∀ h, s.shared.mine = some h → s.thread.stage.Dialed →
        (s.shared.conn h).connected = true → (s.shared.conn h).processed = true →
        s.shared.discFired = true := by
  have hflags := reach_flagged hs
  refine ⟨fun hup => ?_, ⟨hflags.once, fun hinvoked => ?_⟩, fun h hmine hstage => ?_⟩
  · exact hflags.connected_of_ok (hflags.up hup)
  · exact hflags.connected_of_ok (hflags.ok_of_invoked hinvoked)
  · exact (hflags.told h hmine).fired hstage

/-- The first connection comes up, is registered, and is shut down by the peer. -/
def peerSteps : List Action :=
  upSteps ++ [.event 0 .shutdownInitiatedByPeer, .callback 0, .callback 0]

theorem disconnect_notified_by_peer : ∃ s, session.Reachable s ∧ s.thread = .wait ∧
    s.shared.discFired = true ∧ s.shared.invoked ≤ 1 := by
  have hrun : (session.exec (fun _ _ => True) session.init peerSteps).any (fun s =>
      decide (s.thread = .wait ∧ s.shared.mine = some 0 ∧ (s.shared.conn 0).connected = true ∧
        (s.shared.conn 0).processed = true)) = true := by decide
  obtain ⟨s, hs, hwait, hmine, hconnected, hprocessed⟩ := Machine.exists_reach_of_exec hrun
  have hnotified := disconnect_notified hs
  exact ⟨s, hs, hwait, hnotified.2.2 0 hmine (hwait ▸ trivial) hconnected hprocessed,
    hnotified.2.1.1⟩

/-! ## The disconnect of the current connection -/

/-- No handler is called between the clear of `disc_fired` and the reset of the flags. -/
def Quiet (s : State) : Action → Prop
  | .callback h => (s.shared.conn h).callback = some (.fireCall true) → s.thread.stage ≠ .cleared
  | _ => True

instance (s : State) (a : Action) : Decidable (Quiet s a) :=
  match a with
  | .callback _ => inferInstanceAs (Decidable (_ → _))
  | .thread _ | .main _ | .router | .kj _ | .event _ _ | .signal => isTrue trivial

namespace View

variable {v : View}

/-- `disc_fired` is about the connection opened since the last reset of the flags. -/
structure Current (v : View) : Prop where
  clear : v.stage = .cleared ∨ v.stage = .opening → v.discFired = false
  shutDown : v.stage.Dialed → v.discFired = true →
    ∃ h, v.mine = some h ∧ (v.conn h).shutDown = true

/-- An event, or a step of a callback that calls nothing. -/
theorem Current.setConn (hv : v.Current) {x : Handle} {r : ConnRec} {f : Flags}
    (hshut : (v.conn x).shutDown = true → r.shutDown = true) (hstage : f.stage = v.stage)
    (hfired : f.discFired = v.discFired) : Current { v.setConn x r with toFlags := f } where
  clear h := hfired.trans (hv.clear (hstage ▸ h))
  shutDown hdialed hset := by
    obtain ⟨h, hmine, hwas⟩ := hv.shutDown (hstage ▸ hdialed) (hfired.symm.trans hset)
    refine ⟨h, hmine, ?_⟩
    change ((v.setConn x r).conn h).shutDown = true
    rw [conn_setConn]
    split
    next heq => exact hshut (heq ▸ hwas)
    next => exact hwas

/-- The handler is called for the connection of the attempt. -/
theorem Current.fire (hslot : v.Slotted) (hflags : v.Flagged) {x : Handle}
    (hpc : (v.conn x).callback = some (.fireCall true)) (hquiet : v.stage ≠ .cleared) :
    Current { v.setConn x { v.conn x with callback := none, processed := true } with
      discFired := true
      invoked := v.invoked + 1 } := by
  have hmine := hslot.mine x (hflags.running x (hpc ▸ nofun))
  obtain ⟨hshut, -⟩ := (hflags.told x hmine).running _ hpc
  refine ⟨fun hstage => ?_, fun _ _ => ⟨x, hmine, ?_⟩⟩
  · rcases hstage with hcleared | hopening
    · exact absurd hcleared hquiet
    · cases hmine.symm.trans (hflags.opening hopening)
  · change ((v.setConn x _).conn x).shutDown = true
    rwa [conn_setConn, if_pos rfl]

end View

/-- **A quiet move keeps `disc_fired` current.** -/
theorem Move.current {v v' : View} {a : Action} (hslot : v.Slotted) (hflags : v.Flagged)
    (hquiet : ∀ x, a = .callback x → (v.conn x).callback = some (.fireCall true) →
      v.stage ≠ .cleared)
    (hv : v.Current) (h : Move v a v') : v'.Current := by
  cases h with
  | stay | lock | unlock | beginReset | read | writeNull | write | call | drain | storeRead |
    storeNull | store | storeCall | storeDrain | signal | shutdown => exact { hv with }
  | top | giveUp | install | clearHandler => exact ⟨nofun, nofun⟩
  | clearDisc => exact ⟨fun _ => rfl, nofun⟩
  | succeed hstage => exact ⟨nofun, fun _ => hv.shutDown (hstage ▸ trivial)⟩
  | resetFlags hstage => exact ⟨fun _ => hv.clear (Or.inl hstage), nofun⟩
  | openConn hstage =>
    refine ⟨nofun, fun _ hset => ?_⟩
    cases (hv.clear (Or.inr hstage)).symm.trans hset
  | start | connected | connectedLock | copy | noCopy | noFire => exact hv.setConn id rfl rfl
  | shutdownEvent => exact hv.setConn (fun _ => rfl) rfl rfl
  | @fire x hpc => exact View.Current.fire hslot hflags hpc (hquiet x rfl hpc)

/-- **No stale disconnect.** In a quiet run, the connection thread leaves the wait for `disc_fired`
only if a shutdown event of the connection opened in the same iteration has been delivered. -/
theorem disconnect_current {s : State} (hs : session.Reach Quiet s) (hwait : s.thread = .wait)
    (hfired : s.shared.discFired = true) :
    ∃ h, s.shared.mine = some h ∧ (s.shared.conn h).shutDown = true := by
  have hcurrent : s.view.Current := by
    refine hs.invariant (I := fun s => s.view.Current) ⟨nofun, nofun⟩
      fun s a s' hr hquiet hstep hv => ?_
    refine (step_move hstep).current (reach_slotted hr).2 (reach_flagged hr) (fun x ha => ?_) hv
    subst ha
    exact hquiet
  exact hcurrent.shutDown (show s.thread.stage.Dialed from hwait ▸ trivial) hfired

theorem disconnect_current_by_peer : ∃ s, session.Reach Quiet s ∧ s.thread = .wait ∧
    s.shared.discFired = true ∧
    ∃ h, s.shared.mine = some h ∧ (s.shared.conn h).shutDown = true := by
  have hrun : (session.exec Quiet session.init peerSteps).any (fun s =>
      decide (s.thread = .wait ∧ s.shared.discFired = true)) = true := by decide
  obtain ⟨s, hs, hwait, hfired⟩ := Machine.exists_reach_of_exec hrun
  exact ⟨s, hs, hwait, hfired, disconnect_current hs hwait hfired⟩

/-- What a run that is not quiet leaves in `disc_fired` stays there until the next iteration. -/
theorem discFired_stays {s s' : State} {a : Action} (hstep : s.step a = some s')
    (hstage : s.thread.stage ≠ .clearing) (hfired : s.shared.discFired = true) :
    s'.shared.discFired = true := by
  have hstays : ∀ {v v' : View}, Move v a v' → v.stage ≠ .clearing → v.discFired = true →
      v'.discFired = true := by
    intro v v' h hne hset
    cases h with
    | clearDisc hclearing => exact absurd hclearing hne
    | fire => rfl
    | _ => exact hset
  exact hstays (step_move hstep) hstage hfired

/-- The wait for the handshake times out, `CONNECTED` comes late, and the shutdown of that
connection is delivered while the loop closes it; the next connection is registered. -/
def lateSteps : List Action :=
  threadSteps 33 ++ [.event 0 .connected, .callback 0] ++ threadSteps 9 ++
    [.event 0 .shutdownComplete, .callback 0, .callback 0] ++ threadSteps 30 ++
    [.event 1 .connected, .callback 1] ++ threadSteps 1 ++ registerSteps

/-- **A stale disconnect.** The thread leaves its wait for a connection of which no shutdown event
has been delivered. -/
theorem stale_disconnect : ¬∀ s, session.Reachable s → s.thread = .wait →
    s.shared.discFired = true →
    ∃ h, s.shared.mine = some h ∧ (s.shared.conn h).shutDown = true := by
  intro hclaim
  have hrun : (session.exec (fun _ _ => True) session.init lateSteps).any (fun s =>
      decide (s.thread = .wait ∧ s.shared.discFired = true ∧ s.shared.mine = some 1 ∧
        (s.shared.conn 1).shutDown = false)) = true := by decide
  obtain ⟨s, hs, hwait, hfired, hmine, hnone⟩ := Machine.exists_reach_of_exec hrun
  obtain ⟨h, hmine', hshut⟩ := hclaim s hs hwait hfired
  cases hmine.symm.trans hmine'
  cases hnone.symm.trans hshut

end Cfd.Tunnel.Session
