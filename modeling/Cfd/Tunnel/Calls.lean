import Cfd.Tunnel.Slot

/-!
# The calls on the connection

`send_packet` and `register_connection` test `connection_` and `handshake_ok_`, and read the pointer
once more for `DatagramSend` and `StreamOpen`. Neither takes `close_mu_`. `call_live` says when the
handle that is passed has been opened and not closed: in the runs in which no close comes between
the guard, the second read and the call (`Exclusive`). A use that a step has disturbed is no longer safe
(`not_safe_of_disturbed`), and one of the router thread then has a continuation in which it passes a null
or closed handle: the one in which nothing else moves (`call_of_not_safe`). Another party may still repair
it first. `call_closed` is a run in which nobody does.
-/

set_option autoImplicit false

namespace Cfd.Tunnel.Session

open Cfd.Base

/-- The handle that a step passes to `DatagramSend` or `StreamOpen`, for a step that calls one. -/
def State.callOf (s : State) : Action → Option (Option Handle)
  | .router =>
    match s.router with
    | .sending (.call h) => some h
    | _ => none
  | .kj _ =>
    match s.kj with
    | .registering (.call h) => some h
    | _ => none
  | _ => none

/-! ## What must not come between -/

/-- The write of a reset. -/
def ConnOp.Nulls : ConnOp → Prop
  | .reset (.write _) => True
  | _ => False

/-- The call of `ConnectionClose` on this connection. -/
def ConnOp.Closes (h : Handle) : ConnOp → Prop
  | .reset (.call old) => old = h
  | .store _ (.call old) => old = h
  | _ => False

instance : DecidablePred ConnOp.Nulls
  | .reset (.write _) => isTrue trivial
  | .reset .read | .reset (.call _) | .reset (.drain _) | .none | .store _ _ => isFalse id

instance (h : Handle) : DecidablePred (ConnOp.Closes h)
  | .reset (.call old) | .store _ (.call old) => inferInstanceAs (Decidable (old = h))
  | .reset .read | .reset (.write _) | .reset (.drain _) | .none | .store _ .read |
    .store _ (.write _) | .store _ (.drain _) => isFalse id

/-- What the action's party is doing to the pointer. -/
def View.opOf (v : View) : Action → ConnOp
  | .thread _ => v.threadOp
  | .main _ => v.mainOp
  | _ => .none

/-- A step in which `CONNECTED` sets `handshake_ok_`. -/
def View.Confirms (v : View) : Action → Prop
  | .callback x => (v.conn x).callback = some .connectedLock
  | _ => False

instance (v : View) : DecidablePred v.Confirms
  | .callback x => inferInstanceAs (Decidable ((v.conn x).callback = some .connectedLock))
  | .thread _ | .main _ | .router | .kj _ | .event _ _ | .signal => isFalse id

/-- The action does not disturb a use of the connection that stands here. -/
def View.Undisturbed (v : View) (a : Action) : UsePc → Prop
  | .guardConnection => True
  | .guardHandshake =>
    ((v.opOf a).Nulls → v.handshakeOk = false) ∧ (v.Confirms a → v.held ≠ none)
  | .fetch => ¬(v.opOf a).Nulls
  | .call none => True
  | .call (some h) => ¬(v.opOf a).Closes h

instance (v : View) (a : Action) : DecidablePred (v.Undisturbed a)
  | .guardConnection => isTrue trivial
  | .guardHandshake => inferInstanceAs (Decidable (_ ∧ _))
  | .fetch => inferInstanceAs (Decidable (¬_))
  | .call none => isTrue trivial
  | .call (some _) => inferInstanceAs (Decidable (¬_))

def RouterPc.use : RouterPc → Option UsePc
  | .sending p => some p
  | .idle => none

def KjPc.use : KjPc → Option UsePc
  | .registering p => some p
  | _ => none

/-- The action disturbs no use of the connection: it does not take the handle out of `connection_`
between a guard that it passes and the second read, and does not close one that has been read for a
call. -/
def Exclusive (s : State) (a : Action) : Prop :=
  (∀ p ∈ s.router.use, s.view.Undisturbed a p) ∧ ∀ p ∈ s.kj.use, s.view.Undisturbed a p

instance (s : State) (a : Action) : Decidable (Exclusive s a) :=
  inferInstanceAs (Decidable (_ ∧ _))

/-! ## What a move keeps -/

theorem Action.By.opOf {who : Closer} {a : Action} (h : a.By who) (v : View) :
    v.opOf a = v.op who := by
  cases who <;> cases a <;> first | rfl | cases h

/-- The record of another handle does not matter to a live connection. -/
theorem View.live_setHandle {v : View} {old x : Handle} {r : HandleRec} (hne : x ≠ old)
    (hlive : v.Live x) : (v.setHandle old r).Live x := by
  obtain ⟨⟨hlt, hclosed⟩, hclosing⟩ := hlive
  refine ⟨⟨hlt, ?_⟩, ?_⟩
  · rwa [handles_setHandle, if_neg hne]
  · rwa [handles_setHandle, if_neg hne]

namespace Move

variable {v v' : View} {a : Action}

/-- The pointer is only emptied by the write of a reset. -/
theorem held_ne_none (h : Move v a v') (hnulls : ¬(v.opOf a).Nulls) (hheld : v.held ≠ none) :
    v'.held ≠ none := by
  cases h with
  | writeNull who hby hop | write who hby hop =>
    rw [hby.opOf, hop] at hnulls
    exact absurd trivial hnulls
  | storeNull | store => exact nofun
  | _ => exact hheld

/-- `handshake_ok_` is only set by `CONNECTED`. -/
theorem handshakeOk_of (h : Move v a v') (hconfirms : ¬v.Confirms a)
    (hok : v'.handshakeOk = true) : v.handshakeOk = true := by
  cases h with
  | connectedLock hpc => exact absurd hpc hconfirms
  | resetFlags => cases hok
  | _ => exact hok

/-- A connection is live until its close is called. -/
theorem live (h : Move v a v') (hslot : v.Slotted) {x : Handle} (hcloses : ¬(v.opOf a).Closes x)
    (hlive : v.Live x) : v'.Live x := by
  cases h with
  | call who hby hop =>
    rw [hby.opOf, hop] at hcloses
    exact View.live_setHandle (Ne.symm hcloses) hlive
  | drain who hby hop =>
    refine View.live_setHandle (fun heq => ?_) hlive
    obtain ⟨-, -, hclosing⟩ := hslot.resetting _ _ hop
    cases (heq ▸ hlive.2).symm.trans hclosing
  | openConn =>
    obtain ⟨⟨hlt, hclosed⟩, hclosing⟩ := View.live_setHandle (Nat.ne_of_lt hlive.1.1) hlive
    exact ⟨⟨Nat.lt_succ_of_lt hlt, hclosed⟩, hclosing⟩
  | storeCall hop | storeDrain hop =>
    obtain ⟨-, hp | hp, -⟩ := hslot.storing .thread _ _ hop <;> cases hp
  | _ => exact hlive

end Move

/-! ## The uses -/

/-- A use of the connection that stands here will pass a live handle, or none at all. -/
def View.Safe (v : View) : UsePc → Prop
  | .guardConnection => True
  | .guardHandshake => v.handshakeOk = true → v.held ≠ none
  | .fetch => v.held ≠ none
  | .call h => ∃ x, h = some x ∧ v.Live x

theorem View.not_nulls_of_confirms {v : View} {a : Action} (h : v.Confirms a) :
    ¬(v.opOf a).Nulls := by
  cases a with
  | callback x => exact id
  | _ => cases h

/-- The steps of the others keep a use safe that they do not disturb. -/
theorem Move.safe {v v' : View} {a : Action} (h : Move v a v') (hslot : v.Slotted) {p : UsePc}
    (hund : v.Undisturbed a p) (hsafe : v.Safe p) : v'.Safe p := by
  match p with
  | .guardConnection => trivial
  | .guardHandshake =>
    obtain ⟨hnulls, hconfirms⟩ := hund
    intro hok
    by_cases hconf : v.Confirms a
    · exact h.held_ne_none (View.not_nulls_of_confirms hconf) (hconfirms hconf)
    · have hwas := h.handshakeOk_of hconf hok
      refine h.held_ne_none (fun hnull => ?_) (hsafe hwas)
      cases (hnulls hnull).symm.trans hwas
  | .fetch => exact h.held_ne_none hund hsafe
  | .call none =>
    obtain ⟨x, heq, -⟩ := hsafe
    cases heq
  | .call (some y) =>
    obtain ⟨x, heq, hlive⟩ := hsafe
    cases heq
    exact ⟨y, rfl, h.live hslot hund hlive⟩

/-- A use that goes on stays safe. -/
theorem useStep_safe {s : Shared} {t : ThreadPc} {m : MainPc} (hslot : (s.view t m).Slotted)
    {p q : UsePc} (hstep : useStep s p = .goto q) (hsafe : (s.view t m).Safe p) :
    (s.view t m).Safe q := by
  cases p with
  | guardConnection =>
    simp only [useStep] at hstep
    split at hstep <;> cases hstep
    next hheld => exact fun _ => hheld
  | guardHandshake =>
    simp only [useStep] at hstep
    split at hstep <;> cases hstep
    next hok => exact hsafe hok
  | fetch =>
    cases hstep
    obtain ⟨x, hheld⟩ := Option.ne_none_iff_exists'.mp hsafe
    exact ⟨x, hheld, hslot.held x hheld⟩
  | call h => cases hstep

/-- The uses of the connection by the router thread and by the registration thread are safe. -/
structure Guarded (s : State) : Prop where
  router : ∀ p, s.router = .sending p → s.view.Safe p
  kj : ∀ p, s.kj = .registering p → s.view.Safe p

/-- A use of the router thread has just begun, or has gone on. -/
theorem routerStep_sending {s : State} {q : UsePc} (h : routerStep s = some (.sending q)) :
    q = .guardConnection ∨ ∃ p, s.router = .sending p ∧ useStep s.shared p = .goto q := by
  simp only [routerStep] at h
  split at h
  · split at h <;> cases h
    exact Or.inl rfl
  next p hp =>
    split at h <;> cases h
    next hgoto => exact Or.inr ⟨p, hp, hgoto⟩

/-- A use of the registration thread has just begun, or has gone on. -/
theorem kjStep_registering {s s' : Shared} {ok : Bool} {k : KjPc} {q : UsePc}
    (h : kjStep s ok k = some (s', .registering q)) :
    q = .guardConnection ∨ ∃ p, k = .registering p ∧ useStep s p = .goto q := by
  cases k with
  | idle =>
    simp only [kjStep] at h
    split at h <;> cases h
    exact Or.inl rfl
  | registering p =>
    simp only [kjStep] at h
    split at h <;> cases h
    next hgoto => exact Or.inr ⟨p, rfl, hgoto⟩
  | rpc => cases h
  | answer ok => cases h

theorem guarded_init : Guarded session.init := ⟨nofun, nofun⟩

/-- **A step that disturbs no use keeps them safe.** -/
theorem Guarded.step {s s' : State} {a : Action} (hslot : s.view.Slotted) (hs : Guarded s)
    (hexcl : Exclusive s a) (hstep : s.step a = some s') : Guarded s' := by
  have hmove := step_move hstep
  have hrouter : ∀ p, s.router = .sending p → s'.view.Safe p := fun p hp =>
    hmove.safe hslot (hexcl.1 p (by rw [hp]; rfl)) (hs.router p hp)
  have hkj : ∀ p, s.kj = .registering p → s'.view.Safe p := fun p hp =>
    hmove.safe hslot (hexcl.2 p (by rw [hp]; rfl)) (hs.kj p hp)
  cases a with
  | thread ok | main ok | event x e | callback x =>
    obtain ⟨r, -, rfl⟩ := Option.map_eq_some_iff.mp hstep
    exact ⟨hrouter, hkj⟩
  | signal =>
    cases hstep
    exact ⟨hrouter, hkj⟩
  | router =>
    obtain ⟨r, hr, rfl⟩ := Option.map_eq_some_iff.mp hstep
    refine ⟨fun q hq => ?_, hkj⟩
    change r = .sending q at hq
    subst hq
    rcases routerStep_sending hr with rfl | ⟨p, hp, hgoto⟩
    · trivial
    · exact useStep_safe hslot hgoto (hs.router p hp)
  | kj ok =>
    obtain ⟨⟨sh, k⟩, hk, rfl⟩ := Option.map_eq_some_iff.mp hstep
    refine ⟨hrouter, fun q hq => ?_⟩
    change k = .registering q at hq
    subst hq
    have hview : sh.view s.thread s.main = s.view := kjStep_view hk s.thread s.main
    change (sh.view s.thread s.main).Safe q
    rw [hview]
    rcases kjStep_registering hk with rfl | ⟨p, hp, hgoto⟩
    · trivial
    · exact useStep_safe hslot hgoto (hs.kj p hp)

/-! ## After a disturbance -/

theorem ClosePc.nulls_eq {p : ClosePc} (h : p.connOp.Nulls) :
    ∃ old, p = .reset .connection (.write old) := by
  cases p with
  | reset kind p =>
    cases kind with
    | connection =>
      cases p with
      | write old => exact ⟨old, rfl⟩
      | _ => cases h
    | _ => cases h
  | _ => cases h

theorem ClosePc.closes_eq {p : ClosePc} {x : Handle} (h : p.connOp.Closes x) :
    p = .reset .connection (.call x) := by
  cases p with
  | reset kind p =>
    cases kind with
    | connection =>
      cases p with
      | call old => exact congrArg (fun x => ClosePc.reset .connection (.call x)) h
      | _ => cases h
    | _ => cases h
  | _ => cases h

/-- The write of a reset empties the pointer, and leaves `handshake_ok_`. -/
theorem nulls_step {s s' : State} {a : Action} (hstep : s.step a = some s')
    (h : (s.view.opOf a).Nulls) :
    s'.view.held = none ∧ s'.view.handshakeOk = s.view.handshakeOk := by
  obtain ⟨sh, t, r, k, m⟩ := s
  cases a with
  | thread ok =>
    change t.connOp.Nulls at h
    cases t with
    | close site p =>
      obtain ⟨old, rfl⟩ := ClosePc.nulls_eq h
      cases old <;> cases hstep <;> exact ⟨rfl, rfl⟩
    | connect p =>
      cases p with
      | store kind raw p => cases kind <;> cases h
      | _ => cases h
    | _ => cases h
  | main ok =>
    change m.connOp.Nulls at h
    cases m with
    | closing p =>
      obtain ⟨old, rfl⟩ := ClosePc.nulls_eq h
      cases old <;> cases hstep <;> exact ⟨rfl, rfl⟩
    | _ => cases h
  | _ => cases h

/-- The call of a connection's close marks it. -/
theorem closes_step {s s' : State} {a : Action} {x : Handle} (hstep : s.step a = some s')
    (h : (s.view.opOf a).Closes x) : (s'.view.handles x).closing = true := by
  obtain ⟨sh, t, r, k, m⟩ := s
  have hmark : ∀ r : HandleRec,
      ((sh.setHandle .connection x { r with closing := true }).handles .connection x).closing =
        true := by
    intro r
    simp only [Shared.setHandle, Function.update_self]
  cases a with
  | thread ok =>
    change t.connOp.Closes x at h
    cases t with
    | close site p =>
      obtain rfl := ClosePc.closes_eq h
      cases hstep
      exact hmark _
    | connect p =>
      cases p with
      | store kind raw p =>
        cases kind with
        | connection =>
          cases p with
          | call old =>
            obtain rfl : old = x := h
            cases hstep
            exact hmark _
          | _ => cases h
        | _ => cases h
      | _ => cases h
    | _ => cases h
  | main ok =>
    change m.connOp.Closes x at h
    cases m with
    | closing p =>
      obtain rfl := ClosePc.closes_eq h
      cases hstep
      exact hmark _
    | _ => cases h
  | _ => cases h

/-- `CONNECTED` sets `handshake_ok_`, and leaves the pointer. -/
theorem confirms_step {s s' : State} {a : Action} (hstep : s.step a = some s')
    (h : s.view.Confirms a) : s'.view.held = s.view.held ∧ s'.view.handshakeOk = true := by
  cases a with
  | callback x =>
    obtain ⟨sh, hsh, rfl⟩ := Option.map_eq_some_iff.mp hstep
    have hpc : (s.shared.conn x).callback = some .connectedLock := h
    simp only [callbackStep, hpc] at hsh
    cases hsh
    exact ⟨rfl, rfl⟩
  | _ => cases h

/-- **A disturbed use is not safe.** -/
theorem not_safe_of_disturbed {s s' : State} {a : Action} {p : UsePc} (hstep : s.step a = some s')
    (hdist : ¬s.view.Undisturbed a p) : ¬s'.view.Safe p := by
  intro hsafe
  match p with
  | .guardConnection => exact hdist trivial
  | .guardHandshake =>
    refine hdist ⟨fun hnulls => ?_, fun hconfirms hnull => ?_⟩
    · obtain ⟨hheld, hsame⟩ := nulls_step hstep hnulls
      by_contra hok
      exact hsafe (hsame.trans (eq_true_of_ne_false hok)) hheld
    · obtain ⟨hsame, hok⟩ := confirms_step hstep hconfirms
      exact hsafe hok (hsame.trans hnull)
  | .fetch => exact hdist fun hnulls => hsafe (nulls_step hstep hnulls).1
  | .call none => exact hdist trivial
  | .call (some h) =>
    refine hdist fun hcloses => ?_
    obtain ⟨x, hx, -, hlive⟩ := hsafe
    cases hx
    cases hlive.symm.trans (closes_step hstep hcloses)

/-- A use of the router thread that is not safe passes no live handle, if no other party moves. -/
theorem call_of_not_safe {s : State} {p : UsePc} (hp : s.router = .sending p)
    (hnot : ¬s.view.Safe p) :
    ∃ n s', session.exec (fun _ _ => True) s (List.replicate n .router) = some s' ∧
      ∃ h, s'.callOf .router = some h ∧ ¬∃ x, h = some x ∧ s'.view.Live x := by
  obtain ⟨sh, t, r, k, m⟩ := s
  cases hp
  cases p with
  | guardConnection => exact absurd trivial hnot
  | guardHandshake =>
    have hbad : sh.handshakeOk = true ∧ sh.held .connection = none := by
      by_contra hne
      exact hnot fun hok hnull => hne ⟨hok, hnull⟩
    refine ⟨2, ⟨sh, t, .sending (.call none), k, m⟩, ?_, none, rfl, nofun⟩
    simp [session, Machine.exec, State.step, routerStep, useStep, hbad]
  | fetch =>
    have hnull : sh.held .connection = none := by
      by_contra hne
      exact hnot hne
    refine ⟨1, ⟨sh, t, .sending (.call none), k, m⟩, ?_, none, rfl, nofun⟩
    simp [session, Machine.exec, State.step, routerStep, useStep, hnull]
  | call h => exact ⟨0, _, rfl, h, rfl, hnot⟩

/-! ## Runs -/

/-- **No call on a closed handle.** In a run whose steps disturb no use, every `DatagramSend` and
every `StreamOpen` is passed a connection that has been opened and whose close has not been
called. -/
theorem call_live {s : State} {a : Action} {h : Option Handle} (hs : session.Reach Exclusive s)
    (hcall : s.callOf a = some h) :
    ∃ x, h = some x ∧ x < s.shared.next .connection ∧
      (s.shared.handles .connection x).closing = false ∧
      (s.shared.handles .connection x).closed = false := by
  have hguarded : Guarded s :=
    hs.invariant (I := Guarded) guarded_init fun _ _ _ hr hexcl hstep hs =>
      hs.step (reach_slotted hr).2 hexcl hstep
  have hsafe : s.view.Safe (.call h) := by
    cases a with
    | router =>
      simp only [State.callOf] at hcall
      split at hcall <;> cases hcall
      next hp => exact hguarded.router _ hp
    | kj ok =>
      simp only [State.callOf] at hcall
      split at hcall <;> cases hcall
      next hp => exact hguarded.kj _ hp
    | _ => cases hcall
  obtain ⟨x, hx, ⟨hlt, hclosed⟩, hclosing⟩ := hsafe
  exact ⟨x, hx, hlt, hclosing, hclosed⟩

/-- The first connection is up, `main` starts the router, and the router thread has a packet and
reads the pointer for it. -/
def fetchSteps : List Action := upSteps ++ [.main true] ++ List.replicate 4 .router

theorem call_live_up : ∃ s, session.Reach Exclusive s ∧ s.callOf .router = some (some 0) ∧
    ∃ x, some 0 = some x ∧ x < s.shared.next .connection ∧
      (s.shared.handles .connection x).closing = false ∧
      (s.shared.handles .connection x).closed = false := by
  have hrun : (session.exec Exclusive session.init fetchSteps).any
      (fun s => decide (s.callOf .router = some (some 0))) = true := by decide
  obtain ⟨s, hs, hcall⟩ := Machine.exists_reach_of_exec hrun
  exact ⟨s, hs, hcall, call_live hs hcall⟩

/-- **A call on a closed handle.** The router thread has read the pointer when the connection is
shut down by the peer and the connection thread closes it. -/
theorem call_closed : ¬∀ s, session.Reachable s → ∀ a h, s.callOf a = some h →
    ∃ x, h = some x ∧ x < s.shared.next .connection ∧
      (s.shared.handles .connection x).closing = false ∧
      (s.shared.handles .connection x).closed = false := by
  intro hclaim
  have hrun : (session.exec (fun _ _ => True) session.init
      (fetchSteps ++ [.event 0 .shutdownInitiatedByPeer, .callback 0, .callback 0] ++
        threadSteps 11)).any
      (fun s => decide (s.callOf .router = some (some 0) ∧
        (s.shared.handles .connection 0).closing = true)) = true := by decide
  obtain ⟨s, hs, hcall, hclosing⟩ := Machine.exists_reach_of_exec hrun
  obtain ⟨x, hx, -, hopen, -⟩ := hclaim s hs .router (some 0) hcall
  cases hx
  cases hclosing.symm.trans hopen

end Cfd.Tunnel.Session
