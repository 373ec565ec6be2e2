import Cfd.Base.Machine
import Mathlib.Tactic.Common

/-!
# Send contexts

`SendCtx` and `RpcSendCtx` of `src/tunnel/quic_client.cpp`: `send_packet` and `write` allocate a
context, release it into `DatagramSend` or `StreamSend`, take it back where the call fails, and return;
where it succeeds, the handlers of `DATAGRAM_SEND_STATE_CHANGED` and `SEND_COMPLETE` take it back, which
may be before `send_packet` or `write` has returned. A context is its number, in the order of the
allocations. What is freed and which promises are fulfilled is read off the history of a run.

The machine has any number of handles, each a connection or a stream, and takes any event for any
context; `contract` is what msquic is assumed to do with what it has accepted, and that the calls are
made on open handles. Of a context that it has not accepted msquic knows nothing: that the caller has
freed it when it returns is the code's doing (`Stage.over_of_returned`).

`Stage` is where a context and the call that made it stand, and `Stage.over` that nobody has a claim on
the context.
-/

set_option autoImplicit false

namespace Cfd.Tunnel.SendLedger

open Cfd.Base

/-! ## Contexts -/

/-- What a handle is, and so what its contexts are. -/
inductive Kind where
  /-- A connection: contexts are `SendCtx`, sent by `DatagramSend`. -/
  | connection
  /-- A stream: contexts are `RpcSendCtx`, sent by `StreamSend`. -/
  | stream
  deriving DecidableEq

/-- `QUIC_DATAGRAM_SEND_STATE`. -/
inductive DatagramSendState where
  | unknown
  | sent
  | lostSuspect
  | lostDiscarded
  | acknowledged
  | acknowledgedSpurious
  | canceled
  deriving DecidableEq

/-- What msquic has said of a context that it has accepted. -/
inductive Progress where
  /-- Nothing: it reads the buffer. -/
  | queued
  /-- `SENT` has been indicated. -/
  | sent
  /-- `CANCELED` has been indicated. -/
  | canceled
  /-- `SEND_COMPLETE` has been indicated. -/
  | completed
  deriving DecidableEq

/-- Where a context stands, and the call of `send_packet` or `write` that made it. -/
inductive Stage where
  /-- In the `unique_ptr` of the call. -/
  | owned
  /-- Released into `DatagramSend` or `StreamSend`. -/
  | calling
  /-- That has failed; the call is about to take the context back. -/
  | refused
  /-- Destroyed by the call, in an exception or after a failure; the call has returned or not. -/
  | destroyed (returned : Bool)
  /-- Accepted by msquic; the call has returned or not. -/
  | accepted (progress : Progress) (returned : Bool)
  deriving DecidableEq

/-- The call of `send_packet` or `write` has returned. -/
def Stage.returned : Stage → Bool
  | .destroyed returned => returned
  | .accepted _ returned => returned
  | _ => false

/-- What msquic has said, where it has accepted the context. -/
def Stage.progress : Stage → Option Progress
  | .accepted progress _ => some progress
  | _ => none

/-- msquic is done with the buffer, or never had it, and the caller holds it no longer. -/
def Stage.over : Stage → Bool
  | .destroyed _ => true
  | .accepted progress _ => progress ≠ .queued
  | _ => false

/-- **What a call leaves behind when it returns**: a context that is over, or that msquic has accepted
and is not done with. -/
theorem Stage.over_of_returned {stage : Stage} (hreturned : stage.returned = true)
    (hprogress : stage.progress ≠ some .queued) : stage.over = true := by
  cases stage with
  | owned | calling | refused => cases hreturned
  | destroyed returned => rfl
  | accepted progress returned => simpa [Stage.over, Stage.progress] using hprogress

/-- A context: the handle it was made for, and its stage. -/
structure Ctx (η : Type) where
  handle : η
  stage : Stage
  deriving DecidableEq

/-- All contexts ever made, and which handles have been closed. -/
structure State (η : Type) where
  ctxs : List (Ctx η)
  closed : η → Bool

/-- The steps of a call of `send_packet` or `write`: `make_unique`, an exception before msquic is
called, that call and its outcome, the reclaiming after a failure, the return; the two events; and the
return of `ConnectionClose` or `StreamClose`. -/
inductive Action (η : Type) where
  | alloc (h : η)
  | unwind (id : Nat)
  | call (id : Nat)
  | answer (id : Nat) (ok : Bool)
  | reclaim (id : Nat)
  | ret (id : Nat)
  | datagramSendStateChanged (id : Nat) (state : DatagramSendState)
  | sendComplete (id : Nat)
  | close (h : η)

variable {η : Type} [DecidableEq η]

/-- The move of a context from one stage to the next. -/
def State.move {η : Type} (s : State η) (id : Nat) (next : Stage → Option Stage) :
    Option (State η) :=
  match s.ctxs[id]? with
  | some c =>
    match next c.stage with
    | some stage => some { s with ctxs := s.ctxs.set id { c with stage } }
    | none => none
  | none => none

/-- What the steps of a call make of the stage, where they are its next. -/
def Stage.unwind : Stage → Option Stage
  | .owned => some (.destroyed false)
  | _ => none

def Stage.call : Stage → Option Stage
  | .owned => some .calling
  | _ => none

def Stage.answer (ok : Bool) : Stage → Option Stage
  | .calling => some (if ok then .accepted .queued false else .refused)
  | _ => none

def Stage.reclaim : Stage → Option Stage
  | .refused => some (.destroyed false)
  | _ => none

def Stage.ret : Stage → Option Stage
  | .destroyed false => some (.destroyed true)
  | .accepted progress false => some (.accepted progress true)
  | _ => none

/-- What an indication of a datagram's state makes of its stage. -/
def Stage.indicate : DatagramSendState → Stage → Stage
  | .sent, .accepted _ returned => .accepted .sent returned
  | .canceled, .accepted _ returned => .accepted .canceled returned
  | _, stage => stage

/-- What `SEND_COMPLETE` makes of it. -/
def Stage.complete : Stage → Stage
  | .accepted _ returned => .accepted .completed returned
  | stage => stage

/-- The handles of a process, and the contexts sent on them. -/
def ledger (η : Type) [DecidableEq η] : Machine (State η) (Action η) where
  init := ⟨[], fun _ => false⟩
  step := fun s a =>
    match a with
    | .alloc h => some { s with ctxs := s.ctxs ++ [⟨h, .owned⟩] }
    | .unwind id => s.move id Stage.unwind
    | .call id => s.move id Stage.call
    | .answer id ok => s.move id (Stage.answer ok)
    | .reclaim id => s.move id Stage.reclaim
    | .ret id => s.move id Stage.ret
    | .datagramSendStateChanged id state => s.move id fun stage => some (stage.indicate state)
    | .sendComplete id => s.move id fun stage => some stage.complete
    | .close h => some { s with closed := fun h' => if h' = h then true else s.closed h' }

/-! ## What the code does with a context -/

/-- The context that a step destroys: by the `unique_ptr` of its caller, or by that of a handler. -/
def State.frees {η : Type} (_ : State η) : Action η → List Nat
  | .unwind id => [id]
  | .reclaim id => [id]
  | .datagramSendStateChanged id state =>
    if state = .sent ∨ state = .canceled then [id] else []
  | .sendComplete id => [id]
  | _ => []

/-- The context whose promise a step fulfils. -/
def State.fulfills {η : Type} (_ : State η) : Action η → List Nat
  | .sendComplete id => [id]
  | _ => []

/-- The contexts that a run has freed, in order. -/
def frees (history : List (State η × Action η)) : List Nat :=
  Machine.emitted State.frees history

/-- The contexts whose promises a run has fulfilled, in order. -/
def fulfillments (history : List (State η × Action η)) : List Nat :=
  Machine.emitted State.fulfills history

/-! ## What is assumed of msquic -/

/-- Which steps msquic takes, and that the code sends on open handles only: a datagram that it has
accepted is indicated `SENT` or `CANCELED`, and after `SENT` any number of the other states; a stream
send that it has accepted is indicated `SEND_COMPLETE`; and a close returns when nothing that was
accepted on the handle waits for any of it. No call on the handle is in progress then. -/
def contract (kind : η → Kind) (s : State η) : Action η → Prop
  | .alloc h => s.closed h = false
  | .datagramSendStateChanged id state =>
    ∃ c ∈ s.ctxs[id]?, s.closed c.handle = false ∧ kind c.handle = .connection ∧
      if state = .sent ∨ state = .canceled then c.stage.progress = some .queued
      else state ≠ .unknown ∧ c.stage.progress = some .sent
  | .sendComplete id =>
    ∃ c ∈ s.ctxs[id]?, s.closed c.handle = false ∧ kind c.handle = .stream ∧
      c.stage.progress = some .queued
  | .close h => ∀ c ∈ s.ctxs, c.handle = h →
      c.stage.returned = true ∧ c.stage.progress ≠ some .queued
  | _ => True

/-- A step of the call that made the context. -/
def Action.isCall (id : Nat) : Action η → Bool
  | .unwind id' | .call id' | .answer id' _ | .reclaim id' | .ret id' => id' = id
  | _ => false

/-! ## Moves -/

/-- From which stage to which a step takes a context. -/
inductive Advance : Action η → Nat → Stage → Stage → Prop
  | unwind {id : Nat} : Advance (.unwind id) id .owned (.destroyed false)
  | call {id : Nat} : Advance (.call id) id .owned .calling
  | accepted {id : Nat} : Advance (.answer id true) id .calling (.accepted .queued false)
  | refused {id : Nat} : Advance (.answer id false) id .calling .refused
  | reclaim {id : Nat} : Advance (.reclaim id) id .refused (.destroyed false)
  | retDestroyed {id : Nat} : Advance (.ret id) id (.destroyed false) (.destroyed true)
  | retAccepted {id : Nat} {progress : Progress} :
      Advance (.ret id) id (.accepted progress false) (.accepted progress true)
  | indicated {id : Nat} {state : DatagramSendState} {stage : Stage} :
      Advance (.datagramSendStateChanged id state) id stage (stage.indicate state)
  | completed {id : Nat} {stage : Stage} : Advance (.sendComplete id) id stage stage.complete

omit [DecidableEq η] in
theorem move_eq_some {s s' : State η} {id : Nat} {next : Stage → Option Stage}
    (h : s.move id next = some s') : ∃ c stage, s.ctxs[id]? = some c ∧ next c.stage = some stage ∧
      s' = { s with ctxs := s.ctxs.set id { c with stage } } := by
  unfold State.move at h
  split at h
  next c hc =>
    split at h
    next stage hstage =>
      cases h
      exact ⟨c, stage, hc, hstage, rfl⟩
    next => cases h
  next => cases h

/-- What a step does to the state. -/
inductive Moves (s : State η) : Action η → State η → Prop
  | alloc {h : η} : Moves s (.alloc h) { s with ctxs := s.ctxs ++ [⟨h, .owned⟩] }
  | advance {a : Action η} {id : Nat} {c : Ctx η} {stage : Stage} (hc : s.ctxs[id]? = some c)
      (hadvance : Advance a id c.stage stage) :
      Moves s a { s with ctxs := s.ctxs.set id { c with stage } }
  | close {h : η} : Moves s (.close h)
      { s with closed := fun h' => if h' = h then true else s.closed h' }

theorem moves_of_move {s s' : State η} {a : Action η} {id : Nat} {next : Stage → Option Stage}
    (h : s.move id next = some s')
    (hnext : ∀ stage stage', next stage = some stage' → Advance a id stage stage') :
    Moves s a s' := by
  obtain ⟨c, stage, hc, hstage, rfl⟩ := move_eq_some h
  exact .advance hc (hnext _ _ hstage)

/-- Every step is a move. -/
theorem step_moves {s s' : State η} {a : Action η} (h : (ledger η).step s a = some s') :
    Moves s a s' := by
  cases a with
  | alloc h' => cases h; exact .alloc
  | unwind id =>
    refine moves_of_move h fun stage stage' hnext => ?_
    cases stage <;> cases hnext
    exact .unwind
  | call id =>
    refine moves_of_move h fun stage stage' hnext => ?_
    cases stage <;> cases hnext
    exact .call
  | answer id ok =>
    refine moves_of_move h fun stage stage' hnext => ?_
    cases stage <;> cases hnext
    cases ok with
    | true => exact .accepted
    | false => exact .refused
  | reclaim id =>
    refine moves_of_move h fun stage stage' hnext => ?_
    cases stage <;> cases hnext
    exact .reclaim
  | ret id =>
    refine moves_of_move h fun stage stage' hnext => ?_
    cases stage with
    | destroyed returned =>
      cases returned <;> cases hnext
      exact .retDestroyed
    | accepted progress returned =>
      cases returned <;> cases hnext
      exact .retAccepted
    | _ => cases hnext
  | datagramSendStateChanged id state =>
    have hmove : s.move id (fun stage => some (stage.indicate state)) = some s' := h
    refine moves_of_move hmove fun stage stage' hnext => ?_
    cases hnext
    exact .indicated
  | sendComplete id =>
    have hmove : s.move id (fun stage => some stage.complete) = some s' := h
    refine moves_of_move hmove fun stage stage' hnext => ?_
    cases hnext
    exact .completed
  | close h' => cases h; exact .close

/-! ## Accounts -/

/-- The log has each context once whose stage has `P`, and no other. -/
def Counts (log : List Nat) (ctxs : List (Ctx η)) (P : Stage → Bool) : Prop :=
  ∀ id, log.count id = if (ctxs[id]?).any fun c => P c.stage then 1 else 0

omit [DecidableEq η] in
theorem Counts.snoc {log : List Nat} {ctxs : List (Ctx η)} {P : Stage → Bool}
    (h : Counts log ctxs P) {c : Ctx η} (hc : P c.stage = false) : Counts log (ctxs ++ [c]) P := by
  intro id
  rw [h id]
  by_cases hid : id < ctxs.length
  · rw [List.getElem?_append_left hid]
  · rw [List.getElem?_eq_none (Nat.le_of_not_lt hid),
      List.getElem?_append_right (Nat.le_of_not_lt hid)]
    cases hrest : ([c] : List (Ctx η))[id - ctxs.length]? with
    | none => rfl
    | some c' =>
      obtain rfl := List.mem_singleton.mp (List.mem_of_getElem? hrest)
      simp only [Option.any_none, Option.any_some, hc]

omit [DecidableEq η] in
/-- A context that comes to have `P` is logged, and one that has it keeps it. -/
theorem Counts.set {log : List Nat} {ctxs : List (Ctx η)} {P : Stage → Bool}
    (h : Counts log ctxs P) {id : Nat} {c : Ctx η} {stage : Stage} (hc : ctxs[id]? = some c)
    (hkeep : P c.stage = true → P stage = true) :
    Counts (log ++ if P stage = P c.stage then [] else [id]) (ctxs.set id { c with stage }) P := by
  intro j
  have hlt := (List.getElem?_eq_some_iff.mp hc).1
  rw [List.count_append, h j]
  by_cases hj : id = j
  · subst hj
    rw [List.getElem?_set_self hlt, hc]
    simp only [Option.any_some]
    by_cases hold : P c.stage = true
    · have hnew := hkeep hold
      rw [if_pos hold, if_pos (hnew.trans hold.symm), if_pos hnew]
      rfl
    · by_cases hnew : P stage = true
      · rw [if_neg hold, if_neg fun heq => hold (heq.symm.trans hnew), if_pos hnew,
          List.count_singleton_self]
      · have heq : P stage = P c.stage := by
          rw [Bool.eq_false_iff.mpr hold, Bool.eq_false_iff.mpr hnew]
        rw [if_neg hold, if_pos heq, if_neg hnew]
        rfl
  · rw [List.getElem?_set_ne hj]
    have hnone : (if P stage = P c.stage then [] else [id]).count j = 0 := by
      split
      · rfl
      · exact List.count_eq_zero.mpr fun hmem => hj (List.mem_singleton.mp hmem).symm
    rw [hnone, Nat.add_zero]

/-- `SEND_COMPLETE` has been indicated. -/
def Stage.isCompleted (stage : Stage) : Bool := stage.progress = some .completed

theorem Stage.eq_accepted {stage : Stage} {progress : Progress} (h : stage.progress = some progress) :
    ∃ returned, stage = .accepted progress returned := by
  cases stage with
  | accepted progress' returned =>
    cases h
    exact ⟨returned, rfl⟩
  | _ => cases h

omit [DecidableEq η] in
/-- What each step of `contract` frees and fulfils: a context is freed when it comes to be over, and
its promise fulfilled when it comes to be completed. -/
theorem Advance.balance {kind : η → Kind} {s : State η} {a : Action η} {id : Nat} {c : Ctx η}
    {stage : Stage} (h : Advance a id c.stage stage) (hc : s.ctxs[id]? = some c)
    (hguard : contract kind s a) :
    s.frees a = (if stage.over = c.stage.over then [] else [id]) ∧
      s.fulfills a = (if stage.isCompleted = c.stage.isCompleted then [] else [id]) ∧
      (c.stage.over = true → stage.over = true) ∧
      (c.stage.isCompleted = true → stage.isCompleted = true) := by
  obtain ⟨handle, old⟩ := c
  cases h with
  | unwind => exact ⟨rfl, rfl, nofun, nofun⟩
  | call => exact ⟨rfl, rfl, nofun, nofun⟩
  | accepted => exact ⟨rfl, rfl, nofun, nofun⟩
  | refused => exact ⟨rfl, rfl, nofun, nofun⟩
  | reclaim => exact ⟨rfl, rfl, nofun, nofun⟩
  | retDestroyed => exact ⟨rfl, rfl, fun hover => hover, fun hcompleted => hcompleted⟩
  | retAccepted =>
    exact ⟨(if_pos rfl).symm, (if_pos rfl).symm, fun hover => hover, fun hcompleted => hcompleted⟩
  | @indicated id state old =>
    obtain ⟨c', hc', -, -, hstage⟩ := hguard
    cases hc.symm.trans hc'
    by_cases hfinal : state = .sent ∨ state = .canceled
    · rw [if_pos hfinal] at hstage
      obtain ⟨returned, rfl⟩ : ∃ returned, old = .accepted .queued returned := Stage.eq_accepted hstage
      rcases hfinal with rfl | rfl
      · exact ⟨rfl, rfl, nofun, nofun⟩
      · exact ⟨rfl, rfl, nofun, nofun⟩
    · rw [if_neg hfinal] at hstage
      have hkept : old.indicate state = old := by
        rw [not_or] at hfinal
        cases state with
        | sent => exact absurd rfl hfinal.1
        | canceled => exact absurd rfl hfinal.2
        | _ => rfl
      rw [hkept, State.frees, if_neg hfinal]
      exact ⟨(if_pos rfl).symm, (if_pos rfl).symm, fun hover => hover, fun hcompleted => hcompleted⟩
  | completed =>
    obtain ⟨c', hc', -, -, hstage⟩ := hguard
    cases hc.symm.trans hc'
    obtain ⟨returned, rfl⟩ : ∃ returned, old = .accepted .queued returned := Stage.eq_accepted hstage
    exact ⟨rfl, rfl, nofun, nofun⟩

/-- A call that has not returned has a next step. -/
theorem call_enabled {kind : η → Kind} {s : State η} {id : Nat} {c : Ctx η}
    (hc : s.ctxs[id]? = some c) (hreturned : c.stage.returned = false) :
    ∃ a : Action η, a.isCall id = true ∧ contract kind s a ∧ ((ledger η).step s a).isSome = true := by
  have henabled : ∀ next : Stage → Option Stage, (next c.stage).isSome = true →
      (s.move id next).isSome = true := by
    intro next hnext
    obtain ⟨stage, hstage⟩ := Option.isSome_iff_exists.mp hnext
    simp only [State.move, hc, hstage, Option.isSome_some]
  cases hstage : c.stage with
  | owned => exact ⟨.call id, decide_eq_true rfl, trivial, henabled _ (by rw [hstage]; rfl)⟩
  | calling => exact ⟨.answer id true, decide_eq_true rfl, trivial, henabled _ (by rw [hstage]; rfl)⟩
  | refused => exact ⟨.reclaim id, decide_eq_true rfl, trivial, henabled _ (by rw [hstage]; rfl)⟩
  | destroyed returned | accepted progress returned =>
    rw [hstage] at hreturned
    obtain rfl : returned = false := hreturned
    exact ⟨.ret id, decide_eq_true rfl, trivial, henabled _ (by rw [hstage]; rfl)⟩

/-- The accounts of a run, and that nothing of a closed handle is open. -/
structure Balanced (history : List (State η × Action η)) (s : State η) : Prop where
  freed : Counts (frees history) s.ctxs Stage.over
  fulfilled : Counts (fulfillments history) s.ctxs Stage.isCompleted
  closed : ∀ c ∈ s.ctxs, s.closed c.handle = true → c.stage.over = true

theorem Balanced.step {kind : η → Kind} {history : List (State η × Action η)} {s s' : State η}
    {a : Action η} (h : Balanced history s) (hguard : contract kind s a) (hmove : Moves s a s') :
    Balanced (history ++ [(s, a)]) s' := by
  cases hmove with
  | alloc =>
    refine ⟨?_, ?_, fun c hc hclosed => ?_⟩
    · rw [frees, Machine.emitted_snoc]
      exact (List.append_nil (frees history)).symm ▸ h.freed.snoc rfl
    · rw [fulfillments, Machine.emitted_snoc]
      exact (List.append_nil (fulfillments history)).symm ▸ h.fulfilled.snoc rfl
    · rcases List.mem_append.mp hc with hold | hnew
      · exact h.closed c hold hclosed
      · obtain rfl := List.mem_singleton.mp hnew
        exact nomatch hclosed.symm.trans hguard
  | @advance _ id c stage hc hadvance =>
    obtain ⟨hfrees, hfulfills, hover, hcompleted⟩ := hadvance.balance hc hguard
    refine ⟨?_, ?_, fun c' hc' hclosed => ?_⟩
    · rw [frees, Machine.emitted_snoc, hfrees]
      exact h.freed.set hc hover
    · rw [fulfillments, Machine.emitted_snoc, hfulfills]
      exact h.fulfilled.set hc hcompleted
    · rcases List.mem_or_eq_of_mem_set hc' with hold | rfl
      · exact h.closed c' hold hclosed
      · exact hover (h.closed c (List.mem_of_getElem? hc) hclosed)
  | @close handle =>
    refine ⟨?_, ?_, fun c hc hclosed => ?_⟩
    · rw [frees, Machine.emitted_snoc]
      exact (List.append_nil (frees history)).symm ▸ h.freed
    · rw [fulfillments, Machine.emitted_snoc]
      exact (List.append_nil (fulfillments history)).symm ▸ h.fulfilled
    · by_cases hhandle : c.handle = handle
      · exact Stage.over_of_returned (hguard c hc hhandle).1 (hguard c hc hhandle).2
      · refine h.closed c hc ?_
        simpa only [if_neg hhandle] using hclosed

/-- **Send contexts are reclaimed exactly once.** After any run in which msquic keeps its contract,
for every context made in it:

* it has been freed once if msquic and its caller are done with it, and not at all before that; so while
  msquic or the call has it, it has not been freed, and once the call has returned and msquic, if it has
  accepted it, is done with it, it has been;
* if its connection or stream has been closed, it has been freed, whether it was accepted, refused or
  never given to msquic;
* its promise has been fulfilled once if its `SEND_COMPLETE` has been indicated, and else not at all;
* as long as the call that made it has not returned, that call has a step to take.

Nothing else has been freed or fulfilled. -/
theorem reclaimed_once {kind : η → Kind} {history : List (State η × Action η)} {s : State η}
    (h : (ledger η).Run (contract kind) history s) :
    (∀ id c, s.ctxs[id]? = some c →
      (frees history).count id = (if c.stage.over then 1 else 0) ∧
      (c.stage.returned = true → c.stage.progress ≠ some .queued → (frees history).count id = 1) ∧
      (s.closed c.handle = true → (frees history).count id = 1) ∧
      (fulfillments history).count id = (if c.stage.progress = some .completed then 1 else 0) ∧
      (c.stage.returned = false → ∃ a : Action η, a.isCall id = true ∧ contract kind s a ∧
        ((ledger η).step s a).isSome = true)) ∧
      (∀ id ∈ frees history, id < s.ctxs.length) ∧
      ∀ id ∈ fulfillments history, id < s.ctxs.length := by
  have hs : Balanced history s := h.invariant (I := Balanced)
    ⟨fun _ => rfl, fun _ => rfl, by intro c hc; cases hc⟩ fun _ _ _ _ _ hguard hstep hs =>
      hs.step hguard (step_moves hstep)
  have hmade : ∀ {log : List Nat} {P : Stage → Bool}, Counts log s.ctxs P →
      ∀ id ∈ log, id < s.ctxs.length := by
    intro log P hlog id hid
    by_contra hlt
    have hcount := hlog id
    rw [List.getElem?_eq_none (Nat.le_of_not_lt hlt)] at hcount
    exact List.count_eq_zero.mp hcount hid
  refine ⟨fun id c hc => ?_, hmade hs.freed, hmade hs.fulfilled⟩
  have hfreed := hs.freed id
  have hfulfilled := hs.fulfilled id
  rw [hc, Option.any_some] at hfreed hfulfilled
  refine ⟨hfreed, fun hreturned hprogress => ?_, fun hclosed => ?_, ?_, call_enabled hc⟩
  · rw [hfreed, if_pos (Stage.over_of_returned hreturned hprogress)]
  · rw [hfreed, if_pos (hs.closed c (List.mem_of_getElem? hc) hclosed)]
  · rw [hfulfilled, Stage.isCompleted]
    simp only [decide_eq_true_eq]

instance (kind : η → Kind) (s : State η) : ∀ a : Action η, Decidable (contract kind s a)
  | .alloc _ => inferInstanceAs (Decidable (_ = _))
  | .datagramSendStateChanged _ _ => inferInstanceAs (Decidable (∃ c ∈ _, _ ∧ _ ∧ ite _ _ _))
  | .sendComplete _ => inferInstanceAs (Decidable (∃ c ∈ _, _ ∧ _ ∧ _))
  | .close _ => inferInstanceAs (Decidable (∀ c ∈ _, _ → _))
  | .unwind _ => inferInstanceAs (Decidable True)
  | .call _ => inferInstanceAs (Decidable True)
  | .answer _ _ => inferInstanceAs (Decidable True)
  | .reclaim _ => inferInstanceAs (Decidable True)
  | .ret _ => inferInstanceAs (Decidable True)

/-- One connection: a datagram that is sent before its call has returned, and acknowledged, one that is
refused, one whose call has thrown, and the close. -/
def threeDatagrams : List (Action Unit) :=
  [.alloc (), .call 0, .alloc (), .answer 0 true, .datagramSendStateChanged 0 .sent, .call 1, .ret 0,
    .answer 1 false, .datagramSendStateChanged 0 .acknowledged, .reclaim 1, .ret 1, .alloc (), .unwind 2,
    .ret 2, .close ()]

theorem reclaimed_once_three : ∃ history s,
    (ledger Unit).Run (contract fun _ => .connection) history s ∧ s.closed () = true ∧
    (frees history).count 0 = 1 ∧ (frees history).count 1 = 1 ∧ (frees history).count 2 = 1 := by
  have hexec : (ledger Unit).exec (contract fun _ => .connection) (ledger Unit).init threeDatagrams =
    some _ := rfl
  obtain ⟨history, hrun⟩ := (Machine.reach_of_exec hexec).exists_run
  have hcounts := (reclaimed_once hrun).1
  exact ⟨history, _, hrun, rfl, (hcounts 0 _ rfl).2.2.1 rfl, (hcounts 1 _ rfl).2.2.1 rfl,
    (hcounts 2 _ rfl).2.2.1 rfl⟩

end Cfd.Tunnel.SendLedger
