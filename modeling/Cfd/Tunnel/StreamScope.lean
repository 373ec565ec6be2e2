import Cfd.Base.Machine

/-!
# The scope of a registration

What `register_connection` of `src/tunnel/quic_client.cpp` builds and takes down again, whichever of its
calls fails: the stream object, the RPC client over it, and the watchdog, which holds the object by
reference. The members of `MsquicAsyncStream` are destroyed in the reverse order of their declaration,
so `read_wakeup_`, `recv_queue_` and `mu_`, which its callbacks use, go before `stream_`, whose deleter
is what waits for the callbacks.

`stream_closed_once` is what holds of the handle in spite of that: it is closed once, on every way out,
and passed to msquic only while it is open; and the watchdog runs only while the object is whole.
`exposed_iff` is what the order costs: from the moment the members are gone until `StreamClose` has
returned, an event is all it takes for a callback to lock a mutex that is no more, and every
registration whose stream has started goes through that. Only where `StreamStart` fails is the handle
reset first.

Assumed of msquic is that the callbacks of a stream come one at a time, and only between `StreamOpen`
and the return of `StreamClose`, which waits for the one that is running.
-/

set_option autoImplicit false

namespace Cfd.Tunnel.StreamScope

open Cfd.Base

/-! ## The source -/

/-- Where `stream_` is reset: behind a `StreamStart` that has failed, or by the destructor. -/
inductive Site where
  | startFailed
  | destructor
  deriving DecidableEq

/-- Where the registration thread is. -/
inductive Pc where
  /-- Outside of the scope. -/
  | idle
  /-- In the constructor of the stream, about to call `StreamOpen`. -/
  | openStream
  /-- About to call `StreamStart`. -/
  | startStream
  /-- Making the RPC client, and asking it for the bootstrap capability. -/
  | client
  /-- Making the thread of the watchdog. -/
  | spawn
  /-- Building the request, sending it, and waiting. -/
  | call
  /-- Answered; about to store `done`. -/
  | answered
  /-- Reading the result. -/
  | reading
  /-- `KJ_DEFER`: about to store `done`. -/
  | leaving
  /-- In `watchdog.join`. -/
  | joining
  /-- Destroying the RPC client. -/
  | dropClient
  /-- Destroying the members that were declared behind `stream_`. -/
  | dropMembers
  /-- About to call `StreamClose`. -/
  | close (site : Site)
  /-- In `StreamClose`. -/
  | drain (site : Site)
  /-- The constructor has thrown: destroying the members, `stream_` being null. -/
  | unwind
  deriving DecidableEq

/-- A stream at msquic. -/
inductive Phase where
  | none
  | live
  | closing
  deriving DecidableEq

/-- Where `onEvent` is. `lock` and `inside` are the section that holds `mu_`; `fulfil` uses nothing of
the object. -/
inductive CallbackPc where
  | none
  | lock
  | inside
  | fulfil
  deriving DecidableEq

inductive WatchdogPc where
  | absent
  | asleep
  /-- About to test `done`. -/
  | testing
  /-- About to call `stream->abort`. -/
  | aborting
  | exited
  deriving DecidableEq

/-- The thread, the members of the stream object, its handle, and how many streams have been opened. -/
structure State where
  pc : Pc := .idle
  /-- `mu_`, `recv_queue_`, `eof_` and `read_wakeup_` are constructed. -/
  members : Bool := false
  phase : Phase := .none
  callback : CallbackPc := .none
  watchdog : WatchdogPc := .absent
  done : Bool := false
  opened : Nat := 0
  deriving DecidableEq

/-- What can happen. -/
inductive Action where
  /-- The thread takes the next work. -/
  | register
  /-- The next step of the thread; not `ok` where a call fails or throws. -/
  | proceed (ok : Bool)
  /-- The RPC client reads or writes, or shuts the stream down. -/
  | use
  /-- msquic calls `onEvent`, for an event whose branch locks `mu_`, or for another one. -/
  | deliver (locks : Bool)
  | callback
  | watchdog
  deriving DecidableEq

/-- The next step of the registration thread. -/
def State.proceed (s : State) (ok : Bool) : Option State :=
  match s.pc with
  | .idle => none
  | .openStream =>
    some (if ok then { s with pc := .startStream, phase := .live, opened := s.opened + 1 }
      else { s with pc := .unwind })
  | .startStream => some { s with pc := if ok then .client else .close .startFailed }
  | .client => some { s with pc := if ok then .spawn else .dropClient }
  | .spawn =>
    some (if ok then { s with pc := .call, watchdog := .asleep } else { s with pc := .dropClient })
  | .call => some { s with pc := if ok then .answered else .leaving }
  | .answered => some { s with pc := .reading, done := true }
  | .reading => some { s with pc := .leaving }
  | .leaving => some { s with pc := .joining, done := true }
  | .joining =>
    if s.watchdog = .exited then some { s with pc := .dropClient, watchdog := .absent } else none
  | .dropClient => some { s with pc := .dropMembers }
  | .dropMembers => some { s with pc := .close .destructor, members := false }
  | .close site => some { s with pc := .drain site, phase := .closing }
  | .drain site =>
    if s.callback = .none then
      some { s with pc := if site = .startFailed then .unwind else .idle, phase := .none }
    else none
  | .unwind => some { s with pc := .idle, members := false }

/-- The RPC client exists, or is being made or destroyed. -/
def Pc.inClient : Pc → Bool
  | .client | .call | .reading | .dropClient => true
  | _ => false

/-- `onEvent`. -/
def CallbackPc.next : CallbackPc → Option CallbackPc
  | .none => .none
  | .lock => some .inside
  | .inside => some .fulfil
  | .fulfil => some .none

/-- The lambda of the watchdog. -/
def WatchdogPc.next (done : Bool) : WatchdogPc → Option WatchdogPc
  | .absent | .exited => none
  | .asleep => some .testing
  | .testing => some (if done then .exited else .aborting)
  | .aborting => some .exited

/-- Registrations one after another, with their watchdogs and the events of their streams. -/
def registrations : Machine State Action where
  init := {}
  step := fun s a =>
    match a with
    | .register =>
      if s.pc = .idle then some { s with pc := .openStream, members := true, done := false } else none
    | .proceed ok => s.proceed ok
    | .use => if s.pc.inClient then some s else none
    | .deliver locks =>
      if s.phase ≠ .none ∧ s.callback = .none then
        some { s with callback := if locks then .lock else .fulfil }
      else none
    | .callback => s.callback.next.map fun c => { s with callback := c }
    | .watchdog => (s.watchdog.next s.done).map fun w => { s with watchdog := w }

/-! ## What is to hold -/

/-- The step passes the handle to msquic. -/
def State.UsesHandle (s : State) : Action → Prop
  | .proceed _ => s.pc = .startStream ∨ ∃ site, s.pc = .close site
  | .use => True
  | .watchdog => s.watchdog = .aborting
  | _ => False

/-- The step uses `mu_` and what it guards. -/
def State.UsesMembers (s : State) : Action → Prop
  | .use => True
  | .callback => s.callback = .lock ∨ s.callback = .inside
  | _ => False

/-- The stream that the step calls `StreamClose` for. -/
def State.closes (s : State) : Action → List Nat
  | .proceed _ =>
    match s.pc with
    | .close _ => [s.opened - 1]
    | _ => []
  | _ => []

/-- The members are gone, and callbacks may still come. -/
def State.InWindow (s : State) : Prop :=
  s.pc = .close .destructor ∨ s.pc = .drain .destructor

/-- A step of msquic. -/
def Action.ofMsquic : Action → Bool
  | .deliver _ | .callback => true
  | _ => false

/-- Steps of msquic alone can bring a callback to use members that are not there. -/
def State.Exposed (s : State) : Prop :=
  ∃ t t', (registrations.after s).Reach (fun _ a => a.ofMsquic = true) t ∧
    registrations.step t .callback = some t' ∧ t.UsesMembers .callback ∧ t.members = false

/-- The step is a `StreamStart` that succeeds. -/
def State.starts (s : State) : Action → Bool
  | .proceed ok => s.pc = .startStream ∧ ok = true
  | _ => false

/-- The step destroys the members while the handle is open. -/
def State.exposes (s : State) : Action → Bool
  | .proceed _ => s.pc = .dropMembers
  | _ => false

/-! ## What a position says -/

/-- What msquic has of the stream. -/
def Pc.phase : Pc → Phase
  | .idle | .openStream | .unwind => .none
  | .drain _ => .closing
  | _ => .live

/-- The members are constructed. -/
def Pc.members : Pc → Bool
  | .idle | .close .destructor | .drain .destructor => false
  | _ => true

/-- The watchdog exists. -/
def Pc.watched : Pc → Bool
  | .call | .answered | .reading | .leaving | .joining => true
  | _ => false

/-- The stream has started, and its members are there. -/
def Pc.underWay : Pc → Bool
  | .client | .spawn | .call | .answered | .reading | .leaving | .joining | .dropClient
  | .dropMembers => true
  | _ => false

/-- The position of the thread says what there is. -/
structure State.Sound (s : State) : Prop where
  phase : s.phase = s.pc.phase
  members : s.members = s.pc.members
  watched : s.watchdog ≠ .absent → s.pc.watched = true
  called : s.callback ≠ .none → s.phase ≠ .none
  counted : s.phase = .live → 0 < s.opened

variable {s s' : State}

namespace State.Sound

/-- A step of the thread that neither makes nor destroys anything. -/
theorem goto (h : s.Sound) {p pc : Pc} (hpc : s.pc = p) (done : Bool)
    (hlike : pc.phase = p.phase ∧ pc.members = p.members ∧ (p.watched = true → pc.watched = true)) :
    { s with pc := pc, done := done }.Sound := by
  obtain ⟨hphase, hmembers, hwatched⟩ := hlike
  subst hpc
  exact ⟨h.phase.trans hphase.symm, h.members.trans hmembers.symm,
    fun hne => hwatched (h.watched hne), h.called, h.counted⟩

/-- Where there is no watchdog. -/
theorem unwatched (h : s.Sound) (hpc : s.pc.watched = false) : s.watchdog = .absent := by
  by_cases hne : s.watchdog = .absent
  · exact hne
  · have hwatched := h.watched hne
    rw [hpc] at hwatched
    cases hwatched

theorem proceed {ok : Bool} (h : s.Sound) (hstep : s.proceed ok = some s') : s'.Sound := by
  have hphase := h.phase
  have hmembers := h.members
  unfold State.proceed at hstep
  split at hstep
  next => cases hstep
  next hpc => -- `StreamOpen`
    have habsent := h.unwatched (by rw [hpc]; rfl)
    cases ok with
    | false =>
      cases hstep
      exact h.goto hpc s.done (by decide)
    | true =>
      cases hstep
      rw [hpc] at hmembers
      exact ⟨rfl, hmembers, fun hne => absurd habsent hne, fun _ => Phase.noConfusion,
        fun _ => Nat.succ_pos _⟩
  next hpc => -- `StreamStart`
    cases ok <;> cases hstep <;> exact h.goto hpc s.done (by decide)
  next hpc =>
    cases ok <;> cases hstep <;> exact h.goto hpc s.done (by decide)
  next hpc => -- the watchdog starts
    cases ok with
    | false =>
      cases hstep
      exact h.goto hpc s.done (by decide)
    | true =>
      cases hstep
      rw [hpc] at hmembers hphase
      exact ⟨hphase, hmembers, fun _ => rfl, h.called, h.counted⟩
  next hpc =>
    cases ok <;> cases hstep <;> exact h.goto hpc s.done (by decide)
  next hpc => cases hstep; exact h.goto hpc true (by decide)
  next hpc => cases hstep; exact h.goto hpc s.done (by decide)
  next hpc => cases hstep; exact h.goto hpc true (by decide)
  next hpc => -- `join` returns
    split at hstep
    next =>
      cases hstep
      rw [hpc] at hmembers hphase
      exact ⟨hphase, hmembers, fun hne => absurd rfl hne, h.called, h.counted⟩
    next => cases hstep
  next hpc => cases hstep; exact h.goto hpc s.done (by decide)
  next hpc => -- the members are destroyed
    have habsent := h.unwatched (by rw [hpc]; rfl)
    cases hstep
    rw [hpc] at hphase
    exact ⟨hphase, rfl, fun hne => absurd habsent hne, h.called, h.counted⟩
  next site hpc => -- `StreamClose`
    have habsent := h.unwatched (by rw [hpc]; rfl)
    cases hstep
    rw [hpc] at hmembers
    refine ⟨rfl, ?_, fun hne => absurd habsent hne, fun _ => Phase.noConfusion, Phase.noConfusion⟩
    cases site <;> exact hmembers
  next site hpc => -- it returns
    have habsent := h.unwatched (by rw [hpc]; rfl)
    split at hstep
    next hnone =>
      cases hstep
      rw [hpc] at hmembers
      refine ⟨?_, ?_, fun hne => absurd habsent hne, fun hne => absurd hnone hne, Phase.noConfusion⟩
      · cases site <;> rfl
      · cases site <;> exact hmembers
    next => cases hstep
  next hpc =>
    have habsent := h.unwatched (by rw [hpc]; rfl)
    cases hstep
    rw [hpc] at hphase
    exact ⟨hphase, rfl, fun hne => absurd habsent hne, h.called, h.counted⟩

theorem step {a : Action} (h : s.Sound) (hstep : registrations.step s a = some s') : s'.Sound := by
  cases a with
  | proceed ok => exact h.proceed hstep
  | register =>
    simp only [registrations] at hstep
    split at hstep
    next hpc =>
      have habsent := h.unwatched (by rw [hpc]; rfl)
      have hphase := h.phase
      cases hstep
      rw [hpc] at hphase
      exact ⟨hphase, rfl, fun hne => absurd habsent hne, h.called, h.counted⟩
    next => cases hstep
  | use =>
    simp only [registrations] at hstep
    split at hstep
    next => cases hstep; exact h
    next => cases hstep
  | deliver locks =>
    simp only [registrations] at hstep
    split at hstep
    next hopen =>
      cases hstep
      exact ⟨h.phase, h.members, h.watched, fun _ => hopen.1, h.counted⟩
    next => cases hstep
  | callback =>
    simp only [registrations, Option.map_eq_some_iff] at hstep
    obtain ⟨c, hnext, rfl⟩ := hstep
    refine ⟨h.phase, h.members, h.watched, fun _ => h.called fun hnone => ?_, h.counted⟩
    rw [hnone] at hnext
    cases hnext
  | watchdog =>
    simp only [registrations, Option.map_eq_some_iff] at hstep
    obtain ⟨w, hnext, rfl⟩ := hstep
    refine ⟨h.phase, h.members, fun _ => h.watched fun habsent => ?_, h.called, h.counted⟩
    rw [habsent] at hnext
    cases hnext

end State.Sound

theorem sound_of_reach (h : registrations.Reachable s) : s.Sound :=
  h.invariant ⟨rfl, rfl, fun hne => absurd rfl hne, fun hne => absurd rfl hne, Phase.noConfusion⟩
    fun _ _ _ _ _ hstep hs => hs.step hstep

/-- A step that is not the thread's, or its next registration. -/
theorem step_cases {a : Action} (hstep : registrations.step s a = some s') :
    (∃ ok, a = .proceed ok ∧ s.proceed ok = some s') ∨
      (s'.opened = s.opened ∧ s'.phase = s.phase ∧
        (s'.pc = s.pc ∨ s.pc = .idle ∧ s'.pc = .openStream) ∧
        s.closes a = [] ∧ s.starts a = false ∧ s.exposes a = false) := by
  cases a with
  | proceed ok => exact Or.inl ⟨ok, rfl, hstep⟩
  | register =>
    simp only [registrations] at hstep
    split at hstep
    next hpc => cases hstep; exact Or.inr ⟨rfl, rfl, Or.inr ⟨hpc, rfl⟩, rfl, rfl, rfl⟩
    next => cases hstep
  | use =>
    simp only [registrations] at hstep
    split at hstep
    next => cases hstep; exact Or.inr ⟨rfl, rfl, Or.inl rfl, rfl, rfl, rfl⟩
    next => cases hstep
  | deliver locks =>
    simp only [registrations] at hstep
    split at hstep
    next => cases hstep; exact Or.inr ⟨rfl, rfl, Or.inl rfl, rfl, rfl, rfl⟩
    next => cases hstep
  | callback =>
    simp only [registrations, Option.map_eq_some_iff] at hstep
    obtain ⟨c, -, rfl⟩ := hstep
    exact Or.inr ⟨rfl, rfl, Or.inl rfl, rfl, rfl, rfl⟩
  | watchdog =>
    simp only [registrations, Option.map_eq_some_iff] at hstep
    obtain ⟨w, -, rfl⟩ := hstep
    exact Or.inr ⟨rfl, rfl, Or.inl rfl, rfl, rfl, rfl⟩

/-! ## The handle -/

/-- How many streams have been closed: all but the one that is live. -/
def State.closed (s : State) : Nat := if s.phase = .live then s.opened - 1 else s.opened

theorem closed_live (hphase : s.phase = .live) : s.closed = s.opened - 1 := by
  rw [State.closed, if_pos hphase]

theorem closed_other (hphase : s.phase ≠ .live) : s.closed = s.opened := by
  rw [State.closed, if_neg hphase]

/-- A stream is opened where none is live, and closed where one is. -/
theorem closed_proceed {ok : Bool} (h : s.Sound) (hstep : s.proceed ok = some s') :
    List.range s'.closed = List.range s.closed ++ s.closes (.proceed ok) := by
  have hphase := h.phase
  unfold State.proceed at hstep
  split at hstep
  next => cases hstep
  next hpc => -- `StreamOpen`
    rw [hpc] at hphase
    have hnot : s.phase ≠ .live := by rw [hphase]; exact Phase.noConfusion
    cases ok with
    | false => cases hstep; simp only [State.closes, hpc, List.append_nil]; rfl
    | true =>
      cases hstep
      rw [closed_live rfl, closed_other hnot]
      simp only [State.closes, hpc, List.append_nil, if_true, Nat.add_sub_cancel]
  next hpc => cases hstep; simp only [State.closes, hpc, List.append_nil]; rfl
  next hpc => cases hstep; simp only [State.closes, hpc, List.append_nil]; rfl
  next hpc => cases ok <;> cases hstep <;> simp only [State.closes, hpc, List.append_nil] <;> rfl
  next hpc => cases hstep; simp only [State.closes, hpc, List.append_nil]; rfl
  next hpc => cases hstep; simp only [State.closes, hpc, List.append_nil]; rfl
  next hpc => cases hstep; simp only [State.closes, hpc, List.append_nil]; rfl
  next hpc => cases hstep; simp only [State.closes, hpc, List.append_nil]; rfl
  next hpc =>
    split at hstep
    next => cases hstep; simp only [State.closes, hpc, List.append_nil]; rfl
    next => cases hstep
  next hpc => cases hstep; simp only [State.closes, hpc, List.append_nil]; rfl
  next hpc => cases hstep; simp only [State.closes, hpc, List.append_nil]; rfl
  next site hpc => -- `StreamClose`
    rw [hpc] at hphase
    have hopened := h.counted hphase
    cases hstep
    rw [closed_live hphase, closed_other Phase.noConfusion]
    simp only [State.closes, hpc]
    have hsucc : (s.opened - 1).succ = s.opened := Nat.succ_pred_eq_of_pos hopened
    rw [← List.range_succ, hsucc]
  next site hpc =>
    rw [hpc] at hphase
    have hnot : s.phase ≠ .live := by rw [hphase]; exact Phase.noConfusion
    split at hstep
    next =>
      cases hstep
      rw [closed_other hnot, closed_other Phase.noConfusion]
      simp only [State.closes, hpc, List.append_nil]
    next => cases hstep
  next hpc => cases hstep; simp only [State.closes, hpc, List.append_nil]; rfl

/-- **The streams are closed in order.** -/
theorem closes_eq {history : List (State × Action)}
    (h : registrations.Run (fun _ _ => True) history s) :
    Machine.emitted State.closes history = List.range s.closed :=
  h.invariant (I := fun history s => Machine.emitted State.closes history = List.range s.closed) rfl
    fun history s a s' hrun _ hstep ih => by
      rw [Machine.emitted_snoc, ih]
      rcases step_cases hstep with ⟨ok, rfl, hproceed⟩ | ⟨hopened, hphase, -, hcloses, -⟩
      · exact (closed_proceed (sound_of_reach hrun.reach) hproceed).symm
      · rw [hcloses, List.append_nil, State.closed, State.closed, hopened, hphase]

theorem Pc.phase_of_inClient {p : Pc} (h : p.inClient = true) : p.phase = .live := by
  cases p <;> first | rfl | cases h

/-- The watchdog exists only while the stream object is whole. -/
theorem Pc.whole_of_watched {p : Pc} (h : p.watched = true) : p.phase = .live ∧ p.members = true := by
  cases p <;> first | exact ⟨rfl, rfl⟩ | cases h

theorem inClient_of_use (hstep : registrations.step s .use = some s') : s.pc.inClient = true := by
  simp only [registrations] at hstep
  split at hstep
  next hin => exact hin
  next => cases hstep

/-- The watchdog moves only while the stream object is whole. -/
theorem whole_of_watchdog (h : s.Sound) (hstep : registrations.step s .watchdog = some s') :
    s.phase = .live ∧ s.members = true := by
  rw [h.phase, h.members]
  simp only [registrations, Option.map_eq_some_iff] at hstep
  obtain ⟨w, hnext, -⟩ := hstep
  refine Pc.whole_of_watched (h.watched fun habsent => ?_)
  rw [habsent] at hnext
  cases hnext

/-- The handle is open where it is used. -/
theorem live_of_usesHandle {a : Action} (h : s.Sound) (hstep : registrations.step s a = some s')
    (huses : s.UsesHandle a) : s.phase = .live := by
  cases a with
  | proceed ok =>
    rw [h.phase]
    rcases huses with hpc | ⟨site, hpc⟩
    · rw [hpc]; rfl
    · rw [hpc]; rfl
  | use =>
    rw [h.phase]
    exact Pc.phase_of_inClient (inClient_of_use hstep)
  | watchdog => exact (whole_of_watchdog h hstep).1
  | register => cases huses
  | deliver locks => cases huses
  | callback => cases huses

/-- **A stream is closed once.** In every run, whichever calls fail and however the watchdog and the
callbacks interleave: the calls of `StreamClose` are for the streams that have been opened, in their
order and one for each, and outside of the scope none is owed; the handle is open whenever it is passed
to msquic; and whenever the watchdog moves, the stream object has its handle and its members. -/
theorem stream_closed_once {history : List (State × Action)}
    (h : registrations.Run (fun _ _ => True) history s) :
    Machine.emitted State.closes history = List.range s.closed ∧
    (s.pc = .idle → s.closed = s.opened) ∧
    (∀ x ∈ history, x.1.UsesHandle x.2 → x.1.phase = .live) ∧
    ∀ x ∈ history, x.2 = .watchdog → x.1.phase = .live ∧ x.1.members = true := by
  refine ⟨closes_eq h, fun hidle => ?_, ?_, ?_⟩
  · have hphase := (sound_of_reach h.reach).phase
    rw [hidle] at hphase
    exact closed_other (by rw [hphase]; exact Phase.noConfusion)
  · exact h.forall_mem (P := fun s a => s.UsesHandle a → s.phase = .live)
      fun t a t' ht _ hstep => live_of_usesHandle (sound_of_reach ht) hstep
  · refine h.forall_mem (P := fun s a => a = .watchdog → s.phase = .live ∧ s.members = true) ?_
    rintro t a t' ht - hstep rfl
    exact whole_of_watchdog (sound_of_reach ht) hstep

/-- The request is answered before the timer expires, and the watchdog finds `done` set. The members
are destroyed, and a callback comes for `mu_`. -/
def answeredSteps : List Action :=
  .register :: List.replicate 8 (.proceed true) ++ [.watchdog, .watchdog] ++
    List.replicate 3 (.proceed true) ++ [.deliver true, .callback]

theorem stream_closed_once_answered : ∃ history s,
    registrations.Run (fun _ _ => True) history s ∧ s.pc = .idle ∧ s.opened = 1 ∧
    (Machine.emitted State.closes history = List.range s.closed ∧
      (s.pc = .idle → s.closed = s.opened) ∧
      (∀ x ∈ history, x.1.UsesHandle x.2 → x.1.phase = .live) ∧
      ∀ x ∈ history, x.2 = .watchdog → x.1.phase = .live ∧ x.1.members = true) := by
  have hexec : registrations.exec (fun _ _ => True) registrations.init
      (answeredSteps ++ [.callback, .callback, .proceed true, .proceed true]) = some _ := rfl
  obtain ⟨history, hrun⟩ := (Machine.reach_of_exec hexec).exists_run
  exact ⟨history, _, hrun, rfl, rfl, stream_closed_once hrun⟩

/-! ## The members -/

/-- The window is where there is a handle without members. -/
theorem Pc.window_iff (p : Pc) :
    p = .close .destructor ∨ p = .drain .destructor ↔ p.phase ≠ .none ∧ p.members = false := by
  cases p with
  | close site => cases site <;> decide
  | drain site => cases site <;> decide
  | _ => decide

theorem inWindow_iff (h : s.Sound) : s.InWindow ↔ s.phase ≠ .none ∧ s.members = false := by
  rw [h.phase, h.members]
  exact Pc.window_iff s.pc

/-- What msquic does leaves the thread where it is. -/
theorem pc_of_ofMsquic {a : Action} (ha : a.ofMsquic = true)
    (hstep : registrations.step s a = some s') : s'.pc = s.pc := by
  cases a with
  | deliver locks =>
    simp only [registrations] at hstep
    split at hstep
    next => cases hstep; rfl
    next => cases hstep
  | callback =>
    simp only [registrations, Option.map_eq_some_iff] at hstep
    obtain ⟨c, -, rfl⟩ := hstep
    rfl
  | register | proceed ok | use | watchdog => cases ha

/-- **The object is exposed in the window.** -/
theorem exposed_iff_inWindow (h : s.Sound) : s.Exposed ↔ s.InWindow := by
  constructor
  · rintro ⟨t, t', hreach, -, huses, hmembers⟩
    have hkept : t.Sound ∧ t.pc = s.pc :=
      Machine.Reach.invariant (m := registrations.after s) (I := fun t => t.Sound ∧ t.pc = s.pc)
        ⟨h, rfl⟩ (fun _ _ _ _ ha hstep hu => ⟨hu.1.step hstep, (pc_of_ofMsquic ha hstep).trans hu.2⟩)
        hreach
    have hcalled : t.callback ≠ .none := by
      rcases huses with hc | hc <;> rw [hc] <;> exact CallbackPc.noConfusion
    have hwindow := (inWindow_iff hkept.1).mpr ⟨hkept.1.called hcalled, hmembers⟩
    rw [State.InWindow, hkept.2] at hwindow
    exact hwindow
  · intro hwindow
    obtain ⟨hphase, hmembers⟩ := (inWindow_iff h).mp hwindow
    -- once no callback is running, the next event brings one to the lock
    have hdeliver : ∀ t, (registrations.after s).Reach (fun _ a => a.ofMsquic = true) t →
        t.phase = s.phase → t.members = s.members → t.callback = .none → s.Exposed := by
      intro t ht hsame hmem hnone
      have hstep : registrations.step t (.deliver true) = some { t with callback := .lock } := by
        rw [← hsame] at hphase
        exact if_pos ⟨hphase, hnone⟩
      exact ⟨{ t with callback := .lock }, { t with callback := .inside },
        .step (a := .deliver true) ht rfl hstep, rfl, Or.inl rfl, hmem.trans hmembers⟩
    cases hc : s.callback with
    | none => exact hdeliver s .init rfl rfl hc
    | lock =>
      refine ⟨s, { s with callback := .inside }, .init, ?_, Or.inl hc, hmembers⟩
      simp only [registrations, hc, CallbackPc.next, Option.map_some]
    | inside =>
      refine ⟨s, { s with callback := .fulfil }, .init, ?_, Or.inr hc, hmembers⟩
      simp only [registrations, hc, CallbackPc.next, Option.map_some]
    | fulfil =>
      have hstep : registrations.step s .callback = some { s with callback := .none } := by
        simp only [registrations, hc, CallbackPc.next, Option.map_some]
      exact hdeliver { s with callback := .none } (.step (a := .callback) .init rfl hstep) rfl rfl rfl

/-- A use of the members has the handle open. -/
theorem phase_of_usesMembers {a : Action} (h : s.Sound) (hstep : registrations.step s a = some s')
    (huses : s.UsesMembers a) : s.phase ≠ .none := by
  cases a with
  | use =>
    rw [h.phase, Pc.phase_of_inClient (inClient_of_use hstep)]
    exact Phase.noConfusion
  | callback =>
    refine h.called ?_
    rcases huses with hc | hc <;> rw [hc] <;> exact CallbackPc.noConfusion
  | register | proceed ok | deliver locks | watchdog => cases huses

/-- A registration gets under way when its stream starts, and stays so until its members go. -/
theorem underWay_proceed {ok : Bool} (hstep : s.proceed ok = some s') :
    s.pc.underWay.toNat + (s.starts (.proceed ok)).toNat =
      (s.exposes (.proceed ok)).toNat + s'.pc.underWay.toNat := by
  unfold State.proceed at hstep
  unfold State.starts State.exposes
  split at hstep
  next => cases hstep
  next hpc => cases ok <;> cases hstep <;> simp [hpc, Pc.underWay]
  next hpc => cases ok <;> cases hstep <;> simp [hpc, Pc.underWay]
  next hpc => cases ok <;> cases hstep <;> simp [hpc, Pc.underWay]
  next hpc => cases ok <;> cases hstep <;> simp [hpc, Pc.underWay]
  next hpc => cases ok <;> cases hstep <;> simp [hpc, Pc.underWay]
  next hpc => cases hstep; simp [hpc, Pc.underWay]
  next hpc => cases hstep; simp [hpc, Pc.underWay]
  next hpc => cases hstep; simp [hpc, Pc.underWay]
  next hpc => split at hstep <;> cases hstep; simp [hpc, Pc.underWay]
  next hpc => cases hstep; simp [hpc, Pc.underWay]
  next hpc => cases hstep; simp [hpc, Pc.underWay]
  next site hpc => cases hstep; simp [hpc, Pc.underWay]
  next site hpc => split at hstep <;> cases hstep; cases site <;> simp [hpc, Pc.underWay]
  next hpc => cases hstep; simp [hpc, Pc.underWay]

theorem underWay_step {a : Action} (hstep : registrations.step s a = some s') :
    s.pc.underWay.toNat + (s.starts a).toNat = (s.exposes a).toNat + s'.pc.underWay.toNat := by
  rcases step_cases hstep with ⟨ok, rfl, hproceed⟩ | ⟨-, -, hpc, -, hstarts, hexposes⟩
  · exact underWay_proceed hproceed
  · rw [hstarts, hexposes]
    rcases hpc with hpc | ⟨hidle, hopen⟩
    · rw [hpc, Nat.add_comm]
    · rw [hidle, hopen]
      rfl

/-- Every stream that has started has been exposed, or will be. -/
theorem starts_eq {history : List (State × Action)}
    (h : registrations.Run (fun _ _ => True) history s) :
    history.countP (fun x => x.1.starts x.2) =
      history.countP (fun x => x.1.exposes x.2) + s.pc.underWay.toNat := by
  induction h with
  | init => rfl
  | @step history s s' a _ _ hstep ih =>
    have hway := underWay_step hstep
    have hcount : ∀ p : State → Action → Bool, (history ++ [(s, a)]).countP (fun x => p x.1 x.2) =
        history.countP (fun x => p x.1 x.2) + (p s a).toNat := by
      intro p
      rw [List.countP_append, List.countP_singleton]
      cases p s a <;> rfl
    rw [hcount State.starts, hcount State.exposes]
    omega

/-- **The members are outlived by the callbacks.** In every run: msquic alone can bring a callback to
use members that are gone exactly in the window between their destruction and the return of
`StreamClose`; a use of the members, by whom it may be, finds them gone exactly if it falls there; and
each stream that has started comes to the window, in whichever way its registration ends. -/
theorem exposed_iff {history : List (State × Action)}
    (h : registrations.Run (fun _ _ => True) history s) :
    (s.Exposed ↔ s.InWindow) ∧
    (∀ x ∈ history, x.1.UsesMembers x.2 → (x.1.members = false ↔ x.1.InWindow)) ∧
    history.countP (fun x => x.1.starts x.2) =
      history.countP (fun x => x.1.exposes x.2) + s.pc.underWay.toNat := by
  refine ⟨exposed_iff_inWindow (sound_of_reach h.reach), ?_, starts_eq h⟩
  refine h.forall_mem (P := fun s a => s.UsesMembers a → (s.members = false ↔ s.InWindow)) ?_
  intro t a t' ht _ hstep huses
  have hphase := phase_of_usesMembers (sound_of_reach ht) hstep huses
  rw [inWindow_iff (sound_of_reach ht)]
  exact ⟨fun hgone => ⟨hphase, hgone⟩, fun hw => hw.2⟩

/-- The callback of `answeredSteps` locks a mutex that has been destroyed. -/
theorem exposed_iff_answered : ∃ history s, registrations.Run (fun _ _ => True) history s ∧
    (∃ x ∈ history, x.1.UsesMembers x.2 ∧ x.1.members = false) ∧
    ((s.Exposed ↔ s.InWindow) ∧
      (∀ x ∈ history, x.1.UsesMembers x.2 → (x.1.members = false ↔ x.1.InWindow)) ∧
      history.countP (fun x => x.1.starts x.2) =
        history.countP (fun x => x.1.exposes x.2) + s.pc.underWay.toNat) := by
  have hexec : registrations.exec (fun _ _ => True) registrations.init answeredSteps.dropLast =
      some _ := rfl
  obtain ⟨history, hrun⟩ := (Machine.reach_of_exec hexec).exists_run
  have hlast : registrations.Run _ (history ++ [(_, .callback)]) _ := .step hrun trivial rfl
  refine ⟨_, _, hlast, ⟨_, List.mem_append_right _ (List.mem_singleton_self _), Or.inl rfl, rfl⟩,
    exposed_iff hlast⟩

end Cfd.Tunnel.StreamScope
