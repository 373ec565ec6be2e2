import Cfd.Tunnel.AsyncStream

/-!
# What a read owes its caller

A caller of `AsyncInputStream::tryRead` takes fewer bytes than `minBytes` for the end of the stream.
`tryRead` hands `minBytes` on from call to call and never compares anything with it: a section that
finds the queue not empty, or `eof_` set, completes the read with what is there. And `eof_` is set for
`PEER_RECEIVE_ABORTED` too, which says nothing of the bytes that are still to come.

`read_contract_iff`: a run honours the contract exactly when each of its completing sections finds
`minBytes` bytes, or the receive direction ended.
-/

set_option autoImplicit false

namespace Cfd.Tunnel.AsyncStream

open Cfd.Base

/-! ## What is drained -/

/-- **Draining copies the front of the queue**, as much as fits. -/
theorem drainLocked_fst (maxBytes copied : Nat) (queue : List Chunk) :
    (drainLocked maxBytes copied queue).1 = (pending queue).take (maxBytes - copied) := by
  induction queue generalizing copied with
  | nil => rw [drainLocked, pending_nil, List.take_nil]
  | cons front rest ih =>
    have hoff := front.off_lt
    have hlen : front.rest.length = front.data.length - front.off := List.length_drop
    unfold drainLocked
    by_cases hcopied : copied < maxBytes
    · rw [if_pos hcopied, pending_cons, List.take_append, hlen]
      simp only
      split
      next hall =>
        have htake : min (front.data.length - front.off) (maxBytes - copied) =
            front.data.length - front.off := by omega
        have hall' : front.rest.take (front.data.length - front.off) = front.rest :=
          List.take_of_length_le (by omega)
        have hfits : front.rest.take (maxBytes - copied) = front.rest :=
          List.take_of_length_le (by omega)
        rw [ih, htake, ← Chunk.rest, hall', hfits, Nat.sub_sub]
      next hpart =>
        have hnone : maxBytes - copied - (front.data.length - front.off) = 0 := by omega
        rw [hnone, List.take_zero, List.append_nil, Chunk.rest]
        have htake : min (front.data.length - front.off) (maxBytes - copied) =
            maxBytes - copied := by omega
        exact congrArg (fun n => (front.data.drop front.off).take n) htake
    · rw [if_neg hcopied, show maxBytes - copied = 0 by omega, List.take_zero]

/-! ## The contract -/

/-- The events that end the receive direction. -/
def StreamEvent.endsReceive : StreamEvent → Bool
  | .receive _ fin => fin
  | .peerSendAborted | .shutdownComplete => true
  | .peerReceiveAborted => false

/-- The receive direction has ended. -/
def ended (history : List (State × Action)) : Bool :=
  history.any fun x =>
    match x.2 with
    | .onEvent ev => ev.endsReceive
    | _ => false

/-- A completed read honours the contract: it has at least `minBytes` and at most `maxBytes` bytes, or
the receive direction has ended and it has all that were left. -/
def Honoured (before : List (State × Action)) (s : State) (r : Completed) : Prop :=
  (r.args.minBytes ≤ r.bytes.length ∧ r.bytes.length ≤ r.args.maxBytes) ∨
    (ended before = true ∧ r.bytes = pending s.recvQueue)

/-- The section that completes a read finds `minBytes` bytes, or the end. -/
def Enough (before : List (State × Action)) (s : State) (r : Completed) : Prop :=
  ended before = true ∨ r.args.minBytes ≤ (pending s.recvQueue).length

/-- Something holds of every read that a run completes, of what the run did before, and of the state in
which the read completes. -/
def AtEach (P : List (State × Action) → State → Completed → Prop)
    (history : List (State × Action)) : Prop :=
  ∀ before s a after, history = before ++ (s, a) :: after → ∀ r ∈ s.completes a, P before s r

/-- A caller asks for at least one byte, and for no more than it has room for. -/
def WellAsked (_ : State) (a : Action) : Prop :=
  ∀ args, a = .tryRead args → 1 ≤ args.minBytes ∧ args.minBytes ≤ args.maxBytes

/-- The arguments of the read that is outstanding. -/
def ReaderPc.args : ReaderPc → Option ReadArgs
  | .idle => none
  | .first args | .making args | .second args _ | .parked args _ => some args

/-- The outstanding read was well asked. -/
def State.WellAsked (s : State) : Prop :=
  ∀ args, s.reader.args = some args → 1 ≤ args.minBytes ∧ args.minBytes ≤ args.maxBytes

/-- A step keeps the arguments of the outstanding read, or takes those of a call. -/
theorem State.WellAsked.step {s s' : State} {a : Action} (h : s.WellAsked)
    (hg : AsyncStream.WellAsked s a) (hmove : Moves s a s') : s'.WellAsked := by
  intro args hargs
  cases hmove with
  | tryRead hreader =>
    cases hargs
    exact hg _ rfl
  | complete => cases hargs
  | empty hreader | make hreader | park hreader | resume hreader =>
    apply h
    rw [hreader]
    exact hargs
  | onEvent =>
    apply h
    revert hargs
    unfold State.onEvent
    split <;> exact id
  | fulfill => exact h args hargs

/-- So every state of a run is well asked. -/
theorem wellAsked_of_run {history : List (State × Action)} {t : State}
    (h : stream.Run WellAsked history t) :
    t.WellAsked ∧ ∀ x ∈ history, x.1.WellAsked := by
  refine h.invariant (I := fun history t => t.WellAsked ∧ ∀ x ∈ history, x.1.WellAsked) ?_ ?_
  · refine ⟨fun args hargs => ?_, by simp⟩
    cases hargs
  · intro history s a s' _ hg hstep ⟨hs, hall⟩
    refine ⟨hs.step hg (step_moves hstep), fun x hx => ?_⟩
    rcases List.mem_append.mp hx with hx | hx
    · exact hall x hx
    · rwa [List.mem_singleton.mp hx]

/-- What a section completes: the outstanding read, with the front of the queue. -/
theorem completes_cases {s : State} {a : Action} {r : Completed} (h : r ∈ s.completes a) :
    s.reader.args = some r.args ∧ r.bytes = (pending s.recvQueue).take r.args.maxBytes := by
  have hdrain : ∀ args : ReadArgs, (drainLocked args.maxBytes 0 s.recvQueue).1 =
      (pending s.recvQueue).take args.maxBytes := fun args => drainLocked_fst args.maxBytes 0 _
  unfold State.completes at h
  split at h
  next =>
    split at h
    next args hreader =>
      split at h
      next =>
        obtain rfl := List.mem_singleton.mp h
        exact ⟨by rw [hreader]; rfl, hdrain args⟩
      next => cases h
    next args f hreader =>
      split at h
      next =>
        obtain rfl := List.mem_singleton.mp h
        exact ⟨by rw [hreader]; rfl, hdrain args⟩
      next => cases h
    next => cases h
  next => cases h

/-- One read honours the contract exactly when there is enough. -/
theorem honoured_iff {before : List (State × Action)} {s : State} {a : Action} {r : Completed}
    (hs : s.WellAsked) (h : r ∈ s.completes a) : Honoured before s r ↔ Enough before s r := by
  obtain ⟨hargs, hbytes⟩ := completes_cases h
  have hask := (hs r.args hargs).2
  have hlen : r.bytes.length = min r.args.maxBytes (pending s.recvQueue).length := by
    rw [hbytes, List.length_take]
  constructor
  · rintro (⟨hmin, -⟩ | ⟨hended, -⟩)
    · exact Or.inr (by omega)
    · exact Or.inl hended
  · rintro (hended | hmin)
    · by_cases hall : (pending s.recvQueue).length ≤ r.args.maxBytes
      · exact Or.inr ⟨hended, by rw [hbytes, List.take_of_length_le hall]⟩
      · exact Or.inl (by omega)
    · exact Or.inl (by omega)

/-- **A run honours the contract exactly when there is enough each time**: at every section that
completes a read, `minBytes` unread bytes are in the queue, or the receive direction has ended. -/
theorem read_contract_iff {history : List (State × Action)} {t : State}
    (h : stream.Run WellAsked history t) : AtEach Honoured history ↔ AtEach Enough history := by
  obtain ⟨-, hall⟩ := wellAsked_of_run h
  have hpoint : ∀ before s a after, history = before ++ (s, a) :: after → ∀ r ∈ s.completes a,
      (Honoured before s r ↔ Enough before s r) := by
    intro before s a after heq r hr
    have hmem : (s, a) ∈ history := by
      rw [heq]
      exact List.mem_append_right _ List.mem_cons_self
    exact honoured_iff (hall _ hmem) hr
  constructor
  · intro hhonoured before s a after heq r hr
    exact (hpoint before s a after heq r hr).mp (hhonoured before s a after heq r hr)
  · intro henough before s a after heq r hr
    exact (hpoint before s a after heq r hr).mpr (henough before s a after heq r hr)

/-! ## Reads that are cut short -/

/-- The stream when its first read has been called. -/
def called (args : ReadArgs) : State := { stream.init with reader := .first args }

/-- A read of `args`, with one event delivered before its first section. -/
def eventThenRead (args : ReadArgs) (ev : StreamEvent) : List (State × Action) :=
  [(stream.init, .tryRead args), (called args, .onEvent ev), ((called args).onEvent ev, .reader)]

/-- Such a run: the event leaves something to find, so the first section completes the read. -/
theorem run_eventThenRead {args : ReadArgs} {ev : StreamEvent}
    (hask : 1 ≤ args.minBytes ∧ args.minBytes ≤ args.maxBytes)
    (hreader : ((called args).onEvent ev).reader = .first args)
    (hreadable : ((called args).onEvent ev).readable = true) :
    stream.Run WellAsked (eventThenRead args ev) (((called args).onEvent ev).complete args) := by
  have h0 : stream.Run WellAsked [] stream.init := .init
  have h1 : stream.Run WellAsked [(stream.init, .tryRead args)] (called args) :=
    h0.step (fun args' heq => by cases heq; exact hask) rfl
  have h2 : stream.Run WellAsked [(stream.init, .tryRead args), (called args, .onEvent ev)]
      ((called args).onEvent ev) := h1.step (fun _ heq => by cases heq) rfl
  refine h2.step (fun _ heq => by cases heq) ?_
  change ((called args).onEvent ev).readerStep = _
  simp only [State.readerStep, hreader, hreadable, if_true]

/-- Two ways a read answers fewer bytes than it was asked for, with nothing ended. One byte of a message
arrives before the others, and a read that needs two answers one. And when the peer no longer reads what
we write, a read answers no bytes at all, though the peer goes on sending. -/
theorem short_reads :
    (∃ t, stream.Run WellAsked (eventThenRead ⟨2, 4⟩ (.receive [[7]] false)) t ∧
      ¬ AtEach Honoured (eventThenRead ⟨2, 4⟩ (.receive [[7]] false))) ∧
    ∃ t, stream.Run WellAsked (eventThenRead ⟨1, 4⟩ .peerReceiveAborted) t ∧
      ¬ AtEach Honoured (eventThenRead ⟨1, 4⟩ .peerReceiveAborted) := by
  constructor
  · refine ⟨_, run_eventThenRead (by decide) rfl rfl, fun hall => ?_⟩
    rcases hall [_, _] _ .reader [] rfl ⟨⟨2, 4⟩, [7]⟩ List.mem_cons_self with ⟨hmin, -⟩ | ⟨hended, -⟩
    · exact absurd hmin (by decide)
    · cases hended
  · refine ⟨_, run_eventThenRead (by decide) rfl rfl, fun hall => ?_⟩
    rcases hall [_, _] _ .reader [] rfl ⟨⟨1, 4⟩, []⟩ List.mem_cons_self with ⟨hmin, -⟩ | ⟨hended, -⟩
    · exact absurd hmin (by decide)
    · cases hended

/-- A read that finds all it needs. -/
theorem read_contract_iff_whole :
    AtEach Honoured (eventThenRead ⟨2, 4⟩ (.receive [[7], [8, 9]] false)) ↔
      AtEach Enough (eventThenRead ⟨2, 4⟩ (.receive [[7], [8, 9]] false)) :=
  read_contract_iff (run_eventThenRead (by decide) rfl rfl)

end Cfd.Tunnel.AsyncStream
