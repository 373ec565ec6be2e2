import Cfd.Base.Machine
import Mathlib.Data.List.Nodup
import Mathlib.Data.List.Perm.Basic
import Mathlib.Tactic.Common

/-!
# The RPC stream

`MsquicAsyncStream` of `src/tunnel/quic_client.cpp`, its read side: `tryRead` runs on the KJ thread,
`onEvent` on the threads of msquic. Each section that holds `mu_` is one step. `tryRead` has two such
sections, and makes its fulfiller between them; `onEvent` moves `read_wakeup_` out in its section and
fulfils it afterwards, which is a step of its own. Any number of calls of `onEvent` may be at that
point at once.

A fulfiller is the number of the promise it belongs to: `newPromiseAndCrossThreadFulfiller` makes the
next one. The bytes that `tryRead` writes to `dst` are written from its start, without a gap, so they
are a list; the size it returns is the length of the list.
-/

set_option autoImplicit false

namespace Cfd.Tunnel.AsyncStream

open Cfd.Base

/-! ## The queue -/

/-- `Chunk`: received bytes, of which the first `off` have been read. A chunk that is read to its end
is not in the queue. -/
structure Chunk where
  data : List UInt8
  off : Nat
  off_lt : off < data.length

/-- The bytes of a chunk that have not been read. -/
def Chunk.rest (c : Chunk) : List UInt8 :=
  c.data.drop c.off

/-- The bytes of a queue that have not been read. -/
def pending (queue : List Chunk) : List UInt8 :=
  queue.flatMap Chunk.rest

/-- `drainLocked`, from the point where `copied` bytes have been copied: the bytes it copies then,
and what it leaves in the queue. -/
def drainLocked (maxBytes copied : Nat) : List Chunk → List UInt8 × List Chunk
  | [] => ([], [])
  | front :: rest =>
    if copied < maxBytes then
      let avail := front.data.length - front.off
      let take := min avail (maxBytes - copied)
      let bytes := (front.data.drop front.off).take take
      if h : front.off + take = front.data.length then
        let tail := drainLocked maxBytes (copied + take) rest
        (bytes ++ tail.1, tail.2)
      else
        -- `take` is `maxBytes - copied` here, and the test of the loop fails next
        (bytes, ⟨front.data, front.off + take, by have := front.off_lt; omega⟩ :: rest)
    else ([], front :: rest)

/-- The chunk of one buffer of an event; an empty buffer makes none. -/
def chunkOf (buffer : List UInt8) : Option Chunk :=
  if h : 0 < buffer.length then some ⟨buffer, 0, h⟩ else none

@[simp] theorem pending_nil : pending [] = [] := rfl

@[simp] theorem pending_cons (c : Chunk) (queue : List Chunk) :
    pending (c :: queue) = c.rest ++ pending queue := List.flatMap_cons ..

@[simp] theorem pending_append (queue queue' : List Chunk) :
    pending (queue ++ queue') = pending queue ++ pending queue' := List.flatMap_append ..

/-- What a buffer adds to the queue is what it holds. -/
theorem pending_chunks (buffers : List (List UInt8)) :
    pending (buffers.filterMap chunkOf) = buffers.flatten := by
  induction buffers with
  | nil => rfl
  | cons buffer buffers ih =>
    rw [List.flatten_cons, ← ih]
    by_cases h : 0 < buffer.length
    · rw [List.filterMap_cons_some (by rw [chunkOf, dif_pos h]), pending_cons]
      rfl
    · have hnil : buffer = [] := List.eq_nil_of_length_eq_zero (Nat.le_zero.mp (Nat.le_of_not_lt h))
      rw [List.filterMap_cons_none (by rw [chunkOf, dif_neg h]), hnil]
      rfl

/-- **Draining moves bytes**: what is copied and what is left are what was there. -/
theorem drainLocked_pending (maxBytes copied : Nat) (queue : List Chunk) :
    (drainLocked maxBytes copied queue).1 ++ pending (drainLocked maxBytes copied queue).2 =
      pending queue := by
  induction queue generalizing copied with
  | nil => rfl
  | cons front rest ih =>
    unfold drainLocked
    by_cases hcopied : copied < maxBytes
    · rw [if_pos hcopied]
      simp only
      have hoff := front.off_lt
      split
      next hall =>
        rw [List.append_assoc, ih, pending_cons, Chunk.rest]
        have hlen : (front.data.drop front.off).length ≤
            min (front.data.length - front.off) (maxBytes - copied) := by
          rw [List.length_drop]
          omega
        rw [List.take_of_length_le hlen]
      next =>
        rw [pending_cons, pending_cons, ← List.append_assoc, Chunk.rest, Chunk.rest,
          ← List.drop_drop, List.take_append_drop]
    · rw [if_neg hcopied]
      rfl

/-- Draining copies `maxBytes` at most. -/
theorem length_drainLocked (maxBytes copied : Nat) (queue : List Chunk) :
    (drainLocked maxBytes copied queue).1.length ≤ maxBytes - copied := by
  induction queue generalizing copied with
  | nil => exact Nat.zero_le _
  | cons front rest ih =>
    unfold drainLocked
    by_cases hcopied : copied < maxBytes
    · rw [if_pos hcopied]
      simp only
      split
      next =>
        have htail := ih (copied + min (front.data.length - front.off) (maxBytes - copied))
        rw [List.length_append, List.length_take, List.length_drop]
        omega
      next =>
        rw [List.length_take]
        omega
    · rw [if_neg hcopied]
      exact Nat.zero_le _

/-- The queue after `take` bytes of its front: the offset moves, and a front that is read to its end
is dropped. -/
def advance (front : Chunk) (take : Nat) (rest : List Chunk) : List Chunk :=
  if h : front.off + take < front.data.length then ⟨front.data, front.off + take, h⟩ :: rest else rest

/-- **One turn of the source's loop**: below `maxBytes`, it copies from the front, advances the
queue, and goes on with what is then in it. -/
theorem drainLocked_turn {maxBytes copied : Nat} (front : Chunk) (rest : List Chunk) {take : Nat}
    (hcopied : copied < maxBytes)
    (htake : take = min (front.data.length - front.off) (maxBytes - copied)) :
    drainLocked maxBytes copied (front :: rest) =
      ((front.data.drop front.off).take take ++
          (drainLocked maxBytes (copied + take) (advance front take rest)).1,
        (drainLocked maxBytes (copied + take) (advance front take rest)).2) := by
  have hoff := front.off_lt
  subst htake
  rw [drainLocked, if_pos hcopied, advance]
  simp only
  split
  next hall => rw [dif_neg (by omega)]
  next hpart =>
    rw [dif_pos (by omega), drainLocked, if_neg (by omega), List.append_nil]

/-! ## The stream and its parties -/

/-- The arguments of a read besides `dst`. `minBytes` is only handed on. -/
structure ReadArgs where
  minBytes : Nat
  maxBytes : Nat

/-- Where the KJ thread stands in `tryRead`. -/
inductive ReaderPc where
  /-- No read is outstanding. -/
  | idle
  /-- About to enter the first section. -/
  | first (args : ReadArgs)
  /-- The first section found nothing; about to make a fulfiller. -/
  | making (args : ReadArgs)
  /-- About to enter the second section, with the fulfiller it made. -/
  | second (args : ReadArgs) (fulfiller : Nat)
  /-- Returned a promise that resumes the read when the fulfiller's is fulfilled. -/
  | parked (args : ReadArgs) (fulfiller : Nat)

/-- The events of the stream that touch its read side. -/
inductive StreamEvent where
  | receive (buffers : List (List UInt8)) (fin : Bool)
  | peerSendAborted
  | peerReceiveAborted
  | shutdownComplete

/-- The members that `mu_` guards, where the reader stands, the fulfillers that `onEvent` has moved
out and not yet fulfilled, those fulfilled, and how many were made. -/
structure State where
  recvQueue : List Chunk
  eof : Bool
  readWakeup : Option Nat
  reader : ReaderPc
  firing : List Nat
  fulfilled : List Nat
  made : Nat

/-- The steps: KJ calls `tryRead`; the reader takes its next step; `onEvent` runs its section; and a
call of `onEvent` fulfils what it moved out. -/
inductive Action where
  | tryRead (args : ReadArgs)
  | reader
  | onEvent (ev : StreamEvent)
  | fulfill (fulfiller : Nat)

/-- The section in which a read drains the queue, and completes. -/
def State.complete (s : State) (args : ReadArgs) : State :=
  { s with reader := .idle, recvQueue := (drainLocked args.maxBytes 0 s.recvQueue).2 }

/-- The test of both sections of `tryRead`. -/
def State.readable (s : State) : Bool :=
  !s.recvQueue.isEmpty || s.eof

/-- The reader's next step. -/
def State.readerStep (s : State) : Option State :=
  match s.reader with
  | .idle => none
  | .first args =>
    if s.readable then some (s.complete args) else some { s with reader := .making args }
  | .making args => some { s with reader := .second args s.made, made := s.made + 1 }
  | .second args fulfiller =>
    if s.readable then some (s.complete args)
    else some { s with reader := .parked args fulfiller, readWakeup := some fulfiller }
  | .parked args fulfiller =>
    if fulfiller ∈ s.fulfilled then some { s with reader := .first args } else none

/-- The section of `onEvent`: what the event brings, and `read_wakeup_` moved out. -/
def State.onEvent (s : State) (ev : StreamEvent) : State :=
  match ev with
  | .receive buffers fin =>
    { s with
      recvQueue := s.recvQueue ++ buffers.filterMap chunkOf
      eof := s.eof || fin
      readWakeup := none
      firing := s.firing ++ s.readWakeup.toList }
  | .peerSendAborted | .peerReceiveAborted | .shutdownComplete =>
    { s with eof := true, readWakeup := none, firing := s.firing ++ s.readWakeup.toList }

/-- The stream, from its construction on. -/
def stream : Machine State Action where
  init := ⟨[], false, none, .idle, [], [], 0⟩
  step := fun s a =>
    match a with
    | .tryRead args =>
      match s.reader with
      | .idle => some { s with reader := .first args }
      | _ => none
    | .reader => s.readerStep
    | .onEvent ev => some (s.onEvent ev)
    | .fulfill fulfiller =>
      if fulfiller ∈ s.firing then
        some { s with
          firing := s.firing.erase fulfiller, fulfilled := s.fulfilled ++ [fulfiller] }
      else none

/-! ## Its moves -/

/-- What a step does to the state. -/
inductive Moves (s : State) : Action → State → Prop
  | tryRead {args : ReadArgs} (hreader : s.reader = .idle) :
      Moves s (.tryRead args) { s with reader := .first args }
  | complete {args : ReadArgs} (hreader : s.reader = .first args ∨ ∃ f, s.reader = .second args f)
      (hreadable : s.readable = true) : Moves s .reader (s.complete args)
  | empty {args : ReadArgs} (hreader : s.reader = .first args) (hreadable : s.readable = false) :
      Moves s .reader { s with reader := .making args }
  | make {args : ReadArgs} (hreader : s.reader = .making args) :
      Moves s .reader { s with reader := .second args s.made, made := s.made + 1 }
  | park {args : ReadArgs} {f : Nat} (hreader : s.reader = .second args f)
      (hreadable : s.readable = false) :
      Moves s .reader { s with reader := .parked args f, readWakeup := some f }
  | resume {args : ReadArgs} {f : Nat} (hreader : s.reader = .parked args f)
      (hfulfilled : f ∈ s.fulfilled) : Moves s .reader { s with reader := .first args }
  | onEvent {ev : StreamEvent} : Moves s (.onEvent ev) (s.onEvent ev)
  | fulfill {f : Nat} (hfiring : f ∈ s.firing) :
      Moves s (.fulfill f) { s with
        firing := s.firing.erase f, fulfilled := s.fulfilled ++ [f] }

theorem readerStep_moves {s s' : State} (h : s.readerStep = some s') : Moves s .reader s' := by
  unfold State.readerStep at h
  split at h
  next => cases h
  next args hreader =>
    by_cases hreadable : s.readable = true
    · rw [if_pos hreadable] at h
      cases h
      exact .complete (Or.inl hreader) hreadable
    · rw [if_neg hreadable] at h
      cases h
      exact .empty hreader (Bool.eq_false_iff.mpr hreadable)
  next args hreader => cases h; exact .make hreader
  next args f hreader =>
    by_cases hreadable : s.readable = true
    · rw [if_pos hreadable] at h
      cases h
      exact .complete (Or.inr ⟨f, hreader⟩) hreadable
    · rw [if_neg hreadable] at h
      cases h
      exact .park hreader (Bool.eq_false_iff.mpr hreadable)
  next args f hreader =>
    split at h
    next hfulfilled => cases h; exact .resume hreader hfulfilled
    next => cases h

/-- Every step of the stream is a move. -/
theorem step_moves {s s' : State} {a : Action} (h : stream.step s a = some s') : Moves s a s' := by
  cases a with
  | tryRead args =>
    simp only [stream] at h
    split at h
    next hreader => cases h; exact .tryRead hreader
    next => cases h
  | reader => exact readerStep_moves h
  | onEvent ev => cases h; exact .onEvent
  | fulfill f =>
    simp only [stream] at h
    split at h
    next hfiring => cases h; exact .fulfill hfiring
    next => cases h

/-! ## Bytes -/

/-- A read that has completed: its arguments, and the bytes it copied out. -/
structure Completed where
  args : ReadArgs
  bytes : List UInt8

/-- The read that a step completes. -/
def State.completes (s : State) : Action → List Completed
  | .reader =>
    match s.reader with
    | .first args | .second args _ =>
      if s.readable then [⟨args, (drainLocked args.maxBytes 0 s.recvQueue).1⟩] else []
    | _ => []
  | _ => []

/-- The bytes that a step delivers. -/
def State.delivers (_ : State) : Action → List UInt8
  | .onEvent (.receive buffers _) => buffers.flatten
  | _ => []

/-- The completed reads of a run, in order. -/
def reads (history : List (State × Action)) : List Completed :=
  Machine.emitted State.completes history

/-- The bytes delivered in a run, in order. -/
def delivered (history : List (State × Action)) : List UInt8 :=
  Machine.emitted State.delivers history

/-- What the reads copied out, and what is in the queue, is what was delivered. -/
structure Intact (history : List (State × Action)) (s : State) : Prop where
  bytes : (reads history).flatMap Completed.bytes ++ pending s.recvQueue = delivered history
  bounded : ∀ r ∈ reads history, r.bytes.length ≤ r.args.maxBytes

/-- A step that completes no read, delivers nothing and leaves the queue. -/
theorem Intact.quiet {history : List (State × Action)} {s s' : State} {a : Action}
    (h : Intact history s) (hcompletes : s.completes a = []) (hdelivers : s.delivers a = [])
    (hqueue : s'.recvQueue = s.recvQueue) : Intact (history ++ [(s, a)]) s' := by
  have hreads : reads (history ++ [(s, a)]) = reads history := by
    rw [reads, Machine.emitted_snoc, hcompletes, List.append_nil]
    rfl
  refine ⟨?_, hreads ▸ h.bounded⟩
  rw [hreads, hqueue, delivered, Machine.emitted_snoc, hdelivers, List.append_nil]
  exact h.bytes

theorem Intact.complete {history : List (State × Action)} {s : State} {args : ReadArgs}
    (h : Intact history s)
    (hcompletes : s.completes .reader = [⟨args, (drainLocked args.maxBytes 0 s.recvQueue).1⟩]) :
    Intact (history ++ [(s, .reader)]) (s.complete args) := by
  have hreads : reads (history ++ [(s, .reader)]) =
      reads history ++ [⟨args, (drainLocked args.maxBytes 0 s.recvQueue).1⟩] := by
    rw [reads, Machine.emitted_snoc, hcompletes]
    rfl
  refine ⟨?_, fun r hr => ?_⟩
  · rw [hreads, List.flatMap_append, List.append_assoc, delivered, Machine.emitted_snoc]
    show _ ++ ([Completed.mk args _].flatMap Completed.bytes ++ pending (drainLocked _ 0 _).2) =
      _ ++ []
    rw [List.flatMap_singleton, drainLocked_pending, List.append_nil]
    exact h.bytes
  · rw [hreads] at hr
    rcases List.mem_append.mp hr with hold | hnew
    · exact h.bounded r hold
    · obtain rfl := List.mem_singleton.mp hnew
      exact length_drainLocked args.maxBytes 0 s.recvQueue

theorem Intact.onEvent {history : List (State × Action)} {s : State} {ev : StreamEvent}
    (h : Intact history s) : Intact (history ++ [(s, .onEvent ev)]) (s.onEvent ev) := by
  cases ev with
  | receive buffers fin =>
    have hreads : reads (history ++ [(s, .onEvent (.receive buffers fin))]) = reads history := by
      rw [reads, Machine.emitted_snoc]
      exact List.append_nil _
    refine ⟨?_, hreads ▸ h.bounded⟩
    rw [hreads, delivered, Machine.emitted_snoc]
    show _ ++ pending (s.recvQueue ++ buffers.filterMap chunkOf) = _ ++ buffers.flatten
    rw [pending_append, pending_chunks, ← List.append_assoc, h.bytes]
    rfl
  | peerSendAborted | peerReceiveAborted | shutdownComplete => exact h.quiet rfl rfl rfl

theorem Intact.step {history : List (State × Action)} {s s' : State} {a : Action}
    (h : Intact history s) (hmove : Moves s a s') : Intact (history ++ [(s, a)]) s' := by
  cases hmove with
  | tryRead | fulfill => exact h.quiet rfl rfl rfl
  | complete hreader hreadable =>
    apply h.complete
    rcases hreader with hreader | ⟨f, hreader⟩
    · rw [State.completes, hreader]
      exact if_pos hreadable
    · rw [State.completes, hreader]
      exact if_pos hreadable
  | empty hreader hreadable =>
    refine h.quiet ?_ rfl rfl
    rw [State.completes, hreader]
    exact if_neg (by rw [hreadable]; nofun)
  | make hreader => exact h.quiet (by rw [State.completes, hreader]) rfl rfl
  | park hreader hreadable =>
    refine h.quiet ?_ rfl rfl
    rw [State.completes, hreader]
    exact if_neg (by rw [hreadable]; nofun)
  | resume hreader => exact h.quiet (by rw [State.completes, hreader]) rfl rfl
  | onEvent => exact h.onEvent

/-- **No byte is lost, doubled, moved or written past `maxBytes`**: after any run, the bytes that
the completed reads copied out, in the order in which they completed, followed by those left in the
queue, are the bytes delivered. -/
theorem stream_integrity {history : List (State × Action)} {s : State}
    (h : stream.Run (fun _ _ => True) history s) :
    (reads history).flatMap Completed.bytes ++ pending s.recvQueue = delivered history ∧
      ∀ r ∈ reads history, r.bytes.length ≤ r.args.maxBytes := by
  have hintact : Intact history s := h.invariant (I := Intact) ⟨rfl, nofun⟩
    fun _ _ _ _ _ _ hstep hs => hs.step (step_moves hstep)
  exact ⟨hintact.bytes, hintact.bounded⟩

/-- A read of two bytes, with three delivered in two buffers while it is between its sections. -/
def splitRead : List Action :=
  [.tryRead ⟨1, 2⟩, .reader, .onEvent (.receive [[1], [], [2, 3]] false), .reader, .reader]

theorem stream_integrity_split : ∃ history s, stream.Run (fun _ _ => True) history s ∧
    pending s.recvQueue = [3] ∧
    (reads history).flatMap Completed.bytes ++ pending s.recvQueue = delivered history := by
  have hexec : stream.exec (fun _ _ => True) stream.init splitRead = some _ := rfl
  obtain ⟨history, hrun⟩ := (Machine.reach_of_exec hexec).exists_run
  exact ⟨history, _, hrun, rfl, (stream_integrity hrun).1⟩

end Cfd.Tunnel.AsyncStream
