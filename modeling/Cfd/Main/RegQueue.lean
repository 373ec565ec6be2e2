import Cfd.Base.Machine
import Cfd.Main.Args
import Cfd.Tunnel.Registration
import Mathlib.Data.Fintype.Basic
import Mathlib.Logic.Function.Basic

/-!
# The registration queue

`RegWork`, `kj_queue` and `kj_thread` of `src/main.cpp`: connection threads post a work and block on
its future, one registration thread serves the works, and `shutdown_all` joins the connection threads
before it stops the registration thread. Every access to the queue and to `kj_stop` is made with
`kj_mu` held, so a critical section is one step; the test of `kj_cv.wait` and the block it leads to
are one step for the same reason.

The machine is generic in the threads, in the request that a thread posts, and in the results.
`conn_index_iff` is about the requests of `main`: the lambda captures `conn_idx` by value, but the
index in the request is made from `i`, the variable of the argument loop.
-/

set_option autoImplicit false

namespace Cfd.Main

open Cfd.Base Cfd.Tunnel

namespace RegQueue

/-! ## The queue and its threads -/

/-- `RegWork`: the client of a connection thread, its request, and the promise of its result. -/
structure RegWork (ι ρ : Type) where
  cl : ι
  rreq : ρ
  promise : Nat

/-- Where a connection thread stands: outside, blocked on the future of a promise, or returned. -/
inductive ThreadPc where
  | running
  | awaiting (promise : Nat)
  | exited
  deriving DecidableEq

/-- Where the registration thread stands. -/
inductive KjPc (ι ρ : Type) where
  /-- About to take `kj_mu` and test `!kj_queue.empty() || kj_stop`. -/
  | acquire
  /-- Blocked in `kj_cv.wait`. -/
  | blocked
  /-- In `register_connection`. -/
  | serving (w : RegWork ι ρ)
  /-- Past its loop, about to answer what is left. -/
  | draining
  | exited

/-- Where `main` stands: before `shutdown_all`, and at the steps of it. -/
inductive MainPc where
  | running
  | joiningThreads
  | notifying
  | joiningKj
  | done
  deriving DecidableEq

/-- The queue and its parties. `posted` are all works ever posted, in order; `promises` are the
results that have been set. -/
structure State (ι ρ β : Type) where
  threads : ι → ThreadPc
  posted : List (RegWork ι ρ)
  queue : List (RegWork ι ρ)
  kj : KjPc ι ρ
  kjStop : Bool
  promises : List (Nat × β)
  main : MainPc

/-- The steps: a thread posts, goes on with its result, or returns; the registration thread moves,
where `result` is what `register_connection` answers; it wakes spuriously; and `main` moves. -/
inductive Action (ι β : Type) where
  | post (i : ι)
  | resume (i : ι)
  | exit (i : ι)
  | kj (result : β)
  | spurious
  | main

variable {ι ρ β : Type} [DecidableEq ι] [Fintype ι]

/-- What a notification does to the registration thread. -/
def KjPc.wake {ι ρ : Type} : KjPc ι ρ → KjPc ι ρ
  | .blocked => .acquire
  | p => p

/-- The registration thread's step. -/
def State.kjStep {ι ρ β : Type} (aborted result : β) (s : State ι ρ β) : Option (State ι ρ β) :=
  match s.kj with
  | .acquire =>
    match s.queue with
    | w :: rest => some { s with kj := .serving w, queue := rest }
    | [] => some { s with kj := if s.kjStop then .draining else .blocked }
  | .blocked => none
  | .serving w => some { s with kj := .acquire, promises := s.promises ++ [(w.promise, result)] }
  | .draining =>
    some { s with
      kj := .exited
      promises := s.promises ++ s.queue.map fun w => (w.promise, aborted)
      queue := [] }
  | .exited => none

/-- The step of `main`. -/
def State.mainStep (s : State ι ρ β) : Option (State ι ρ β) :=
  match s.main with
  | .running => some { s with main := .joiningThreads }
  | .joiningThreads =>
    if ∀ i, s.threads i = .exited then some { s with main := .notifying, kjStop := true } else none
  | .notifying => some { s with main := .joiningKj, kj := s.kj.wake }
  | .joiningKj =>
    match s.kj with
    | .exited => some { s with main := .done }
    | _ => none
  | .done => none

/-- The runs of connection threads that post `request i`, a request for each thread. -/
def registrations (request : ι → ρ) (aborted : β) : Machine (State ι ρ β) (Action ι β) where
  init := ⟨fun _ => .running, [], [], .acquire, false, [], .running⟩
  step := fun s a =>
    match a with
    | .post i =>
      match s.threads i with
      | .running =>
        let w : RegWork ι ρ := ⟨i, request i, s.posted.length⟩
        some { s with
          threads := Function.update s.threads i (.awaiting w.promise)
          posted := s.posted ++ [w]
          queue := s.queue ++ [w]
          kj := s.kj.wake }
      | _ => none
    | .resume i =>
      match s.threads i with
      | .awaiting promise =>
        if promise ∈ s.promises.map Prod.fst then
          some { s with threads := Function.update s.threads i .running }
        else none
      | _ => none
    | .exit i =>
      match s.threads i with
      | .running => some { s with threads := Function.update s.threads i .exited }
      | _ => none
    | .kj result => s.kjStep aborted result
    | .spurious =>
      match s.kj with
      | .blocked => some { s with kj := .acquire }
      | _ => none
    | .main => s.mainStep

omit [DecidableEq ι] [Fintype ι] in
theorem posted_kjStep {aborted result : β} {s s' : State ι ρ β}
    (h : s.kjStep aborted result = some s') : s'.posted = s.posted := by
  unfold State.kjStep at h
  split at h
  · split at h <;> cases h <;> rfl
  · cases h
  · cases h; rfl
  · cases h; rfl
  · cases h

omit [DecidableEq ι] in
theorem posted_mainStep {s s' : State ι ρ β} (h : s.mainStep = some s') :
    s'.posted = s.posted := by
  unfold State.mainStep at h
  split at h
  · cases h; rfl
  · split at h <;> cases h; rfl
  · cases h; rfl
  · split at h <;> cases h; rfl
  · cases h

/-- **Only a post adds to what has been posted**, and then the request of its thread. -/
theorem posted_step {request : ι → ρ} {aborted : β} {s s' : State ι ρ β} {a : Action ι β}
    (h : (registrations request aborted).step s a = some s') :
    s'.posted = s.posted ∨
      ∃ i, a = .post i ∧ s'.posted = s.posted ++ [⟨i, request i, s.posted.length⟩] := by
  cases a with
  | post i =>
    simp only [registrations] at h
    split at h
    · cases h
      exact Or.inr ⟨i, rfl, rfl⟩
    · cases h
  | resume i =>
    simp only [registrations] at h
    split at h
    · split at h <;> cases h
      exact Or.inl rfl
    · cases h
  | exit i =>
    simp only [registrations] at h
    split at h <;> cases h
    exact Or.inl rfl
  | kj result => exact Or.inl (posted_kjStep h)
  | spurious =>
    simp only [registrations] at h
    split at h <;> cases h
    exact Or.inl rfl
  | main => exact Or.inl (posted_mainStep h)

/-- **A posted request is the request of the thread that posted it.** -/
theorem rreq_eq {request : ι → ρ} {aborted : β} {s : State ι ρ β}
    (h : (registrations request aborted).Reachable s) : ∀ w ∈ s.posted, w.rreq = request w.cl := by
  refine h.invariant (I := fun s => ∀ w ∈ s.posted, w.rreq = request w.cl) (by
    exact fun _ hw => nomatch hw) fun s a s' _ _ hstep hs w hw => ?_
  rcases posted_step hstep with hsame | ⟨i, -, happend⟩
  · exact hs w (hsame ▸ hw)
  · rcases List.mem_append.mp (happend ▸ hw) with hold | hnew
    · exact hs w hold
    · obtain rfl := List.mem_singleton.mp hnew
      rfl

end RegQueue

/-! ## The index of a connection -/

/-- `kNumHaConns`. -/
abbrev kNumHaConns : Nat := 4

/-- The request that the thread created for `conn_idx` posts: the template, and
`static_cast<std::uint8_t>(i)` for its index. The thread's own `conn_idx` is not used. -/
def connRequest (rreqTmpl : RegisterRequest) (i : Nat) (_connIdx : Fin kNumHaConns) :
    RegisterRequest :=
  { rreqTmpl with connIndex := UInt8.ofNat i }

/-- The registrations of `main`, after an argument loop that ended with `i`. -/
def mainRegistrations (rreqTmpl : RegisterRequest) (i : Nat) {β : Type} (aborted : β) :
    Machine (RegQueue.State (Fin kNumHaConns) RegisterRequest β)
      (RegQueue.Action (Fin kNumHaConns) β) :=
  RegQueue.registrations (connRequest rreqTmpl i) aborted

/-- The indices of the posted requests are in order: each is the number of its thread, below
`kNumHaConns`, and those of different threads are different. -/
structure IndicesInOrder (posted : List (RegQueue.RegWork (Fin kNumHaConns) RegisterRequest)) :
    Prop where
  own : ∀ w ∈ posted, w.rreq.connIndex.toNat = w.cl
  below : ∀ w ∈ posted, w.rreq.connIndex.toNat < kNumHaConns
  distinct : ∀ w ∈ posted, ∀ w' ∈ posted, w.cl ≠ w'.cl → w.rreq.connIndex ≠ w'.rreq.connIndex

/-- **Whose index it is.** After any accepted command line, in every reached state, the posted
indices are in order exactly when no thread has posted but the one whose number is `argc` modulo
256. -/
theorem conn_index_iff {argv : List Text} {cfgPath : Text} {verbose : Bool} {i : Nat}
    (hargs : parseArgs argv = .accepted cfgPath verbose i) (rreqTmpl : RegisterRequest)
    {β : Type} {aborted : β} {s : RegQueue.State (Fin kNumHaConns) RegisterRequest β}
    (hs : (mainRegistrations rreqTmpl i aborted).Reachable s) :
    IndicesInOrder s.posted ↔ ∀ w ∈ s.posted, w.cl.val = argv.length % 256 := by
  have hindex : ∀ w ∈ s.posted, w.rreq.connIndex.toNat = argv.length % 256 := by
    intro w hw
    rw [RegQueue.rreq_eq hs w hw, connRequest, parseArgs_index hargs]
    exact UInt8.toNat_ofNat'
  constructor
  · intro horder w hw
    rw [← horder.own w hw, hindex w hw]
  · intro hthread
    have hown : ∀ w ∈ s.posted, w.rreq.connIndex.toNat = w.cl := fun w hw =>
      (hindex w hw).trans (hthread w hw).symm
    refine ⟨hown, fun w hw => hown w hw ▸ w.cl.isLt, fun w hw w' hw' hne => absurd ?_ hne⟩
    exact Fin.ext ((hthread w hw).trans (hthread w' hw').symm)

/-! ## The shortest command line -/

/-- `cfd --config x`. -/
def shortestArgv : List Text := [ascii "cfd", ascii "--config", ascii "x"]

/-- A request with nothing in it. -/
def blankRequest : RegisterRequest :=
  { auth := ⟨[], []⟩, tunnelUuid := .replicate 16 0, arch := [], features := [] }

theorem conn_index_last_thread :
    ∃ s, (mainRegistrations blankRequest 3 ()).Reachable s ∧ s.posted.length = 1 ∧
      IndicesInOrder s.posted := by
  have hargs : parseArgs shortestArgv = .accepted (ascii "x") false 3 := by decide
  have hreach := Machine.Reach.step
    (.init : (mainRegistrations blankRequest 3 ()).Reachable _) trivial
    (show _ = some _ from rfl : (mainRegistrations blankRequest 3 ()).step _ (.post 3) = some _)
  exact ⟨_, hreach, rfl, (conn_index_iff hargs blankRequest hreach).mpr (by
    intro w hw
    obtain rfl := List.mem_singleton.mp hw
    rfl)⟩

/-- The first thread registers as connection 3. -/
theorem first_thread_index_three :
    parseArgs shortestArgv = .accepted (ascii "x") false 3 ∧
      ¬ ∀ s, (mainRegistrations blankRequest 3 ()).Reachable s → IndicesInOrder s.posted := by
  refine ⟨by decide, fun hall => ?_⟩
  have hreach := Machine.Reach.step
    (.init : (mainRegistrations blankRequest 3 ()).Reachable _) trivial
    (show _ = some _ from rfl : (mainRegistrations blankRequest 3 ()).step _ (.post 0) = some _)
  have hown := (hall _ hreach).own _ (List.mem_singleton_self _)
  exact absurd hown (by decide)

end Cfd.Main
