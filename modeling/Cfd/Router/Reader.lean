import Cfd.Base.Machine
import Cfd.Net.Netlink
import Cfd.Router.Packet
import Mathlib.Tactic.Common

/-!
# The router's reader

`Router::start`, `Router::stop` and `Router::tun_reader_loop` of `src/router/router.cpp`, as one
machine of two parties: the caller, which makes calls of `start` and `stop` one after another, and
the reader thread that a `start` launches. A step is one access to what the two share: `running_`,
the wake pipe, and the thread object `reader_`. What the system answers is part of the input: whether
`pipe2` and `write` succeed, what `poll` reports and what a read of the TUN device returns. Nothing is
assumed of these answers here.

`pump_forwards` is about packets: in any run, what the reader has handed to the sink is what it has
read, less what the policy keeps back.
-/

set_option autoImplicit false

namespace Cfd.Router

open Cfd.Base Cfd.Net Cfd.Net.Netlink

/-! ## What the system answers -/

/-- `revents` of one descriptor: `POLLIN`, and whether there is any other event. -/
structure Revents where
  pollin : Bool
  other : Bool
  deriving DecidableEq

/-- Is there an event? -/
def Revents.any (r : Revents) : Bool := r.pollin || r.other

/-- What `poll` returns: `rc < 0` with `errno`, `rc == 0`, or the events of both descriptors. -/
inductive PollResult
  | error (errno : ErrorCode)
  | timeout
  | ready (tun wake : Revents)

/-- What `read_packet` returns: `n > 0` bytes, `n == 0`, or `n < 0` with `errno`. -/
inductive ReadResult
  | packet (p : Packet)
  | eof
  | error (errno : ErrorCode)

/-! ## The parties -/

/-- Where the reader thread stands. -/
inductive ReaderPc
  /-- No thread has been launched. -/
  | absent
  /-- About to load `running_`. -/
  | test
  /-- About to poll. -/
  | poll
  /-- About to call `read_packet`, after `poll` reported these events of the TUN descriptor. -/
  | read (tun : Revents)
  /-- With a packet of `n` bytes in the buffer. -/
  | route (n : { n : Nat // n ≤ kPacketMtu })
  /-- Has left `tun_reader_loop`. -/
  | left
  deriving DecidableEq

/-- Where the caller stands: outside both functions, at the steps of `start`, or at those of
`stop`. -/
inductive CallerPc
  | outside
  | pipe
  /-- `pipe2` failed; about to store `false`. -/
  | pipeFailed
  | setWakeR
  | setWakeW
  | launch
  | write
  | join
  | resetWakeW
  | resetWakeR
  deriving DecidableEq

/-- The router and its parties. `written` says that a byte is in the pipe whose read end `wake_r_`
is; `joinable` is `reader_.joinable()`; `terminated` that a thread was assigned over a joinable
one. -/
structure State where
  caller : CallerPc
  running : Bool
  wakeR : Bool
  wakeW : Bool
  written : Bool
  joinable : Bool
  terminated : Bool
  reader : ReaderPc
  buf : Buffer

/-- The inputs: a call of `start` or `stop`; the caller's next step, with `ok` for the success of a
system call it makes; the reader's next step, its `poll`, and its read. -/
inductive Input
  | start
  | stop
  | caller (ok : Bool)
  | reader
  | poll (result : PollResult)
  | read (result : ReadResult)

/-- The caller's next step. -/
def State.callerStep (s : State) (ok : Bool) : Option State :=
  match s.caller with
  | .outside => none
  | .pipe => some { s with caller := if ok then .setWakeR else .pipeFailed }
  | .pipeFailed => some { s with running := false, caller := .outside }
  | .setWakeR => some { s with wakeR := true, written := false, caller := .setWakeW }
  | .setWakeW => some { s with wakeW := true, caller := .launch }
  | .launch =>
    if s.joinable then some { s with terminated := true }
    else some { s with reader := .test, buf := .new, joinable := true, caller := .outside }
  | .write => some { s with written := s.written || (s.wakeW && ok), caller := .join }
  | .join =>
    if s.joinable then
      match s.reader with
      | .left => some { s with joinable := false, caller := .resetWakeW }
      | _ => none
    else some { s with caller := .resetWakeW }
  | .resetWakeW => some { s with wakeW := false, caller := .resetWakeR }
  | .resetWakeR => some { s with wakeR := false, caller := .outside }

/-- The reader's steps between its system calls. -/
def State.readerStep (s : State) : Option State :=
  match s.reader with
  | .test => some { s with reader := if s.running then .poll else .left }
  | .route _ => some { s with reader := .test }
  | _ => none

/-- `poll`, and the tests of what it returned. -/
def State.pollStep (s : State) (result : PollResult) : Option State :=
  match s.reader with
  | .poll =>
    match result with
    | .error errno => some { s with reader := if errno = .EINTR then .test else .left }
    | .timeout => some { s with reader := .test }
    | .ready tun wake => some { s with reader := if wake.pollin then .left else .read tun }
  | _ => none

/-- `read_packet`, and the tests of what it returned. -/
def State.readStep (s : State) (result : ReadResult) : Option State :=
  match s.reader with
  | .read _ =>
    match result with
    | .packet p => some { s with buf := s.buf.fill p, reader := .route ⟨p.val.length, p.property.2⟩ }
    | .eof => some { s with reader := .left }
    | .error errno =>
      some { s with reader := if errno = .EINTR ∨ errno = .EAGAIN then .test else .left }
  | _ => none

/-- The router after its construction. -/
def router : Machine State Input where
  init := ⟨.outside, false, false, false, false, false, false, .absent, .new⟩
  step := fun s a =>
    match a with
    | .start =>
      match s.caller with
      | .outside => some (if s.running then s else { s with running := true, caller := .pipe })
      | _ => none
    | .stop =>
      match s.caller with
      | .outside => some (if s.running then { s with running := false, caller := .write } else s)
      | _ => none
    | .caller ok => s.callerStep ok
    | .reader => s.readerStep
    | .poll result => s.pollStep result
    | .read result => s.readStep result

/-! ## Their moves -/

/-- What a step does to the state, one case for each way it can go. -/
inductive Moves (s : State) : Input → State → Prop
  | startAgain (hcaller : s.caller = .outside) (hrunning : s.running = true) : Moves s .start s
  | start (hcaller : s.caller = .outside) (hrunning : s.running = false) :
      Moves s .start { s with running := true, caller := .pipe }
  | pipeOk {ok : Bool} (hcaller : s.caller = .pipe) :
      Moves s (.caller ok) { s with caller := .setWakeR }
  | pipeBad {ok : Bool} (hcaller : s.caller = .pipe) :
      Moves s (.caller ok) { s with caller := .pipeFailed }
  | pipeFailed {ok : Bool} (hcaller : s.caller = .pipeFailed) :
      Moves s (.caller ok) { s with running := false, caller := .outside }
  | setWakeR {ok : Bool} (hcaller : s.caller = .setWakeR) :
      Moves s (.caller ok) { s with wakeR := true, written := false, caller := .setWakeW }
  | setWakeW {ok : Bool} (hcaller : s.caller = .setWakeW) :
      Moves s (.caller ok) { s with wakeW := true, caller := .launch }
  | terminate {ok : Bool} (hcaller : s.caller = .launch) (hjoinable : s.joinable = true) :
      Moves s (.caller ok) { s with terminated := true }
  | launch {ok : Bool} (hcaller : s.caller = .launch) (hjoinable : s.joinable = false) :
      Moves s (.caller ok)
        { s with reader := .test, buf := .new, joinable := true, caller := .outside }
  | stopAgain (hcaller : s.caller = .outside) (hrunning : s.running = false) : Moves s .stop s
  | stop (hcaller : s.caller = .outside) (hrunning : s.running = true) :
      Moves s .stop { s with running := false, caller := .write }
  | write {ok : Bool} (hcaller : s.caller = .write) :
      Moves s (.caller ok) { s with written := s.written || (s.wakeW && ok), caller := .join }
  | join {ok : Bool} (hcaller : s.caller = .join) (hjoinable : s.joinable = true)
      (hleft : s.reader = .left) :
      Moves s (.caller ok) { s with joinable := false, caller := .resetWakeW }
  | joinNone {ok : Bool} (hcaller : s.caller = .join) (hjoinable : s.joinable = false) :
      Moves s (.caller ok) { s with caller := .resetWakeW }
  | resetWakeW {ok : Bool} (hcaller : s.caller = .resetWakeW) :
      Moves s (.caller ok) { s with wakeW := false, caller := .resetWakeR }
  | resetWakeR {ok : Bool} (hcaller : s.caller = .resetWakeR) :
      Moves s (.caller ok) { s with wakeR := false, caller := .outside }
  | turn (hreader : s.reader = .test) (hrunning : s.running = true) :
      Moves s .reader { s with reader := .poll }
  | leave (hreader : s.reader = .test) (hrunning : s.running = false) :
      Moves s .reader { s with reader := .left }
  | pollAgain {result : PollResult} (hreader : s.reader = .poll)
      (hresult : result = .timeout ∨ result = .error .EINTR) :
      Moves s (.poll result) { s with reader := .test }
  | pollError {errno : ErrorCode} (hreader : s.reader = .poll) (herrno : errno ≠ .EINTR) :
      Moves s (.poll (.error errno)) { s with reader := .left }
  | woken {tun wake : Revents} (hreader : s.reader = .poll) (hwake : wake.pollin = true) :
      Moves s (.poll (.ready tun wake)) { s with reader := .left }
  | ready {tun wake : Revents} (hreader : s.reader = .poll) (hwake : wake.pollin = false) :
      Moves s (.poll (.ready tun wake)) { s with reader := .read tun }
  | packet {tun : Revents} {p : Packet} (hreader : s.reader = .read tun) :
      Moves s (.read (.packet p))
        { s with buf := s.buf.fill p, reader := .route ⟨p.val.length, p.property.2⟩ }
  | readAgain {tun : Revents} {errno : ErrorCode} (hreader : s.reader = .read tun)
      (herrno : errno = .EINTR ∨ errno = .EAGAIN) :
      Moves s (.read (.error errno)) { s with reader := .test }
  | readError {tun : Revents} {result : ReadResult} (hreader : s.reader = .read tun)
      (hresult : result = .eof ∨ ∃ errno, result = .error errno ∧ errno ≠ .EINTR ∧ errno ≠ .EAGAIN) :
      Moves s (.read result) { s with reader := .left }
  | routed {n : { n : Nat // n ≤ kPacketMtu }} (hreader : s.reader = .route n) :
      Moves s .reader { s with reader := .test }

theorem callerStep_moves {s s' : State} {ok : Bool} (h : s.callerStep ok = some s') :
    Moves s (.caller ok) s' := by
  unfold State.callerStep at h
  split at h
  next => cases h
  next hcaller =>
    cases h
    cases ok with
    | true => exact .pipeOk hcaller
    | false => exact .pipeBad hcaller
  next hcaller => cases h; exact .pipeFailed hcaller
  next hcaller => cases h; exact .setWakeR hcaller
  next hcaller => cases h; exact .setWakeW hcaller
  next hcaller =>
    by_cases hjoinable : s.joinable = true
    · rw [if_pos hjoinable] at h
      cases h
      exact .terminate hcaller hjoinable
    · rw [if_neg hjoinable] at h
      cases h
      exact .launch hcaller (Bool.eq_false_iff.mpr hjoinable)
  next hcaller => cases h; exact .write hcaller
  next hcaller =>
    by_cases hjoinable : s.joinable = true
    · rw [if_pos hjoinable] at h
      split at h
      next hleft => cases h; exact .join hcaller hjoinable hleft
      next => cases h
    · rw [if_neg hjoinable] at h
      cases h
      exact .joinNone hcaller (Bool.eq_false_iff.mpr hjoinable)
  next hcaller => cases h; exact .resetWakeW hcaller
  next hcaller => cases h; exact .resetWakeR hcaller

theorem readerStep_moves {s s' : State} (h : s.readerStep = some s') : Moves s .reader s' := by
  unfold State.readerStep at h
  split at h
  next hreader =>
    by_cases hrunning : s.running = true
    · rw [if_pos hrunning] at h
      cases h
      exact .turn hreader hrunning
    · rw [if_neg hrunning] at h
      cases h
      exact .leave hreader (Bool.eq_false_iff.mpr hrunning)
  next n hreader => cases h; exact .routed hreader
  next => cases h

theorem pollStep_moves {s s' : State} {result : PollResult} (h : s.pollStep result = some s') :
    Moves s (.poll result) s' := by
  unfold State.pollStep at h
  split at h
  next hreader =>
    cases result with
    | error errno =>
      by_cases herrno : errno = .EINTR
      · simp only [if_pos herrno] at h
        cases h
        exact .pollAgain hreader (Or.inr (herrno ▸ rfl))
      · simp only [if_neg herrno] at h
        cases h
        exact .pollError hreader herrno
    | timeout => cases h; exact .pollAgain hreader (Or.inl rfl)
    | ready tun wake =>
      by_cases hwake : wake.pollin = true
      · simp only [if_pos hwake] at h
        cases h
        exact .woken hreader hwake
      · simp only [if_neg hwake] at h
        cases h
        exact .ready hreader (Bool.eq_false_iff.mpr hwake)
  next => cases h

theorem readStep_moves {s s' : State} {result : ReadResult} (h : s.readStep result = some s') :
    Moves s (.read result) s' := by
  unfold State.readStep at h
  split at h
  next tun hreader =>
    cases result with
    | packet p => cases h; exact .packet hreader
    | eof => cases h; exact .readError hreader (Or.inl rfl)
    | error errno =>
      by_cases herrno : errno = .EINTR ∨ errno = .EAGAIN
      · simp only [if_pos herrno] at h
        cases h
        exact .readAgain hreader herrno
      · simp only [if_neg herrno] at h
        cases h
        exact .readError hreader (Or.inr ⟨errno, rfl, not_or.mp herrno⟩)
  next => cases h

/-- Every step of the router is a move. -/
theorem step_moves {s s' : State} {a : Input} (h : router.step s a = some s') : Moves s a s' := by
  cases a with
  | start =>
    simp only [router] at h
    split at h
    next hcaller =>
      by_cases hrunning : s.running = true
      · rw [if_pos hrunning] at h
        cases h
        exact .startAgain hcaller hrunning
      · rw [if_neg hrunning] at h
        cases h
        exact .start hcaller (Bool.eq_false_iff.mpr hrunning)
    next => cases h
  | stop =>
    simp only [router] at h
    split at h
    next hcaller =>
      by_cases hrunning : s.running = true
      · rw [if_pos hrunning] at h
        cases h
        exact .stop hcaller hrunning
      · rw [if_neg hrunning] at h
        cases h
        exact .stopAgain hcaller (Bool.eq_false_iff.mpr hrunning)
    next => cases h
  | caller ok => exact callerStep_moves h
  | reader => exact readerStep_moves h
  | poll result => exact pollStep_moves h
  | read result => exact readStep_moves h

/-! ## The thread object -/

/-- Without a joinable thread, no reader is in its loop. -/
def Joined (s : State) : Prop :=
  s.joinable = false → s.reader = .absent ∨ s.reader = .left

theorem Joined.step {s s' : State} {a : Input} (h : Joined s) (hmove : Moves s a s') :
    Joined s' := by
  -- a reader that takes a step in its loop contradicts the hypothesis
  have hloop : ∀ {pc : ReaderPc}, s.reader = pc → pc ≠ .absent → pc ≠ .left →
      s.joinable = true := by
    intro pc hpc habsent hleft
    by_contra hjoinable
    rcases h (Bool.eq_false_iff.mpr hjoinable) with hreader | hreader
    · exact habsent (hpc.symm.trans hreader)
    · exact hleft (hpc.symm.trans hreader)
  have habsurd : ∀ {pc : ReaderPc} {P : Prop}, s.reader = pc → pc ≠ .absent → pc ≠ .left →
      s.joinable = false → P := fun hpc habsent hleft hfalse =>
    Bool.noConfusion ((hloop hpc habsent hleft).symm.trans hfalse)
  cases hmove with
  | startAgain => exact h
  | start => exact h
  | pipeOk => exact h
  | pipeBad => exact h
  | pipeFailed => exact h
  | setWakeR => exact h
  | setWakeW => exact h
  | terminate => exact h
  | launch => exact nofun
  | stopAgain => exact h
  | stop => exact h
  | write => exact h
  | join _ _ hleft => exact fun _ => Or.inr hleft
  | joinNone => exact h
  | resetWakeW => exact h
  | resetWakeR => exact h
  | turn hreader => exact habsurd hreader nofun nofun
  | leave => exact fun _ => Or.inr rfl
  | pollAgain hreader => exact habsurd hreader nofun nofun
  | pollError => exact fun _ => Or.inr rfl
  | woken => exact fun _ => Or.inr rfl
  | ready hreader => exact habsurd hreader nofun nofun
  | packet hreader => exact habsurd hreader nofun nofun
  | readAgain hreader => exact habsurd hreader nofun nofun
  | readError => exact fun _ => Or.inr rfl
  | routed hreader => exact habsurd hreader nofun nofun

theorem joined {guard : State → Input → Prop} {s : State} (h : router.Reach guard s) : Joined s :=
  h.invariant (fun _ => Or.inl rfl) fun _ _ _ _ _ hstep hs => hs.step (step_moves hstep)

/-! ## Packets -/

/-- The packet that a step reads. -/
def State.receives (s : State) : Input → List (List UInt8)
  | .read (.packet p) =>
    match s.reader with
    | .read _ => [p.val]
    | _ => []
  | _ => []

/-- The packet that a step hands to the sink: `tunnel_->on_packet(buf.data(), n)`. -/
def State.hands (routes : LpmTrie Action) (tunnel : Bool) (s : State) : Input → List (List UInt8)
  | .reader =>
    match s.reader with
    | .route n => if forwards routes tunnel s.buf.data n then [s.buf.data.take n] else []
    | _ => []
  | _ => []

/-- The packets read in a run, in order. -/
def received (history : List (State × Input)) : List (List UInt8) :=
  Machine.emitted State.receives history

/-- The packets handed to the sink in a run, in order. -/
def handed (routes : LpmTrie Action) (tunnel : Bool) (history : List (State × Input)) :
    List (List UInt8) :=
  Machine.emitted (State.hands routes tunnel) history

/-- The packet that has been read and not yet routed. -/
def State.inHand (s : State) : List (List UInt8) :=
  match s.reader with
  | .route n => [s.buf.data.take n]
  | _ => []

/-- What has been handed on, and what will be of the packet in hand, is what the policy says of all
packets read. -/
def Pumped (t : RouteTable) (history : List (State × Input)) (s : State) : Prop :=
  handed t.trie true history ++ s.inHand.filter (Forwarded t) =
    (received history).filter (Forwarded t)

/-- A step with no packet in hand before or after it, by which none is read. -/
theorem Pumped.quiet {t : RouteTable} {history : List (State × Input)} {s s' : State} {a : Input}
    (h : Pumped t history s) (hreceives : s.receives a = []) (hhands : s.hands t.trie true a = [])
    (hhand : s'.inHand = s.inHand) : Pumped t (history ++ [(s, a)]) s' := by
  unfold Pumped handed received
  rw [Machine.emitted_snoc, Machine.emitted_snoc, hreceives, hhands, hhand, List.append_nil,
    List.append_nil]
  exact h

theorem inHand_eq_nil {s : State} (h : ∀ n, s.reader ≠ .route n) : s.inHand = [] := by
  unfold State.inHand
  split
  next n hn => exact absurd hn (h n)
  next => rfl

theorem Pumped.packet {t : RouteTable} {history : List (State × Input)} {s : State} {tun : Revents}
    {p : Packet} (h : Pumped t history s) (hreader : s.reader = .read tun) :
    Pumped t (history ++ [(s, .read (.packet p))])
      { s with buf := s.buf.fill p, reader := .route ⟨p.val.length, p.property.2⟩ } := by
  have hnone : s.inHand = [] := inHand_eq_nil (by rw [hreader]; nofun)
  unfold Pumped at h
  rw [hnone, List.filter_nil, List.append_nil] at h
  unfold Pumped handed received
  rw [Machine.emitted_snoc, Machine.emitted_snoc, State.receives, hreader, List.filter_append]
  show (Machine.emitted _ history ++ []) ++ [(s.buf.fill p).data.take p.val.length].filter _ = _
  rw [List.append_nil, Buffer.take_fill]
  exact congrArg (· ++ _) h

theorem Pumped.routed {t : RouteTable} {history : List (State × Input)} {s : State}
    {n : { n : Nat // n ≤ kPacketMtu }} (h : Pumped t history s) (hreader : s.reader = .route n) :
    Pumped t (history ++ [(s, .reader)]) { s with reader := .test } := by
  have hsize : n.val ≤ s.buf.data.length := by
    rw [s.buf.size]
    exact n.property
  unfold Pumped at h
  rw [State.inHand, hreader] at h
  unfold Pumped handed received
  rw [Machine.emitted_snoc, Machine.emitted_snoc, State.hands, hreader]
  show (_ ++ _) ++ [] = (Machine.emitted State.receives history ++ []).filter _
  rw [List.append_nil, List.append_nil]
  refine Eq.trans (congrArg (_ ++ ·) ?_) h
  show (if _ then [s.buf.data.take n] else []) = [s.buf.data.take n].filter _
  by_cases hforward : forwards t.trie true s.buf.data n = true
  · rw [if_pos hforward, List.filter_cons_of_pos]
    · rfl
    · exact decide_eq_true ((forwards_iff t hsize).mp hforward)
  · rw [if_neg hforward, List.filter_cons_of_neg]
    · rfl
    · exact fun hpolicy => hforward ((forwards_iff t hsize).mpr (of_decide_eq_true hpolicy))

theorem Pumped.step {t : RouteTable} {history : List (State × Input)} {s s' : State} {a : Input}
    (hjoined : Joined s) (h : Pumped t history s) (hmove : Moves s a s') :
    Pumped t (history ++ [(s, a)]) s' := by
  have hnone : ∀ {pc : ReaderPc}, s.reader = pc → (∀ n, pc ≠ .route n) → s.inHand = [] := by
    intro pc hpc hne
    exact inHand_eq_nil fun n hn => hne n (hpc.symm.trans hn)
  cases hmove with
  -- the caller hands nothing on
  | startAgain | start | pipeOk | pipeBad | pipeFailed | setWakeR | setWakeW | terminate |
    stopAgain | stop | write | join | joinNone | resetWakeW | resetWakeR =>
    exact h.quiet rfl rfl rfl
  | launch _ hjoinable =>
    refine h.quiet rfl rfl ?_
    rcases hjoined hjoinable with hreader | hreader
    · exact (hnone hreader nofun).symm
    · exact (hnone hreader nofun).symm
  | turn hreader | leave hreader =>
    exact h.quiet rfl (by rw [State.hands, hreader]) (hnone hreader nofun).symm
  | pollAgain hreader hresult => exact h.quiet rfl rfl (hnone hreader nofun).symm
  | pollError hreader => exact h.quiet rfl rfl (hnone hreader nofun).symm
  | woken hreader => exact h.quiet rfl rfl (hnone hreader nofun).symm
  | ready hreader => exact h.quiet rfl rfl (hnone hreader nofun).symm
  | packet hreader => exact h.packet hreader
  | readAgain hreader => exact h.quiet rfl rfl (hnone hreader nofun).symm
  | readError hreader hresult =>
    refine h.quiet ?_ rfl (hnone hreader nofun).symm
    rcases hresult with rfl | ⟨errno, rfl, -⟩ <;> rfl
  | routed hreader => exact h.routed hreader

/-- Where the reader is about to poll, whatever `poll` returns is a step. -/
theorem poll_enabled {s : State} (hreader : s.reader = .poll) (result : PollResult) :
    (router.step s (.poll result)).isSome = true := by
  simp only [router, State.pollStep, hreader]
  cases result <;> rfl

/-- Where it is about to read, whatever the read returns is a step. -/
theorem read_enabled {s : State} {tun : Revents} (hreader : s.reader = .read tun)
    (result : ReadResult) : (router.step s (.read result)).isSome = true := by
  simp only [router, State.readStep, hreader]
  cases result <;> rfl

/-- A turn of the loop in which a packet is read. -/
theorem exists_turn {history : List (State × Input)} {s : State}
    (h : router.Run (fun _ _ => True) history s) (hreader : s.reader = .test)
    (hrunning : s.running = true) (p : Packet) :
    ∃ history' s', router.Run (fun _ _ => True) history' s' ∧ s'.reader = .test ∧
      s'.running = true ∧ received history' = received history ++ [p.val] := by
  obtain ⟨tun, htun⟩ : ∃ tun : Revents, tun = ⟨true, false⟩ := ⟨_, rfl⟩
  have hturn : router.step s .reader = some { s with reader := .poll } := by
    simp only [router, State.readerStep, hreader, hrunning, if_true]
  have hpoll : router.step { s with reader := .poll } (.poll (.ready tun ⟨false, false⟩)) =
      some { s with reader := .read tun } := rfl
  have hread : router.step { s with reader := .read tun } (.read (.packet p)) =
      some { s with buf := s.buf.fill p, reader := .route ⟨p.val.length, p.property.2⟩ } := rfl
  have hrun := (((h.step trivial hturn).step trivial hpoll).step trivial hread).step (a := .reader)
    trivial rfl
  refine ⟨_, _, hrun, rfl, hrunning, ?_⟩
  simp only [received, Machine.emitted_snoc, State.receives, List.append_nil]

/-- **Every sequence of packets is read in some run.** -/
theorem exists_received (ps : List Packet) : ∃ history s,
    router.Run (fun _ _ => True) history s ∧ s.reader = .test ∧
      received history = ps.map Subtype.val := by
  suffices h : ∃ history s, router.Run (fun _ _ => True) history s ∧ s.reader = .test ∧
      s.running = true ∧ received history = ps.map Subtype.val by
    obtain ⟨history, s, hrun, hreader, -, hreceived⟩ := h
    exact ⟨history, s, hrun, hreader, hreceived⟩
  induction ps using List.reverseRecOn with
  | nil =>
    have hexec : router.exec (fun _ _ => True) router.init
        [.start, .caller true, .caller true, .caller true, .caller true] = some _ := rfl
    exact ⟨_, _, Machine.run_of_exec hexec, rfl, rfl, rfl⟩
  | append_singleton ps p ih =>
    obtain ⟨history, s, hrun, hreader, hrunning, hreceived⟩ := ih
    obtain ⟨history', s', hrun', hreader', hrunning', hreceived'⟩ :=
      exists_turn hrun hreader hrunning p
    refine ⟨history', s', hrun', hreader', hrunning', ?_⟩
    rw [hreceived', hreceived, List.map_append, List.map_singleton]

/-- **The pump is its policy.** Over any table of routes, and after any run of calls, poll results
and read results: the packets handed to the sink are those read that the tunnel is to have, in the
order in which they were read and byte for byte. While a packet is between its read and its routing,
it is not counted as handed yet. -/
theorem pump_forwards (t : RouteTable) {history : List (State × Input)} {s : State}
    (h : router.Run (fun _ _ => True) history s) :
    handed t.trie true history ++ s.inHand.filter (Forwarded t) =
        (received history).filter (Forwarded t) ∧
      ((∀ n, s.reader ≠ .route n) →
        handed t.trie true history = (received history).filter (Forwarded t)) := by
  have hpumped : Pumped t history s := h.invariant (I := Pumped t) (by rfl)
    fun _ _ _ _ hrun _ hstep hs => hs.step (joined hrun.reach) (step_moves hstep)
  refine ⟨hpumped, fun hreader => ?_⟩
  unfold Pumped at hpumped
  rwa [inHand_eq_nil hreader, List.filter_nil, List.append_nil] at hpumped

/-- Everything to the tunnel, but one network that is dropped. -/
def sampleTable : RouteTable where
  routes := [(⟨.v4 0 0 0 0, 0⟩, .ToTunnel), (⟨.v4 10 0 0 0, 8⟩, .Drop)]
  valid := by decide

/-- An IPv4 header of zeros, with a first byte and a destination `d.0.0.0`. -/
def samplePacket (d : UInt8) : Packet :=
  ⟨[0x45, 0, 0, 0, 0, 0, 0, 0, 0, 0, 0, 0, 0, 0, 0, 0, d, 0, 0, 0],
    by show 0 < 20 ∧ 20 ≤ kPacketMtu; decide⟩

/-- A start, and two packets read and routed, of which the first is to the dropped network. -/
def twoPackets : List Input :=
  [.start, .caller true, .caller true, .caller true, .caller true] ++
    [10, 8].flatMap fun d => [.reader, .poll (.ready ⟨true, false⟩ ⟨false, false⟩),
      .read (.packet (samplePacket d)), .reader]

theorem pump_forwards_two : ∃ history s, router.Run (fun _ _ => True) history s ∧
    s.reader = .test ∧ received history = [(samplePacket 10).val, (samplePacket 8).val] ∧
    handed sampleTable.trie true history = (received history).filter (Forwarded sampleTable) := by
  have hexec : router.exec (fun _ _ => True) router.init twoPackets = some _ := rfl
  have hrun := Machine.run_of_exec hexec
  exact ⟨_, _, hrun, rfl, rfl, (pump_forwards sampleTable hrun).2 (by simp)⟩

end Cfd.Router
