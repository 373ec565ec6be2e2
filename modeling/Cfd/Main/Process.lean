import Cfd.Base.Refinement
import Cfd.Tunnel.Datagram
import Cfd.Tunnel.ThreadExit
import Mathlib.Data.List.FinRange

/-!
# The process

All of `src/main.cpp` behind the set-up, for any number `n` of clients: a connection thread for each, one
router thread, one registration thread with its queue, `main` with `shutdown_all`, the signal handler,
and msquic, which delivers the events of every connection, datagrams among them. What a thread does to
its own client are the steps of `Cfd.Tunnel.Session`; here is what the clients share: `g_stop`, the
router with its round-robin sink, `kj_queue` with `kj_stop`, the order in which `main` closes the clients
and joins their threads, and the TUN device.

A datagram is delivered to `deliver_inbound`, which decodes it and copies `handler_`, and then calls the
copy: `inject_from_tunnel` of the router, which `main` owns. The callbacks of one connection run one at
a time, and the close of a connection waits for the one that runs, whichever it is. `written` is kept for
the statements: the packets that were passed to `write_packet`, with the client they came by.

`State.client` is what one client sees of the process, and `State.seen` which of its parties an action
is. That this is a run of the session is `Cfd.Main.ClientView`.
-/

set_option autoImplicit false

namespace Cfd.Main.Process

open Cfd.Base Cfd.Tunnel
open Session (Handle Shared ConnEvent ConnOp ClosePc UsePc threadStep closeStep useStep deliver
  callbackStep)

/-! ## The state -/

/-- Where the callback for a datagram stands. -/
inductive InboundPc where
  /-- About to decode it, and to take `state_mu_` for the copy of `handler_`. -/
  | decode (data : Text)
  /-- About to call the copy. -/
  | call (packet : Text)
  deriving DecidableEq

/-- A client, the thread that serves it, and the callbacks for datagrams of its connections. -/
structure Client where
  shared : Shared
  thread : Session.ThreadPc
  inbound : Handle → Option InboundPc

/-- Where the router thread stands: outside `on_packet`, or in `send_packet` of a client. -/
inductive RouterPc (n : Nat) where
  | idle
  | sending (i : Fin n) (p : UsePc)
  deriving DecidableEq

/-- Where the registration thread stands. -/
inductive KjPc (n : Nat) where
  /-- About to take a work, or to leave the loop. -/
  | acquire
  | serving (i : Fin n) (p : Session.KjPc)
  /-- Behind the loop, about to answer what is left. -/
  | draining
  | exited
  deriving DecidableEq

/-- Where `main` stands. -/
inductive MainPc (n : Nat) where
  /-- The wait for the first healthy connection. -/
  | waiting
  /-- The router runs. -/
  | pumping
  /-- `router->stop()`. -/
  | stopping
  /-- `g_stop.store(true)` in `shutdown_all`. -/
  | storeStop
  /-- In `close` of a client, with these still to be closed. -/
  | closing (i : Fin n) (rest : List (Fin n)) (p : ClosePc)
  /-- The threads of these are still to be joined. -/
  | joining (rest : List (Fin n))
  /-- About to set `kj_stop`. -/
  | stopKj
  | joinKj
  | done
  deriving DecidableEq

/-- The process. `kj_queue` is the clients that its works are for. -/
structure State (n : Nat) where
  clients : Fin n → Client
  gStop : Bool
  router : RouterPc n
  next : BitVec 64
  queue : List (Fin n)
  kj : KjPc n
  kjStop : Bool
  main : MainPc n
  written : List (Fin n × Text)

variable {n : Nat}

/-- The loop of `shutdown_all` over these clients, and the loop behind it. -/
def MainPc.closeAll : List (Fin n) → MainPc n
  | [] => .joining (List.finRange n)
  | i :: rest => .closing i rest .lock

namespace State

/-- The members of a client and the flags of the process. -/
def shared (s : State n) (i : Fin n) : Shared :=
  { (s.clients i).shared with gStop := s.gStop }

def setClient (s : State n) (i : Fin n) (c : Client) : State n :=
  { s with clients := Function.update s.clients i c }

def setInbound (s : State n) (i : Fin n) (h : Handle) (p : Option InboundPc) : State n :=
  s.setClient i { s.clients i with inbound := Function.update (s.clients i).inbound h p }

end State

/-- The close of a connection that waits for the callback of a datagram. -/
def Client.waits (c : Client) : ConnOp → Bool
  | .reset (.drain h) | .store _ (.drain h) => (c.inbound h).isSome
  | _ => false

/-! ## The steps -/

/-- One step of the connection thread of a client. -/
def State.threadStep (s : State n) (i : Fin n) (ok : Bool) : Option (State n) :=
  let c := s.clients i
  if c.waits c.thread.connOp then none
  else
    (Session.threadStep (s.shared i) ok c.thread).map fun r =>
      { s.setClient i { c with shared := r.1, thread := r.2 } with
        queue := if c.thread = .post then s.queue ++ [i] else s.queue }

/-- One step of `main`, where `ok` says whether a connection came up. -/
def State.mainStep (s : State n) (ok : Bool) : Option (State n) :=
  match s.main with
  | .waiting => some { s with main := if ok && !s.gStop then .pumping else .storeStop }
  | .pumping => if s.gStop then some { s with main := .stopping } else none
  | .stopping => if s.router = .idle then some { s with main := .storeStop } else none
  | .storeStop => some { s with gStop := true, main := .closeAll (List.finRange n) }
  | .closing i rest p =>
    let c := s.clients i
    if c.waits p.connOp then none
    else
      (closeStep .main (s.shared i) p).map fun r =>
        { s.setClient i { c with shared := r.1 } with
          main := r.2.elim (.closeAll rest) (.closing i rest) }
  | .joining [] => some { s with main := .stopKj }
  | .joining (i :: rest) =>
    if (s.clients i).thread = .done then some { s with main := .joining rest } else none
  | .stopKj => some { s with kjStop := true, main := .joinKj }
  | .joinKj => if s.kj = .exited then some { s with main := .done } else none
  | .done => none

/-- One step of the router thread: `on_packet` of the sink takes the client that is next in turn. -/
def State.routerStep (s : State n) : Option (State n) :=
  match s.router with
  | .idle =>
    if s.main = .pumping then
      if hn : 0 < n then
        some { s with
          router := .sending ⟨s.next.toNat % n, Nat.mod_lt _ hn⟩ .guardConnection
          next := s.next + 1 }
      else some s
    else none
  | .sending i p =>
    match useStep (s.shared i) p with
    | .goto p' => some { s with router := .sending i p' }
    | .rejected | .called => some { s with router := .idle }

/-- One step of the registration thread, where `ok` is the outcome of the call that it makes. -/
def State.kjStep (s : State n) (ok : Bool) : Option (State n) :=
  match s.kj with
  | .acquire =>
    match s.queue with
    | i :: rest =>
      some { s.setClient i { s.clients i with shared := { s.shared i with future := .taken } } with
        queue := rest
        kj := .serving i (.registering .guardConnection) }
    | [] => if s.kjStop then some { s with kj := .draining } else none
  | .serving i p =>
    (Session.kjStep (s.shared i) ok p).map fun r =>
      { s.setClient i { s.clients i with shared := r.1 } with
        kj := if r.2 = .idle then .acquire else .serving i r.2 }
  | .draining =>
    some { s with
      clients := fun i =>
        if i ∈ s.queue then
          { s.clients i with shared := { s.shared i with future := .answered false } }
        else s.clients i
      queue := []
      kj := .exited }
  | .exited => none

/-- Delivery of an event other than a datagram. -/
def State.eventStep (s : State n) (i : Fin n) (h : Handle) (e : ConnEvent) : Option (State n) :=
  if (s.clients i).inbound h ≠ none then none
  else (deliver (s.shared i) h e).map fun sh => s.setClient i { s.clients i with shared := sh }

/-- Delivery of a datagram. -/
def State.datagramStep (s : State n) (i : Fin n) (h : Handle) (data : Text) : Option (State n) :=
  let sh := s.shared i
  if sh.next .connection ≤ h ∨ (sh.handles .connection h).closed ∨ (sh.conn h).callback ≠ none ∨
      (s.clients i).inbound h ≠ none then none
  else some (s.setInbound i h (some (.decode data)))

/-- One step of the callback for a datagram: `deliver_inbound` up to the call, and the call, which
passes the packet to `write_packet`. -/
def State.inboundStep (s : State n) (i : Fin n) (h : Handle) : Option (State n) :=
  match (s.clients i).inbound h with
  | none => none
  | some (.decode data) =>
    some (s.setInbound i h ((deliverInbound (some ()) data).map fun r => .call r.2))
  | some (.call packet) =>
    some { s.setInbound i h none with written := s.written ++ [(i, packet)] }

/-- Who moves. -/
inductive Action (n : Nat) where
  | thread (i : Fin n) (ok : Bool)
  | main (ok : Bool)
  | router
  | kj (ok : Bool)
  | event (i : Fin n) (h : Handle) (e : ConnEvent)
  | callback (i : Fin n) (h : Handle)
  | datagram (i : Fin n) (h : Handle) (data : Text)
  /-- The callback for a datagram. -/
  | inbound (i : Fin n) (h : Handle)
  /-- The signal handler. -/
  | signal
  deriving DecidableEq

/-- Any step. -/
def State.step (s : State n) : Action n → Option (State n)
  | .thread i ok => s.threadStep i ok
  | .main ok => s.mainStep ok
  | .router => s.routerStep
  | .kj ok => s.kjStep ok
  | .event i h e => s.eventStep i h e
  | .callback i h =>
    (callbackStep (s.shared i) h).map fun sh => s.setClient i { s.clients i with shared := sh }
  | .datagram i h data => s.datagramStep i h data
  | .inbound i h => s.inboundStep i h
  | .signal => some { s with gStop := true }

/-- The runs of a process with `n` clients. -/
def process (n : Nat) : Machine (State n) (Action n) where
  init := ⟨fun _ => ⟨.initial, .install, fun _ => none⟩, false, .idle, 0, [], .acquire, false, .waiting, []⟩
  step := State.step

/-! ## What a client sees -/

/-- Where `main` stands with a client: it closes the others before and behind it. -/
def MainPc.of (i : Fin n) : MainPc n → Session.MainPc
  | .waiting => .waiting
  | .pumping => .pumping
  | .stopping => .stopping
  | .storeStop => .storeStop
  | .closing j rest p => if j = i then .closing p else if i ∈ rest then .closing .lock else .joining
  | .joining rest => if i ∈ rest then .joining else .done
  | .stopKj | .joinKj | .done => .done

def RouterPc.of (i : Fin n) : RouterPc n → Session.RouterPc
  | .idle => .idle
  | .sending j p => if j = i then .sending p else .idle

def KjPc.of (i : Fin n) : KjPc n → Session.KjPc
  | .serving j p => if j = i then p else .idle
  | .acquire | .draining | .exited => .idle

/-- The process as a client sees it. -/
def State.client (s : State n) (i : Fin n) : Session.State where
  shared := s.shared i
  thread := (s.clients i).thread
  router := s.router.of i
  kj := s.kj.of i
  main := s.main.of i

/-- The client that a step of `main` is about, where it is about one. -/
def MainPc.about : MainPc n → Fin n → Bool
  | .waiting | .pumping | .stopping | .storeStop => fun _ => true
  | .closing j _ _ | .joining (j :: _) => fun i => j = i
  | .joining [] | .stopKj | .joinKj | .done => fun _ => false

/-- The client that a step of the registration thread is about. -/
def State.serves (s : State n) (i : Fin n) : Bool :=
  match s.kj with
  | .acquire => s.queue.head? = some i
  | .serving j _ => j = i
  | .draining | .exited => false

/-- The client that a step of the router thread is about. -/
def State.routes (s : State n) (i : Fin n) : Bool :=
  match s.router with
  | .idle => s.next.toNat % n = i
  | .sending j _ => j = i

/-- What a client sees of an action. -/
def State.seen (s : State n) (i : Fin n) : Action n → Option Session.Action
  | .thread j ok => if j = i then some (.thread ok) else none
  | .main ok => if s.main.about i then some (.main ok) else none
  | .router => if s.routes i then some .router else none
  | .kj ok => if s.serves i then some (.kj ok) else none
  | .event j h e => if j = i then some (.event h e) else none
  | .callback j h => if j = i then some (.callback h) else none
  | .datagram _ _ _ | .inbound _ _ => none
  | .signal => some .signal

/-- The close of a registration returns when the connections opened under it are closed. -/
def Blocks (s : State n) (a : Action n) : Prop :=
  ∀ i, ∀ b ∈ s.seen i a, Session.Blocks (s.client i) b

instance (s : State n) (a : Action n) : Decidable (Blocks s a) :=
  inferInstanceAs (Decidable (∀ i, ∀ b ∈ s.seen i a, Session.Blocks (s.client i) b))

end Cfd.Main.Process
