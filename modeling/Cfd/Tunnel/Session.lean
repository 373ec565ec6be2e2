import Cfd.Base.Machine
import Mathlib.Logic.Function.Basic

/-!
# One tunnel connection

`QuicClientImpl` of `src/tunnel/quic_client.cpp` with the threads that touch it: the connection
thread of `src/main.cpp` with its reconnect loop, the router thread in `send_packet`, the
registration thread in `register_connection`, `main` with its shutdown, and msquic, which delivers
the events of every connection that has not been closed. One step is one read or write of
`registration_`, `configuration_`, `connection_`, `handshake_ok_` or `disc_fired`, one call of
msquic, or one critical section.

A `unique_ptr` is assigned in three parts: its old value is read, the new one is written, and the
handle that was held is closed; `reset` assigns a null handle. The pointer and its deleter are written in
one step, so a handle is always closed by the function of its kind. Closing takes two steps, the call and
its return: a connection's close returns when no callback of that connection runs. The wait for
`disc_fired` or `g_stop` is one step, enabled when one of them is set; `Cfd.Tunnel.WakeupCv` spells it out.

What is assumed of msquic: it delivers one event of a connection at a time, `CONNECTED` at most
once, after `ConnectionStart` has succeeded and before any shutdown event, and no event once the
connection's close has returned. Nothing is assumed of delays, so every wait may time out.
-/

set_option autoImplicit false

namespace Cfd.Tunnel.Session

open Cfd.Base

/-! ## Handles and connections -/

/-- The kinds of handles that the client holds. -/
inductive HandleKind where
  | registration
  | configuration
  | connection
  deriving DecidableEq

/-- A handle, among those of its kind. -/
abbrev Handle := Nat

/-- What msquic knows of a handle: the registration it was opened under, and whether its close has
been called and has returned. -/
structure HandleRec where
  parent : Option Handle := none
  closing : Bool := false
  closed : Bool := false

/-- Where a callback stands. -/
inductive CallbackPc where
  /-- `CONNECTED`: about to set the handshake flags. -/
  | connectedLock
  /-- `fire_disconnect_locked_`: about to take `state_mu_`. -/
  | fireLock
  /-- Behind the critical section; whether a handler has been copied. -/
  | fireCall (copied : Bool)
  deriving DecidableEq

/-- What has happened to a connection: started, `CONNECTED` delivered, a shutdown event delivered, a
shutdown event processed; and the callback that runs. -/
structure ConnRec where
  started : Bool := false
  connected : Bool := false
  shutDown : Bool := false
  processed : Bool := false
  callback : Option CallbackPc := none

/-- The events of a connection that the client handles. -/
inductive ConnEvent where
  | connected
  | shutdownInitiatedByTransport
  | shutdownInitiatedByPeer
  | shutdownComplete
  deriving DecidableEq

/-! ## What the threads share -/

/-- The two threads that call `close`. -/
inductive Closer where
  | thread
  | main
  deriving DecidableEq

/-- The future of a registration. -/
inductive Future where
  | none
  | posted
  | taken
  | answered (ok : Bool)
  deriving DecidableEq

/-- The members of the client, the flags of `main`, and the handles. `mine` and `invoked` are kept
for the statements: the connection opened, and the handler's invocations, since the last reset of
the flags. -/
structure Shared where
  handshakeDone : Bool
  handshakeOk : Bool
  discNotified : Bool
  /-- `disconnect_handler_` is the connection thread's closure. -/
  disconnectHandler : Bool
  apiHeld : Bool
  held : HandleKind → Option Handle
  closeMu : Option Closer
  discFired : Bool
  gStop : Bool
  future : Future
  next : HandleKind → Handle
  handles : HandleKind → Handle → HandleRec
  conn : Handle → ConnRec
  mine : Option Handle
  invoked : Nat

namespace Shared

/-- The reset of the flags at the start of `connect`. -/
def resetFlags (s : Shared) : Shared :=
  { s with
    handshakeDone := false
    handshakeOk := false
    discNotified := false
    mine := none
    invoked := 0 }

/-- A successful open of a handle of this kind. -/
def openHandle (s : Shared) (kind : HandleKind) (parent : Option Handle) : Shared :=
  let h := s.next kind
  { s with
    next := Function.update s.next kind (h + 1)
    handles := Function.update s.handles kind (Function.update (s.handles kind) h { parent })
    conn := if kind = .connection then Function.update s.conn h {} else s.conn
    mine := if kind = .connection then some h else s.mine }

/-- A write of one of the three pointers. -/
def write (s : Shared) (kind : HandleKind) (new : Option Handle) : Shared :=
  { s with held := Function.update s.held kind new }

/-- Change the record of a handle. -/
def setHandle (s : Shared) (kind : HandleKind) (h : Handle) (r : HandleRec) : Shared :=
  { s with handles := Function.update s.handles kind (Function.update (s.handles kind) h r) }

/-- Change the record of a connection. -/
def setConn (s : Shared) (h : Handle) (r : ConnRec) : Shared :=
  { s with conn := Function.update s.conn h r }

end Shared

/-! ## Assigning a handle, closing, connecting -/

/-- Where the assignment of a handle stands. -/
inductive AssignPc where
  | read
  | write (old : Option Handle)
  | call (old : Handle)
  | drain (old : Handle)
  deriving DecidableEq

/-- One step of an assignment; no position is its end. -/
def assignStep (s : Shared) (kind : HandleKind) (new : Option Handle) :
    AssignPc → Option (Shared × Option AssignPc)
  | .read => some (s, some (.write (s.held kind)))
  | .write old => some (s.write kind new, old.map .call)
  | .call old =>
    some (s.setHandle kind old { s.handles kind old with closing := true }, some (.drain old))
  | .drain old =>
    if kind = .connection ∧ (s.conn old).callback ≠ none then none
    else some (s.setHandle kind old { s.handles kind old with closed := true }, none)

/-- Where `close` stands. -/
inductive ClosePc where
  /-- About to take `close_mu_`. -/
  | lock
  /-- `if (connection_)`. -/
  | test
  /-- `ConnectionShutdown`. -/
  | shutdown
  | reset (kind : HandleKind) (p : AssignPc)
  | unlock
  deriving DecidableEq

/-- What follows the reset of a handle in `close`. -/
def HandleKind.afterReset : HandleKind → ClosePc
  | .connection => .reset .configuration .read
  | .configuration => .reset .registration .read
  | .registration => .unlock

/-- One step of `close`, called by `who`; no position is its end. -/
def closeStep (who : Closer) (s : Shared) : ClosePc → Option (Shared × Option ClosePc)
  | .lock => if s.closeMu = none then some ({ s with closeMu := some who }, some .test) else none
  | .test =>
    some (s, some (if s.held .connection = none then .reset .connection .read else .shutdown))
  | .shutdown => some (s, some (.reset .connection .read))
  | .reset kind p =>
    match assignStep s kind none p with
    | none => none
    | some (s', some p') => some (s', some (.reset kind p'))
    | some (s', none) => some (s', some kind.afterReset)
  | .unlock => some ({ s with closeMu := none }, none)

/-- Where `connect` stands. -/
inductive ConnectPc where
  | resetFlags
  | apiInit
  /-- `registration_.get()`, for a handle opened under it. -/
  | openHandle (kind : HandleKind)
  | openCall (kind : HandleKind) (parent : Option Handle)
  | store (kind : HandleKind) (raw : Handle) (p : AssignPc)
  | loadCredential
  /-- `getaddrinfo`. -/
  | resolve
  | setParam
  /-- `connection_.get()` for `ConnectionStart`, then `configuration_.get()`, then the call. -/
  | start
  | startConfig (h : Option Handle)
  | startCall (h config : Option Handle)
  /-- The wait for the handshake, and the test of `handshake_ok_` behind it. -/
  | handshake
  deriving DecidableEq

/-- What follows the store of a handle in `connect`. -/
def HandleKind.afterStore : HandleKind → ConnectPc
  | .registration => .openHandle .configuration
  | .configuration => .loadCredential
  | .connection => .resolve

/-- What a step of `connect` leads to: another position, or its return. -/
inductive ConnectNext where
  | goto (p : ConnectPc)
  | returned (ok : Bool)

/-- One step of `connect`, where `ok` is the outcome of the call that it makes. -/
def connectStep (s : Shared) (ok : Bool) : ConnectPc → Option (Shared × ConnectNext)
  | .resetFlags => some (s.resetFlags, .goto .apiInit)
  | .apiInit =>
    if s.apiHeld then some (s, .goto (.openHandle .registration))
    else if ok then some ({ s with apiHeld := true }, .goto (.openHandle .registration))
    else some (s, .returned false)
  | .openHandle kind =>
    some (s, .goto (.openCall kind (if kind = .registration then none else s.held .registration)))
  | .openCall kind parent =>
    if ok && (kind = .registration || parent.isSome) then
      some (s.openHandle kind parent, .goto (.store kind (s.next kind) .read))
    else some (s, .returned false)
  | .store kind raw p =>
    match assignStep s kind (some raw) p with
    | none => none
    | some (s', some p') => some (s', .goto (.store kind raw p'))
    | some (s', none) => some (s', .goto kind.afterStore)
  | .loadCredential => some (s, if ok then .goto (.openHandle .connection) else .returned false)
  | .resolve => some (s, if ok then .goto .setParam else .returned false)
  | .setParam => some (s, .goto .start)
  | .start => some (s, .goto (.startConfig (s.held .connection)))
  | .startConfig h => some (s, .goto (.startCall h (s.held .configuration)))
  | .startCall (some h) (some _) =>
    if ok then some (s.setConn h { s.conn h with started := true }, .goto .handshake)
    else some (s, .returned false)
  | .startCall _ _ => some (s, .returned false)
  | .handshake => some (s, .returned s.handshakeOk)

/-! ## The connection thread -/

/-- The places where the connection thread calls `close`. -/
inductive CloseSite where
  | loopTop
  | regFailed
  | exit
  deriving DecidableEq

/-- Where the connection thread stands. -/
inductive ThreadPc where
  /-- `set_disconnect_handler`. -/
  | install
  /-- `while (!g_stop)`. -/
  | check
  /-- `disc_fired.store(false)`. -/
  | clearDisc
  | close (site : CloseSite) (p : ClosePc)
  | connect (p : ConnectPc)
  | sleep
  | post
  /-- `fut.get()`. -/
  | await
  | advertise
  /-- The wait for `disc_fired` or `g_stop`. -/
  | wait
  /-- `disc_fired && !g_stop`, behind the wait. -/
  | recheck
  /-- `set_disconnect_handler(nullptr)`. -/
  | clearHandler
  | done
  deriving DecidableEq

/-- What follows a `close`. -/
def CloseSite.after : CloseSite → ThreadPc
  | .loopTop => .connect .resetFlags
  | .regFailed => .sleep
  | .exit => .done

/-- One step of the connection thread, where `ok` is the outcome of the call that it makes. -/
def threadStep (s : Shared) (ok : Bool) : ThreadPc → Option (Shared × ThreadPc)
  | .install => some ({ s with disconnectHandler := true }, .check)
  | .check => some (s, if s.gStop then .clearHandler else .clearDisc)
  | .clearDisc => some ({ s with discFired := false }, .close .loopTop .lock)
  | .close site p =>
    match closeStep .thread s p with
    | none => none
    | some (s', some p') => some (s', .close site p')
    | some (s', none) => some (s', site.after)
  | .connect p =>
    match connectStep s ok p with
    | none => none
    | some (s', .goto p') => some (s', .connect p')
    | some (s', .returned true) => some (s', .post)
    | some (s', .returned false) => some (s', .sleep)
  | .sleep => some (s, .check)
  | .post => some ({ s with future := .posted }, .await)
  | .await =>
    match s.future with
    | .answered true => some ({ s with future := .none }, .advertise)
    | .answered false => some ({ s with future := .none }, .close .regFailed .lock)
    | _ => none
  | .advertise => some (s, .wait)
  | .wait => if s.discFired || s.gStop then some (s, .recheck) else none
  | .recheck => some (s, if s.discFired && !s.gStop then .sleep else .check)
  | .clearHandler => some ({ s with disconnectHandler := false }, .close .exit .lock)
  | .done => none

/-! ## The users of the connection -/

/-- Where a guarded use of `connection_` stands: `if (!connection_ || !handshake_ok_)`, then
`connection_.get()`, then the call with what was got. -/
inductive UsePc where
  | guardConnection
  | guardHandshake
  | fetch
  | call (h : Option Handle)
  deriving DecidableEq

/-- What a step of a guarded use leads to. -/
inductive UseNext where
  | goto (p : UsePc)
  | rejected
  | called

/-- One step of a guarded use. -/
def useStep (s : Shared) : UsePc → UseNext
  | .guardConnection => if s.held .connection = none then .rejected else .goto .guardHandshake
  | .guardHandshake => if s.handshakeOk then .goto .fetch else .rejected
  | .fetch => .goto (.call (s.held .connection))
  | .call _ => .called

/-- Where the router thread stands: outside `send_packet`, or in it. -/
inductive RouterPc where
  | idle
  | sending (p : UsePc)
  deriving DecidableEq

/-- Where the registration thread stands with this client: elsewhere, in `register_connection` up
to `StreamOpen`, behind that, or about to set the promise. -/
inductive KjPc where
  | idle
  | registering (p : UsePc)
  | rpc
  | answer (ok : Bool)
  deriving DecidableEq

/-- One step of the registration thread, where `ok` is the outcome of the call that it makes. -/
def kjStep (s : Shared) (ok : Bool) : KjPc → Option (Shared × KjPc)
  | .idle =>
    if s.future = .posted then some ({ s with future := .taken }, .registering .guardConnection)
    else none
  | .registering p =>
    match useStep s p with
    | .goto p' => some (s, .registering p')
    | .rejected => some (s, .answer false)
    | .called => some (s, .rpc)
  | .rpc => some (s, .answer ok)
  | .answer ok => some ({ s with future := .answered ok }, .idle)

/-! ## `main` and msquic -/

/-- Where `main` stands. -/
inductive MainPc where
  /-- The wait for the first healthy connection. -/
  | waiting
  /-- The router runs. -/
  | pumping
  /-- `router->stop()`, which joins the router thread. -/
  | stopping
  /-- `g_stop.store(true)` in `shutdown_all`. -/
  | storeStop
  | closing (p : ClosePc)
  | joining
  | done
  deriving DecidableEq

/-- The client, the threads, and `main`. -/
structure State where
  shared : Shared
  thread : ThreadPc
  router : RouterPc
  kj : KjPc
  main : MainPc

/-- One step of the router thread, which runs from `start` to `stop`. -/
def routerStep (s : State) : Option RouterPc :=
  match s.router with
  | .idle => if s.main = .pumping then some (.sending .guardConnection) else none
  | .sending p =>
    match useStep s.shared p with
    | .goto p' => some (.sending p')
    | .rejected => some .idle
    | .called => some .idle

/-- One step of `main`, where `ok` says whether a connection came up. -/
def mainStep (s : State) (ok : Bool) : Option (Shared × MainPc) :=
  match s.main with
  | .waiting => some (s.shared, if ok && !s.shared.gStop then .pumping else .storeStop)
  | .pumping => if s.shared.gStop then some (s.shared, .stopping) else none
  | .stopping => if s.router = .idle then some (s.shared, .storeStop) else none
  | .storeStop => some ({ s.shared with gStop := true }, .closing .lock)
  | .closing p =>
    match closeStep .main s.shared p with
    | none => none
    | some (s', some p') => some (s', .closing p')
    | some (s', none) => some (s', .joining)
  | .joining => if s.thread = .done then some (s.shared, .done) else none
  | .done => none

/-- Delivery of an event, where msquic may deliver it. -/
def deliver (s : Shared) (h : Handle) (e : ConnEvent) : Option Shared :=
  let c := s.conn h
  if s.next .connection ≤ h ∨ (s.handles .connection h).closed ∨ c.callback ≠ none then none
  else
    match e with
    | .connected =>
      if c.started && !c.connected && !c.shutDown then
        some (s.setConn h { c with connected := true, callback := some .connectedLock })
      else none
    | _ => some (s.setConn h { c with shutDown := true, callback := some .fireLock })

/-- One step of the callback that runs for a connection. -/
def callbackStep (s : Shared) (h : Handle) : Option Shared :=
  let c := s.conn h
  match c.callback with
  | none => none
  | some .connectedLock =>
    some { s.setConn h { c with callback := none } with handshakeOk := true, handshakeDone := true }
  | some .fireLock =>
    if s.handshakeOk && !s.discNotified then
      some { s.setConn h { c with callback := some (.fireCall s.disconnectHandler) } with
        handshakeDone := true, discNotified := true }
    else
      some { s.setConn h { c with callback := some (.fireCall false) } with handshakeDone := true }
  | some (.fireCall copied) =>
    let s := s.setConn h { c with callback := none, processed := true }
    some (if copied then { s with discFired := true, invoked := s.invoked + 1 } else s)

/-- Who moves. -/
inductive Action where
  | thread (ok : Bool)
  | main (ok : Bool)
  | router
  | kj (ok : Bool)
  | event (h : Handle) (e : ConnEvent)
  | callback (h : Handle)
  /-- The signal handler. -/
  | signal
  deriving DecidableEq

/-- Any step. -/
def State.step (s : State) : Action → Option State
  | .thread ok => (threadStep s.shared ok s.thread).map fun r =>
      { s with shared := r.1, thread := r.2 }
  | .main ok => (mainStep s ok).map fun r => { s with shared := r.1, main := r.2 }
  | .router => (routerStep s).map fun p => { s with router := p }
  | .kj ok => (kjStep s.shared ok s.kj).map fun r => { s with shared := r.1, kj := r.2 }
  | .event h e => (deliver s.shared h e).map fun sh => { s with shared := sh }
  | .callback h => (callbackStep s.shared h).map fun sh => { s with shared := sh }
  | .signal => some { s with shared := { s.shared with gStop := true } }

/-- Before the connection thread's first step. -/
def Shared.initial : Shared where
  handshakeDone := false
  handshakeOk := false
  discNotified := false
  disconnectHandler := false
  apiHeld := false
  held := fun _ => none
  closeMu := none
  discFired := false
  gStop := false
  future := .none
  next := fun _ => 0
  handles := fun _ _ => {}
  conn := fun _ => {}
  mine := none
  invoked := 0

/-- The runs of one connection with all its parties. -/
def session : Machine State Action where
  init := ⟨.initial, .install, .idle, .idle, .waiting⟩
  step := State.step

/-! ## A first connection -/

/-- Steps of the connection thread, with the calls that it makes successful. -/
def threadSteps (n : Nat) : List Action := List.replicate n (.thread true)

/-- A registration that succeeds, from `post` to the wait. -/
def registerSteps : List Action :=
  threadSteps 1 ++ List.replicate 7 (.kj true) ++ threadSteps 2

/-- The first connection comes up and is registered. -/
def upSteps : List Action :=
  threadSteps 32 ++ [.event 0 .connected, .callback 0] ++ threadSteps 1 ++ registerSteps

end Cfd.Tunnel.Session
