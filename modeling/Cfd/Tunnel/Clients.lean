import Cfd.Tunnel.Handles

/-!
# The clients of one process

Any number of `QuicClientImpl` objects over one API table: `api_table_init` and `api_table_release`
of `src/tunnel/quic_client.cpp` with the globals `g_msquic` and `g_refcount`, the constructor, the
destructor, `connect` and `close` of the objects, and the deleter of `msquic_raii.hpp`, which does
nothing where the table is null. What an object does in `connect` and `close` are the steps of one
connection; here the operations of one object follow one another, in any order, and those of
different objects interleave.

The two functions of the table run under `g_init_mu` and are one step each. Destroying a member is
resetting it. `calls` and `closes` are kept for the statements.

What is assumed of msquic: a failing `MsQuicOpen2` leaves its output null, and events are delivered
as to one connection.
-/

set_option autoImplicit false

namespace Cfd.Tunnel.Session

open Cfd.Base

/-! ## The table -/

/-- A successful `MsQuicOpen2`, or a `MsQuicClose`. -/
inductive LibraryCall where
  | open
  | close
  deriving DecidableEq

/-- The globals; of `g_msquic`, whether it is non-null. `calls` are the calls that opened and closed
the library, in order. -/
structure Api where
  gMsquic : Bool
  gRefcount : Int
  calls : List LibraryCall

/-- `api_table_init`, where `ok` is the outcome of `MsQuicOpen2`, and whether it succeeds. -/
def apiTableInit (g : Api) (ok : Bool) : Api × Bool :=
  let before := g.gRefcount
  let g := { g with gRefcount := before + 1 }
  if before = 0 then
    if ok then ({ g with gMsquic := true, calls := g.calls ++ [.open] }, true)
    else ({ g with gMsquic := false, gRefcount := g.gRefcount - 1 }, false)
  else (g, true)

/-- `api_table_release`. -/
def apiTableRelease (g : Api) : Api :=
  let before := g.gRefcount
  let g := { g with gRefcount := before - 1 }
  if before = 1 then { g with gMsquic := false, calls := g.calls ++ [.close] } else g

/-! ## One object -/

/-- Where the destructor stands. -/
inductive DestroyPc where
  | close (p : ClosePc)
  /-- `if (api_held_) api_table_release()`. -/
  | release
  /-- The members, in the reverse order of their declaration. -/
  | member (kind : HandleKind) (p : AssignPc)
  deriving DecidableEq

/-- Where an object stands: not constructed, outside its functions, in one of them, or destroyed. -/
inductive ObjPc where
  | absent
  | idle
  | connecting (p : ConnectPc)
  /-- In `connect`, about to set `api_held_`. -/
  | holding
  | closing (p : ClosePc)
  | destroying (p : DestroyPc)
  | gone
  deriving DecidableEq

/-- An object. `closes` are the handles that it has closed, in order. -/
structure Obj where
  shared : Shared
  pc : ObjPc
  closes : List (HandleKind × Handle)

/-- One step of `close`, where the deleter finds the table as told. -/
def objCloseStep (table : Bool) (s : Shared) (p : ClosePc) : Option (Shared × Option ClosePc) :=
  match table, p with
  | false, .reset kind (.call _) => some (s, some kind.afterReset)
  | _, p => closeStep .thread s p

/-- One step of `connect` outside `api_table_init`, where the deleter finds the table as told. -/
def objConnectStep (table : Bool) (s : Shared) (ok : Bool) (p : ConnectPc) :
    Option (Shared × ConnectNext) :=
  match table, p with
  | false, .store kind _ (.call _) => some (s, .goto kind.afterStore)
  | _, p => connectStep s ok p

/-- One step of a member's destructor, where the deleter finds the table as told. -/
def memberStep (table : Bool) (s : Shared) (kind : HandleKind) (p : AssignPc) :
    Option (Shared × Option AssignPc) :=
  match table, p with
  | false, .call _ => some (s, none)
  | _, p => assignStep s kind none p

/-- What follows the destruction of a member. -/
def HandleKind.afterMember : HandleKind → ObjPc
  | .connection => .destroying (.member .configuration .read)
  | .configuration => .destroying (.member .registration .read)
  | .registration => .gone

/-- Where an object stands after a step of `connect`. -/
def ConnectNext.objPc : ConnectNext → ObjPc
  | .goto p => .connecting p
  | .returned _ => .idle

/-- One step inside a function of an object, where `ok` is the outcome of the call that it makes. -/
def objStep (g : Api) (s : Shared) (ok : Bool) : ObjPc → Option (Api × Shared × ObjPc)
  | .connecting .apiInit =>
    if s.apiHeld then some (g, s, .connecting (.openHandle .registration))
    else
      let r := apiTableInit g ok
      some (r.1, s, if r.2 then .holding else .idle)
  | .holding => some (g, { s with apiHeld := true }, .connecting (.openHandle .registration))
  | .connecting p => (objConnectStep g.gMsquic s ok p).map fun r => (g, r.1, r.2.objPc)
  | .closing p => (objCloseStep g.gMsquic s p).map fun r => (g, r.1, r.2.elim .idle .closing)
  | .destroying (.close p) => (objCloseStep g.gMsquic s p).map fun r =>
      (g, r.1, .destroying (r.2.elim .release .close))
  | .destroying .release =>
    some (if s.apiHeld then apiTableRelease g else g, s, .destroying (.member .connection .read))
  | .destroying (.member kind p) => (memberStep g.gMsquic s kind p).map fun r =>
      (g, r.1, r.2.elim kind.afterMember fun p => .destroying (.member kind p))
  | .absent | .idle | .gone => none

/-- The handle whose deleter an object is about to run. -/
def ObjPc.closeCall : ObjPc → List (HandleKind × Handle)
  | .connecting p => p.closeCall
  | .closing p | .destroying (.close p) => p.closeCall
  | .destroying (.member kind p) => p.closeCall kind
  | _ => []

/-- What can happen to an object. -/
inductive ObjAction where
  | construct
  | connect
  | close
  | destroy
  /-- A step inside one of its functions. -/
  | step (ok : Bool)
  | event (h : Handle) (e : ConnEvent)
  | callback (h : Handle)
  deriving DecidableEq

/-- One action of an object. -/
def Obj.act (o : Obj) (g : Api) : ObjAction → Option (Api × Obj)
  | .construct => if o.pc = .absent then some (g, { o with pc := .idle }) else none
  | .connect => if o.pc = .idle then some (g, { o with pc := .connecting .resetFlags }) else none
  | .close => if o.pc = .idle then some (g, { o with pc := .closing .lock }) else none
  | .destroy => if o.pc = .idle then some (g, { o with pc := .destroying (.close .lock) }) else none
  | .step ok => (objStep g o.shared ok o.pc).map fun r =>
      (r.1, ⟨r.2.1, r.2.2, o.closes ++ if g.gMsquic then o.pc.closeCall else []⟩)
  | .event h e => (deliver o.shared h e).map fun s => (g, { o with shared := s })
  | .callback h => (callbackStep o.shared h).map fun s => (g, { o with shared := s })

/-! ## All objects -/

variable {ι : Type} [DecidableEq ι]

/-- The globals and the objects. -/
structure Clients (ι : Type) where
  api : Api
  obj : ι → Obj

/-- An action of one of the objects. -/
def Clients.step (c : Clients ι) (x : ι × ObjAction) : Option (Clients ι) :=
  ((c.obj x.1).act c.api x.2).map fun r => ⟨r.1, Function.update c.obj x.1 r.2⟩

variable (ι) in
/-- The runs of the objects of a process. -/
def clients : Machine (Clients ι) (ι × ObjAction) where
  init := ⟨⟨false, 0, []⟩, fun _ => ⟨.initial, .absent, []⟩⟩
  step := Clients.step

end Cfd.Tunnel.Session
