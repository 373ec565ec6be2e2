import Cfd.Config.Print
import Cfd.Main.Outbound
import Cfd.Main.Startup
import Cfd.Net.NetlinkCalls

/-!
# What a start asks of the kernel

The requests that reach the kernel while `main` of `src/main.cpp` sets up the device, in the order in
which `TunDevice::configure` and `TunDevice::add_route` send them, with the kernel's answers.
`startup_acknowledged` says which they are when `main` goes on to the edge; and `asked_routes_iff` compares
the prefixes of the routes that were asked for with the policy of the router.

The two come from the same list with one exception. A file without a `route` line leaves the router
without routes, and `main` asks the kernel for the block of `tun_local` instead.

What the kernel does with a request that it has answered with success is its own matter.
-/

set_option autoImplicit false

namespace Cfd.Tun

open Cfd.Base Cfd.Net Cfd.Net.Netlink

/-! ## The requests of the device -/

/-- An answer of success, with which a call always passes. -/
def isDone (ec : Option ErrorCode) : Bool := ec = none

/-- An answer that leaves a route there. -/
def isDoneOrExists (ec : Option ErrorCode) : Bool := ec = none ∨ ec = some .EEXIST

/-- The calls of `configure`. -/
def ConfigureEnv.calls (env : ConfigureEnv) (idx : Int32) (tunLocal route : Cidr) : List Call :=
  [⟨.setMtu idx 1280, env.setMtu, fun _ => true⟩, ⟨.linkUp idx, env.linkUp, isDone⟩,
    ⟨.addAddr idx tunLocal, env.addAddr, isDone⟩, ⟨.addRoute idx route, env.addRoute, isDoneOrExists⟩]

/-- The call of `add_route`. -/
def AddRouteEnv.calls (env : AddRouteEnv) (idx : Int32) (route : Cidr) : List Call :=
  [⟨.addRoute idx route, env.addRoute, isDoneOrExists⟩]

/-- A call that has to succeed. -/
theorem ite_isDone (ec : Option ErrorCode) (next : Option (Option ErrorCode)) :
    (if isDone ec then next else some ec) =
      match ec with
      | some ec => some (some ec)
      | none => next := by
  cases ec <;> rfl

/-- The last call, which may also find the route there. -/
theorem ite_isDoneOrExists (ec : Option ErrorCode) :
    (if isDoneOrExists ec then some none else some ec) =
      match ec with
      | some ec => if ec ≠ .EEXIST then some (some ec) else some none
      | none => some none := by
  cases ec with
  | none => rfl
  | some ec => by_cases hexist : ec = .EEXIST <;> simp [isDoneOrExists, hexist]

/-- What `configure` and `add_route` begin with: a socket, and the index of the device. -/
def TunDevice.begin (d : TunDevice) (nlOpen : Except ErrorCode UInt32)
    (ifNametoindex : Text → Except ErrorCode UInt32) : Except ErrorCode (Client × Int32) :=
  nlOpen.bind fun pid => (Client.ifIndex ifNametoindex d.name).map fun idx => (.opened pid, idx)

/-- **`configure` is its four calls.** -/
theorem TunDevice.configure_eq (host : ByteOrder) (env : ConfigureEnv) (d : TunDevice)
    (tunLocal route : Cidr) :
    d.configure host env tunLocal route =
      match d.begin env.nlOpen env.ifNametoindex with
      | .error ec => some (some ec)
      | .ok (c, idx) => c.calls host (env.calls idx tunLocal route) := by
  rw [TunDevice.configure, TunDevice.begin]
  cases env.nlOpen with
  | error ec => rfl
  | ok pid =>
    cases hidx : Client.ifIndex env.ifNametoindex d.name with
    | error ec => simp only [Except.bind, Except.map]
    | ok idx =>
      simp only [Except.bind, Except.map, ConfigureEnv.calls, Client.calls, Op.run,
        Option.pure_def, ite_isDone, ite_isDoneOrExists]
      rfl

theorem TunDevice.addRoute_eq (host : ByteOrder) (env : AddRouteEnv) (d : TunDevice) (route : Cidr) :
    d.addRoute host env route =
      match d.begin env.nlOpen env.ifNametoindex with
      | .error ec => some (some ec)
      | .ok (c, idx) => c.calls host (env.calls idx route) := by
  rw [TunDevice.addRoute, TunDevice.begin]
  cases env.nlOpen with
  | error ec => rfl
  | ok pid =>
    cases hidx : Client.ifIndex env.ifNametoindex d.name with
    | error ec => simp only [Except.bind, Except.map]
    | ok idx =>
      simp only [AddRouteEnv.calls, Client.calls, Op.run, Option.pure_def, ite_isDoneOrExists]
      rfl

/-- What reaches the kernel of a `configure`. -/
def TunDevice.configureSent (host : ByteOrder) (env : ConfigureEnv) (d : TunDevice)
    (tunLocal route : Cidr) : List Sent :=
  match d.begin env.nlOpen env.ifNametoindex with
  | .error _ => []
  | .ok (c, idx) => c.sent host (env.calls idx tunLocal route)

/-- What reaches the kernel of an `add_route`. -/
def TunDevice.addRouteSent (host : ByteOrder) (env : AddRouteEnv) (d : TunDevice) (route : Cidr) :
    List Sent :=
  match d.begin env.nlOpen env.ifNametoindex with
  | .error _ => []
  | .ok (c, idx) => c.sent host (env.calls idx route)

/-- The answers that the setup goes on with: any for the MTU, success for the address and to set the
interface up, and for a route also that it is there. -/
def Op.Answered : Op → Option ErrorCode → Prop
  | .setMtu _ _, _ => True
  | .linkUp _, ec | .addAddr _ _, ec => ec = none
  | .addRoute _ _, ec => ec = none ∨ ec = some .EEXIST

/-- The bytes ask for the operation, and the kernel has answered so that the setup goes on. -/
def Acknowledged (host : ByteOrder) (op : Op) (x : Sent) : Prop :=
  op.Asks host x.wire ∧ Op.Answered op x.verdict

variable {host : ByteOrder} {d : TunDevice}

theorem TunDevice.begin_ok {d : TunDevice} {nlOpen : Except ErrorCode UInt32}
    {ifNametoindex : Text → Except ErrorCode UInt32} {c : Client} {idx : Int32}
    (h : d.begin nlOpen ifNametoindex = .ok (c, idx)) :
    c.inbox = [] ∧ Client.ifIndex ifNametoindex d.name = .ok idx := by
  unfold TunDevice.begin at h
  cases nlOpen with
  | error ec => cases h
  | ok pid =>
    cases hidx : Client.ifIndex ifNametoindex d.name with
    | error ec =>
      simp only [Except.bind, hidx, Except.map] at h
      cases h
    | ok i =>
      simp only [Except.bind, hidx, Except.map] at h
      cases h
      exact ⟨rfl, rfl⟩

/-- On a new client an `add_route` that passes was decided by the kernel. -/
theorem decided_of_calls {c : Client} {op : Op} {x : Exchange} (hempty : c.inbox = [])
    (h : c.calls host [⟨op, x, isDoneOrExists⟩] = some none) :
    Decided x none ∨ Decided x (some .EEXIST) := by
  obtain ⟨r, hrun, hsettles⟩ := Op.run_settles host c x op
  rw [Client.calls, Option.bind_eq_bind, hrun, Option.bind_some] at h
  have hec : r.ec = none ∨ r.ec = some .EEXIST := by
    split at h
    next hpass => exact of_decide_eq_true hpass
    next => exact Or.inl (Option.some.inj h)
  rcases hec with hec | hec
  · exact Or.inl (decided_of_empty hsettles hempty hec (Or.inl rfl)).1
  · exact Or.inr (decided_of_empty hsettles hempty hec (Or.inr rfl)).1

/-- Requests that reach the kernel and are answered so that the setup goes on are acknowledged. -/
theorem acknowledged_of_sends {calls : List Call} {xs : List Sent}
    (h : List.Forall₂ (Call.Sends host) calls xs)
    (hanswered : ∀ call ∈ calls, Op.Answered call.op call.exchange.verdict) :
    List.Forall₂ (Acknowledged host) (calls.map Call.op) xs := by
  induction h with
  | nil => exact .nil
  | @cons call x calls xs hsends _ ih =>
    refine .cons ⟨Op.asks_of_writes hsends.1, ?_⟩ (ih fun c hc => hanswered c (List.mem_cons_of_mem _ hc))
    rw [hsends.2]
    exact hanswered call List.mem_cons_self

/-- A decision on a route that the setup goes on with. -/
theorem answered_of_decided {x : Exchange} (idx : Int32) (route : Cidr)
    (h : Decided x none ∨ Decided x (some .EEXIST)) :
    x.send = none ∧ Op.Answered (.addRoute idx route) x.verdict := by
  rcases h with ⟨hsend, hverdict⟩ | ⟨hsend, hverdict⟩
  · exact ⟨hsend, Or.inl hverdict⟩
  · exact ⟨hsend, Or.inr hverdict⟩

/-- **A successful `add_route` is one acknowledged request.** -/
theorem TunDevice.acknowledged_of_addRoute {env : AddRouteEnv} {route : Cidr}
    (h : d.addRoute host env route = some none) :
    ∃ idx, Client.ifIndex env.ifNametoindex d.name = .ok idx ∧
      List.Forall₂ (Acknowledged host) [.addRoute idx route] (d.addRouteSent host env route) := by
  rw [TunDevice.addRoute_eq] at h
  unfold TunDevice.addRouteSent
  split at h
  next => cases h
  next c idx hbegin =>
    obtain ⟨hempty, hidx⟩ := TunDevice.begin_ok hbegin
    have hcall : ∀ call ∈ env.calls idx route, call.passes none = true ∧ call.reaches = true ∧
        Op.Answered call.op call.exchange.verdict := by
      intro call hcall
      cases List.mem_singleton.mp hcall
      obtain ⟨hsend, hanswered⟩ := answered_of_decided idx route (decided_of_calls hempty h)
      exact ⟨rfl, Option.isNone_iff_eq_none.mpr hsend, hanswered⟩
    have hsent := Client.sent_forall₂ h fun call hmem => (hcall call hmem).1
    rw [List.filter_eq_self.mpr fun call hmem => (hcall call hmem).2.1] at hsent
    exact ⟨idx, hidx, acknowledged_of_sends hsent fun call hmem => (hcall call hmem).2.2⟩

/-- The request for the MTU, if it reaches the kernel. -/
def mtuOps (x : Exchange) (idx : Int32) : List Op :=
  if x.send = none then [.setMtu idx 1280] else []

/-- **A successful `configure` is three acknowledged requests**, behind the one for the MTU, unless a
reply to that was missed. -/
theorem TunDevice.acknowledged_of_configure {env : ConfigureEnv} {tunLocal route : Cidr}
    (h : d.configure host env tunLocal route = some none) (hmtu : ¬Missed env.setMtu) :
    ∃ idx, Client.ifIndex env.ifNametoindex d.name = .ok idx ∧
      List.Forall₂ (Acknowledged host)
        (mtuOps env.setMtu idx ++ [.linkUp idx, .addAddr idx tunLocal, .addRoute idx route])
        (d.configureSent host env tunLocal route) := by
  have hack := (d.acknowledged_iff host env.setMtu).mpr hmtu env tunLocal route rfl h
  rw [TunDevice.configure_eq] at h
  unfold TunDevice.configureSent
  split at h
  next => cases h
  next c idx hbegin =>
    have hcall : ∀ call ∈ env.calls idx tunLocal route, call.passes none = true ∧
        Op.Answered call.op call.exchange.verdict := by
      intro call hcall
      simp only [ConfigureEnv.calls, List.mem_cons, List.not_mem_nil, or_false] at hcall
      rcases hcall with rfl | rfl | rfl | rfl
      · exact ⟨rfl, trivial⟩
      · exact ⟨rfl, hack.linkUp.2⟩
      · exact ⟨rfl, hack.addAddr.2⟩
      · exact ⟨rfl, (answered_of_decided idx route hack.addRoute).2⟩
    have hsent := acknowledged_of_sends (Client.sent_forall₂ h fun call hmem => (hcall call hmem).1)
      fun call hmem => (hcall call (List.mem_of_mem_filter hmem)).2
    have hroute := (answered_of_decided idx route hack.addRoute).1
    have hops : ((env.calls idx tunLocal route).filter Call.reaches).map Call.op =
        mtuOps env.setMtu idx ++ [.linkUp idx, .addAddr idx tunLocal, .addRoute idx route] := by
      cases hsend : env.setMtu.send <;>
        simp [ConfigureEnv.calls, Call.reaches, mtuOps, hsend, hack.linkUp.1, hack.addAddr.1, hroute]
    rw [hops] at hsent
    exact ⟨idx, (TunDevice.begin_ok hbegin).2, hsent⟩

end Cfd.Tun

namespace Cfd.Main

open Cfd Cfd.Base Cfd.Net Cfd.Net.Netlink Cfd.Router Cfd.Tun

/-! ## The requests of a start -/

/-- What reaches the kernel of the loop over the routes. -/
def addRoutesSent (host : ByteOrder) (env : StartupEnv) (tun : TunDevice) (routeIdx : Nat) :
    List Cidr → List Sent
  | [] => []
  | c :: rest =>
    tun.addRouteSent host (env.addRoute routeIdx) c ++
      match tun.addRoute host (env.addRoute routeIdx) c with
      | some none => addRoutesSent host env tun (routeIdx + 1) rest
      | _ => []

/-- What reaches the kernel of the setup of the device. -/
def setupSent (host : ByteOrder) (env : StartupEnv) (cfg : Config) : List Sent :=
  match TunDevice.open env.tunOpen cfg.tunName with
  | .error _ => []
  | .ok tun =>
    let route := cfg.routedCidrs.headD cfg.tunLocal
    tun.configureSent host env.configure cfg.tunLocal route ++
      match tun.configure host env.configure cfg.tunLocal route with
      | some none => addRoutesSent host env tun 1 cfg.routedCidrs.tail
      | _ => []

/-- What reaches the kernel of a start. -/
def startupSent (pton : InetPton) (host : ByteOrder) (env : StartupEnv) (argv : List Text) :
    List Sent :=
  match parseArgs argv with
  | .usage _ => []
  | .accepted cfgPath _ _ =>
    match Config.loadFromFile pton cfgPath (env.file cfgPath) with
    | .error _ => []
    | .ok cfg => setupSent host env cfg

/-- The blocks that the kernel is asked to route. -/
def askedBlocks (cfg : Config) : List Cidr :=
  cfg.routedCidrs.headD cfg.tunLocal :: cfg.routedCidrs.tail

/-- Whenever the index of the device is asked for, it is this one. -/
structure StartupEnv.Names (env : StartupEnv) (name : Text) (idx : Int32) : Prop where
  configure : ∀ i, Client.ifIndex env.configure.ifNametoindex name = .ok i → i = idx
  addRoute : ∀ n i, Client.ifIndex (env.addRoute n).ifNametoindex name = .ok i → i = idx

/-- What a start asks for behind the MTU, in the order of the file. -/
def setupOps (cfg : Config) (idx : Int32) : List Op :=
  .linkUp idx :: .addAddr idx cfg.tunLocal :: (askedBlocks cfg).map (.addRoute idx)

variable {pton : InetPton} {host : ByteOrder} {env : StartupEnv}

theorem addRoutes_acknowledged {tun : TunDevice} {cfg cfg' : Config} {idx : Int32}
    (hnames : env.Names tun.name idx) {routes : List Cidr} : ∀ {n : Nat},
    (addRoutes host env tun cfg n routes).status = .goesOn cfg' →
      List.Forall₂ (Acknowledged host) (routes.map (.addRoute idx))
        (addRoutesSent host env tun n routes) := by
  induction routes with
  | nil => exact fun _ => .nil
  | cons first rest ih =>
    intro n h
    rw [addRoutes] at h
    rw [addRoutesSent]
    split at h
    next => cases h
    next => cases h
    next hdone =>
      obtain ⟨i, hi, hfirst⟩ := TunDevice.acknowledged_of_addRoute hdone
      rw [hnames.addRoute n i hi] at hfirst
      rw [hdone]
      exact List.rel_append hfirst (ih h)

/-- **A setup that goes on has asked for everything.** -/
theorem setup_acknowledged {cfg cfg' : Config} {idx : Int32}
    (h : (setupTun host env cfg).status = .goesOn cfg') (hmtu : ¬Missed env.configure.setMtu)
    (hnames : ∀ tun, TunDevice.open env.tunOpen cfg.tunName = .ok tun → env.Names tun.name idx) :
    List.Forall₂ (Acknowledged host) (mtuOps env.configure.setMtu idx ++ setupOps cfg idx)
      (setupSent host env cfg) := by
  unfold setupTun at h
  unfold setupSent
  cases hopen : TunDevice.open env.tunOpen cfg.tunName with
  | error => simp only [hopen, reduceCtorEq] at h
  | ok tun =>
    have hname := hnames tun hopen
    simp only [hopen] at h ⊢
    split at h
    next => cases h
    next => cases h
    next hdone =>
      simp only [hdone]
      obtain ⟨i, hi, hfirst⟩ := TunDevice.acknowledged_of_configure hdone hmtu
      rw [hname.configure i hi] at hfirst
      have hrest := addRoutes_acknowledged hname h
      have hall := List.rel_append hfirst hrest
      beta_reduce at hall
      rw [List.append_assoc] at hall
      exact hall

theorem addRoutes_goesOn {tun : TunDevice} {cfg cfg' : Config} {routes : List Cidr} : ∀ {n : Nat},
    (addRoutes host env tun cfg n routes).status = .goesOn cfg' → cfg' = cfg := by
  induction routes with
  | nil =>
    intro n h
    cases h
    rfl
  | cons first rest ih =>
    intro n h
    rw [addRoutes] at h
    split at h
    next => cases h
    next => cases h
    next => exact ih h

theorem setupTun_goesOn {cfg cfg' : Config} (h : (setupTun host env cfg).status = .goesOn cfg') :
    cfg' = cfg := by
  unfold setupTun at h
  split at h
  next => cases h
  next tun _ =>
    simp only at h
    split at h
    next => cases h
    next => cases h
    next => exact addRoutes_goesOn h

/-- A start that goes on has loaded a file and has set up the device from it. -/
theorem setup_of_startup {argv : List Text} {cfg : Config}
    (h : (startup pton host env argv).status = .goesOn cfg) :
    (∃ path text, Config.loadFromFile pton path (some text) = .ok cfg) ∧
      (setupTun host env cfg).status = .goesOn cfg ∧
      startupSent pton host env argv = setupSent host env cfg := by
  unfold startup at h
  unfold startupSent
  cases hargs : parseArgs argv with
  | usage => simp only [hargs, reduceCtorEq] at h
  | accepted path =>
    simp only [hargs] at h ⊢
    cases hload : Config.loadFromFile pton path (env.file path) with
    | error => simp only [hload, reduceCtorEq] at h
    | ok cfg' =>
      simp only [hload] at h ⊢
      cases setupTun_goesOn h
      refine ⟨?_, h, rfl⟩
      cases hfile : env.file path with
      | none =>
        rw [hfile] at hload
        cases hload
      | some text =>
        rw [hfile] at hload
        exact ⟨path, text, hload⟩

/-- **What a start asks of the kernel.** If `main` goes on to the edge, and no reply to `set_mtu` was
missed, the requests that have reached the kernel are those that the configuration says, in order and
each once: the MTU, if its `send` succeeded, the device set up, the address of `tun_local`, and a route
for each block, all on the device under the index that it has been asked for. Each is read as what it is
for, and the kernel has answered it with success, or with `EEXIST` in the case of a route, the MTU
apart. -/
theorem startup_acknowledged {argv : List Text} {cfg : Config} {idx : Int32}
    (hstart : (startup pton host env argv).status = .goesOn cfg)
    (hmtu : ¬Missed env.configure.setMtu)
    (hnames : ∀ tun, TunDevice.open env.tunOpen cfg.tunName = .ok tun → env.Names tun.name idx) :
    List.Forall₂ (Acknowledged host) (mtuOps env.configure.setMtu idx ++ setupOps cfg idx)
      (startupSent pton host env argv) := by
  obtain ⟨-, hsetup, hsent⟩ := setup_of_startup hstart
  rw [hsent]
  exact setup_acknowledged hsetup hmtu hnames

/-- In a plain environment every index is 1. -/
theorem plainEnv_names (text name : Text) : (plainEnv text).Names name 1 := by
  have hindex : ∀ i, Client.ifIndex (fun _ => .ok 1) name = .ok i → i = 1 := by
    intro i h
    unfold Client.ifIndex at h
    split at h
    next => cases h
    next =>
      cases h
      rfl
  exact ⟨hindex, fun _ => hindex⟩

theorem startup_acknowledged_one :
    List.Forall₂ (Acknowledged .little)
      [.setMtu 1 1280, .linkUp 1, .addAddr 1 oneRouteConfig.tunLocal,
        .addRoute 1 ⟨.v4 10 0 0 0, 8⟩]
      (startupSent ipv4Pton .little (plainEnv oneRoute) configArgv) :=
  startup_acknowledged rfl (fun hm => hm.2.2 rfl) fun tun _ => plainEnv_names oneRoute tun.name

/-! ## The requests and the router -/

/-- The request is for a route to the interface, for a prefix with this address. -/
def RouteAsked (host : ByteOrder) (idx : Int32) (wire : Text) (a : IpAddr) : Prop :=
  ∃ r p oif, readRequest host wire = some (.newRoute r) ∧ r.route = some p ∧ p.Denotes a ∧
    ((r.attrs.find? fun attr => attr.type = 4).map fun attr => attr.data) = some oif ∧
    (host.readU32 oif).toInt32 = idx

/-- Among the requests of an operation only those for a route are such requests. -/
theorem routeAsked_iff {op : Op} {wire : Text} {idx : Int32} (h : op.Asks host wire) (a : IpAddr) :
    RouteAsked host idx wire a ↔ ∃ c, op = .addRoute idx c ∧ (blockRoute c).Denotes a := by
  constructor
  · rintro ⟨r, p, oif, hread, hroute, hdenotes, hoif, hidx⟩
    cases op with
    | addRoute i c =>
      obtain ⟨seq, pid, data, hread', hdata⟩ := h
      cases hread'.symm.trans hread
      cases hroute
      cases hoif
      rw [hdata] at hidx
      exact ⟨c, by rw [hidx], hdenotes⟩
    | linkUp i | addAddr i c =>
      obtain ⟨seq, pid, hread'⟩ := h
      cases hread'.symm.trans hread
    | setMtu i mtu =>
      obtain ⟨seq, pid, data, hread', -⟩ := h
      cases hread'.symm.trans hread
  · rintro ⟨c, rfl, hdenotes⟩
    obtain ⟨seq, pid, data, hread, hdata⟩ := h
    exact ⟨_, blockRoute c, data, hread, rfl, hdenotes, rfl, hdata⟩

/-- In a list of acknowledged requests, the routes to the device are those of the operations. -/
theorem asked_iff {ops : List Op} {xs : List Sent} {idx : Int32}
    (h : List.Forall₂ (Acknowledged host) ops xs) (a : IpAddr) :
    (∃ x ∈ xs, (x.verdict = none ∨ x.verdict = some .EEXIST) ∧ RouteAsked host idx x.wire a) ↔
      ∃ c, .addRoute idx c ∈ ops ∧ (blockRoute c).Denotes a := by
  induction h with
  | nil => simp
  | @cons op first ops xs hack _ ih =>
    constructor
    · rintro ⟨x, hx, hdone, hasked⟩
      rcases List.mem_cons.mp hx with rfl | hx
      · obtain ⟨c, rfl, hdenotes⟩ := (routeAsked_iff hack.1 a).mp hasked
        exact ⟨c, List.mem_cons_self, hdenotes⟩
      · obtain ⟨c, hmem, hdenotes⟩ := ih.mp ⟨x, hx, hdone, hasked⟩
        exact ⟨c, List.mem_cons_of_mem _ hmem, hdenotes⟩
    · rintro ⟨c, hmem, hdenotes⟩
      rcases List.mem_cons.mp hmem with heq | hmem
      · subst heq
        exact ⟨first, List.mem_cons_self, hack.2, (routeAsked_iff hack.1 a).mpr ⟨c, rfl, hdenotes⟩⟩
      · obtain ⟨x, hx, hdone⟩ := ih.mpr ⟨c, hmem, hdenotes⟩
        exact ⟨x, List.mem_cons_of_mem _ hx, hdone⟩

/-- The router's answer for an address. -/
theorem mainRoutes_isSome {path text : Text} {cfg : Config}
    (hload : Config.loadFromFile pton path (some text) = .ok cfg) (a : IpAddr) :
    ((mainRoutes cfg).lookup a).isSome = true ↔ ∃ c ∈ cfg.routedCidrs, c.contains a = true := by
  have hnone := LpmTrie.lookup_ofInserts_eq_none (loadedTable hload).valid a
  rw [mainRoutes_eq hload, RouteTable.trie_eq, ← Option.ne_none_iff_isSome, ne_eq, hnone]
  simp [loadedTable]

/-- The addresses that the kernel has acknowledged routes for are those of the blocks that it was asked
for. -/
theorem asked_blocks_iff {argv : List Text} {cfg : Config} {idx : Int32}
    (hstart : (startup pton host env argv).status = .goesOn cfg)
    (hmtu : ¬Missed env.configure.setMtu)
    (hnames : ∀ tun, TunDevice.open env.tunOpen cfg.tunName = .ok tun → env.Names tun.name idx)
    (a : IpAddr) : (∃ x ∈ startupSent pton host env argv,
        (x.verdict = none ∨ x.verdict = some .EEXIST) ∧ RouteAsked host idx x.wire a) ↔
      ∃ c ∈ askedBlocks cfg, c.contains a = true := by
  obtain ⟨⟨path, text, hload⟩, hsetup, hsent⟩ := setup_of_startup hstart
  have hvalid : ∀ c ∈ askedBlocks cfg, c.Valid := by
    intro c hc
    refine ((Config.writable_of_load hload).blocks c ?_).1
    unfold askedBlocks at hc
    cases hroutes : cfg.routedCidrs with
    | nil =>
      rw [hroutes] at hc
      exact hc
    | cons first rest =>
      rw [hroutes] at hc
      exact List.mem_cons_of_mem _ hc
  have hmem : ∀ c, Op.addRoute idx c ∈ mtuOps env.configure.setMtu idx ++ setupOps cfg idx ↔
      c ∈ askedBlocks cfg := by
    intro c
    cases hsend : env.configure.setMtu.send <;> simp [mtuOps, setupOps, hsend]
  rw [hsent, asked_iff (setup_acknowledged hsetup hmtu hnames) a]
  simp only [hmem]
  exact exists_congr fun c => and_congr_right fun hc => blockRoute_denotes (hvalid c hc) a

/-- **The requests and the router agree exactly if there is a route.** After a start that goes on, the
prefixes of the routes to the device that the kernel has acknowledged are for the addresses that the
router has a route for, for all addresses, exactly if the configuration has a `route`. Without one the
kernel has been asked for the block of `tun_local`, and the router drops what comes from it. -/
theorem asked_routes_iff {argv : List Text} {cfg : Config} {idx : Int32}
    (hstart : (startup pton host env argv).status = .goesOn cfg)
    (hmtu : ¬Missed env.configure.setMtu)
    (hnames : ∀ tun, TunDevice.open env.tunOpen cfg.tunName = .ok tun → env.Names tun.name idx) :
    (∀ a, (∃ x ∈ startupSent pton host env argv,
        (x.verdict = none ∨ x.verdict = some .EEXIST) ∧ RouteAsked host idx x.wire a) ↔
      ((mainRoutes cfg).lookup a).isSome = true) ↔ cfg.routedCidrs ≠ [] := by
  obtain ⟨⟨path, text, hload⟩, -, -⟩ := setup_of_startup hstart
  have hasked := asked_blocks_iff hstart hmtu hnames
  constructor
  · intro hall hnil
    -- `tun_local` is in its own block
    have hown := (hasked cfg.tunLocal.addr).mpr
      ⟨cfg.tunLocal, by rw [askedBlocks, hnil]; exact List.mem_cons_self, contains_self _⟩
    obtain ⟨c, hc, -⟩ := (mainRoutes_isSome hload _).mp ((hall _).mp hown)
    rw [hnil] at hc
    cases hc
  · intro hne a
    rw [hasked, mainRoutes_isSome hload]
    cases hroutes : cfg.routedCidrs with
    | nil => exact absurd hroutes hne
    | cons first rest =>
      rw [askedBlocks, hroutes]
      rfl

/-- With a route for `10.0.0.0/8` and the kernel's consent both have it; of an empty file the kernel has
been asked for `0.0.0.0/0`, and the router has nothing. -/
theorem asked_routes_iff_both :
    (∀ a, (∃ x ∈ startupSent ipv4Pton .little (plainEnv oneRoute) configArgv,
        (x.verdict = none ∨ x.verdict = some .EEXIST) ∧ RouteAsked .little 1 x.wire a) ↔
      ((mainRoutes oneRouteConfig).lookup a).isSome = true) ∧
    ¬∀ a, (∃ x ∈ startupSent ipv4Pton .little (plainEnv []) configArgv,
        (x.verdict = none ∨ x.verdict = some .EEXIST) ∧ RouteAsked .little 1 x.wire a) ↔
      ((mainRoutes {}).lookup a).isSome = true := by
  constructor
  · exact (asked_routes_iff rfl (fun hm => hm.2.2 rfl)
      fun tun _ => plainEnv_names oneRoute tun.name).mpr (by decide)
  · intro hall
    exact (@asked_routes_iff _ _ (plainEnv []) configArgv {} 1 rfl (fun hm => hm.2.2 rfl)
      fun tun _ => plainEnv_names [] tun.name).mp hall rfl

end Cfd.Main
