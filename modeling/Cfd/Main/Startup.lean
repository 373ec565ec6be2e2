import Cfd.Config.Load
import Cfd.Main.Args
import Cfd.Tun.Device

/-!
# From the command line to the kernel

The first part of `main` in `src/main.cpp`: the command line, the configuration file, the TUN device,
and the routes. What `main` asks the kernel to install is recorded as it is asked. The credentials
are checked only behind this part, and that a key is missing is not checked at all, so
`kernel_calls_iff` says for which files the requests to the kernel come from a complete
configuration: for those that do not load, and for those that happen to be complete.
-/

set_option autoImplicit false

namespace Cfd.Main

open Cfd Cfd.Base Cfd.Net Cfd.Net.Netlink Cfd.Tun

/-! ## The source -/

/-- A request to the kernel to install an address or a route. -/
inductive KernelCall where
  | configure (tunLocal route : Cidr)
  | addRoute (route : Cidr)
  deriving DecidableEq

/-- How this part of `main` ends: by leaving, by going on to the edge, or in a `recv` that blocks. -/
inductive StartupEnd where
  | exit (code : Nat)
  | goesOn (cfg : Config)
  | blocked

/-- The requests to the kernel, in order, and the end. -/
structure Startup where
  calls : List KernelCall
  status : StartupEnd

/-- What the system makes of a start: the files, the device, and the netlink exchanges, those of
`add_route` by the index of the route. -/
structure StartupEnv where
  file : Text → Option Text
  tunOpen : OpenEnv
  configure : ConfigureEnv
  addRoute : Nat → AddRouteEnv

/-- The loop over the routes from `routeIdx` on. -/
def addRoutes (host : ByteOrder) (env : StartupEnv) (tun : TunDevice) (cfg : Config)
    (routeIdx : Nat) : List Cidr → Startup
  | [] => ⟨[], .goesOn cfg⟩
  | c :: rest =>
    match tun.addRoute host (env.addRoute routeIdx) c with
    | none => ⟨[.addRoute c], .blocked⟩
    | some (some _) => ⟨[.addRoute c], .exit 1⟩
    | some none =>
      let next := addRoutes host env tun cfg (routeIdx + 1) rest
      ⟨.addRoute c :: next.calls, next.status⟩

/-- The setup of the TUN device from a configuration. -/
def setupTun (host : ByteOrder) (env : StartupEnv) (cfg : Config) : Startup :=
  match TunDevice.open env.tunOpen cfg.tunName with
  | .error _ => ⟨[], .exit 1⟩
  | .ok tun =>
    -- `cfg.routed_cidrs.empty() ? cfg.tun_local : cfg.routed_cidrs.front()`
    let route := cfg.routedCidrs.headD cfg.tunLocal
    let call := KernelCall.configure cfg.tunLocal route
    match tun.configure host env.configure cfg.tunLocal route with
    | none => ⟨[call], .blocked⟩
    | some (some _) => ⟨[call], .exit 1⟩
    | some none =>
      let next := addRoutes host env tun cfg 1 cfg.routedCidrs.tail
      ⟨call :: next.calls, next.status⟩

/-- `main` up to the installation of the last route. -/
def startup (pton : InetPton) (host : ByteOrder) (env : StartupEnv) (argv : List Text) : Startup :=
  match parseArgs argv with
  | .usage code => ⟨[], .exit code⟩
  | .accepted cfgPath _ _ =>
    match Config.loadFromFile pton cfgPath (env.file cfgPath) with
    | .error _ => ⟨[], .exit 1⟩
    | .ok cfg => setupTun host env cfg

/-! ## Complete configurations -/

/-- The text has a line with this key. -/
def HasKey (text : Text) (key : Config.Key) : Prop :=
  ∃ line ∈ text.lines, ∃ v, Config.pairOf line = some (key, v)

/-- The block is the value of a line with this key. -/
def Occurs (pton : InetPton) (text : Text) (key : Config.Key) (c : Cidr) : Prop :=
  ∃ line ∈ text.lines, ∃ v, Config.pairOf line = some (key, v) ∧ Cidr.parse pton v = some c

/-- The keys that `print_usage` calls required are there, `tun_local` and a `route` with values. -/
structure Complete (pton : InetPton) (text : Text) : Prop where
  tunnelId : HasKey text .tunnelId
  accountTag : HasKey text .accountTag
  tunnelSecret : HasKey text .tunnelSecretB64
  tunLocal : ∃ c, Occurs pton text .tunLocal c
  route : ∃ c, Occurs pton text .route c

/-- What a request asks for is written in the text. -/
def KernelCall.FromText (pton : InetPton) (text : Text) : KernelCall → Prop
  | .configure tunLocal route => Occurs pton text .tunLocal tunLocal ∧ Occurs pton text .route route
  | .addRoute route => Occurs pton text .route route

/-- Requests are made only from a complete text, and each asks for what is written in it. -/
structure CallsFromComplete (pton : InetPton) (text : Text) (calls : List KernelCall) : Prop where
  complete : calls ≠ [] → Complete pton text
  written : ∀ call ∈ calls, call.FromText pton text

/-- The loop asks for the routes that it is given, and nothing else. -/
theorem addRoutes_calls {host : ByteOrder} {env : StartupEnv} {tun : TunDevice} {cfg : Config}
    {routeIdx : Nat} {routes : List Cidr} :
    ∀ call ∈ (addRoutes host env tun cfg routeIdx routes).calls,
      ∃ c ∈ routes, call = .addRoute c := by
  induction routes generalizing routeIdx with
  | nil => exact fun _ h => nomatch h
  | cons c rest ih =>
    intro call hcall
    simp only [addRoutes] at hcall
    split at hcall
    · exact ⟨c, List.mem_cons_self, List.mem_singleton.mp hcall⟩
    · exact ⟨c, List.mem_cons_self, List.mem_singleton.mp hcall⟩
    · rcases List.mem_cons.mp hcall with hhead | htail
      · exact ⟨c, List.mem_cons_self, hhead⟩
      · obtain ⟨c', hc', heq⟩ := ih call htail
        exact ⟨c', List.mem_cons_of_mem _ hc', heq⟩

/-- The setup asks for `tun_local` with the first route, or with `tun_local` where there is none, and
then for other routes. -/
theorem setupTun_calls {host : ByteOrder} {env : StartupEnv} {cfg : Config} :
    ∀ call ∈ (setupTun host env cfg).calls,
      call = .configure cfg.tunLocal (cfg.routedCidrs.headD cfg.tunLocal) ∨
        ∃ c ∈ cfg.routedCidrs, call = .addRoute c := by
  intro call hcall
  simp only [setupTun] at hcall
  split at hcall
  · cases hcall
  · split at hcall
    · exact Or.inl (List.mem_singleton.mp hcall)
    · exact Or.inl (List.mem_singleton.mp hcall)
    · rcases List.mem_cons.mp hcall with hhead | htail
      · exact Or.inl hhead
      · obtain ⟨c, hc, heq⟩ := addRoutes_calls call htail
        exact Or.inr ⟨c, List.mem_of_mem_tail hc, heq⟩

/-- A request to the kernel is made from a file that has loaded. -/
theorem startup_calls {pton : InetPton} {host : ByteOrder} {env : StartupEnv} {argv : List Text}
    {call : KernelCall} (h : call ∈ (startup pton host env argv).calls) :
    ∃ path text cfg, env.file path = some text ∧
      Config.loadFromFile pton path (some text) = .ok cfg ∧ call ∈ (setupTun host env cfg).calls := by
  unfold startup at h
  split at h
  · cases h
  next cfgPath _ _ _ =>
    split at h
    · cases h
    next cfg hload =>
      cases hfile : env.file cfgPath with
      | none => simp [hfile, Config.loadFromFile] at hload
      | some text => exact ⟨cfgPath, text, cfg, hfile, hfile ▸ hload, h⟩

/-- From a complete text every request is for what is written. -/
theorem fromText_of_complete {pton : InetPton} {host : ByteOrder} {env : StartupEnv}
    {path text : Text} {cfg : Config} (hc : Complete pton text)
    (hload : Config.loadFromFile pton path (some text) = .ok cfg) {call : KernelCall}
    (hcall : call ∈ (setupTun host env cfg).calls) : call.FromText pton text := by
  have hroutes := Config.load_routedCidrs hload
  have hoccurs : ∀ c ∈ cfg.routedCidrs, Occurs pton text .route c := fun c hmem =>
    Config.mem_cidrValues.mp (hroutes ▸ hmem)
  rcases setupTun_calls call hcall with rfl | ⟨c, hmem, rfl⟩
  · constructor
    · -- the stored `tun_local` is the last of a list that has a member
      obtain ⟨c, hmem⟩ := hc.tunLocal
      have hne := List.ne_nil_of_mem (Config.mem_cidrValues.mpr hmem)
      rw [Config.load_tunLocal hload, List.getLastD_eq_getLast?, List.getLast?_eq_some_getLast hne,
        Option.getD_some]
      exact Config.mem_cidrValues.mp (List.getLast_mem hne)
    · obtain ⟨c, hmem⟩ := hc.route
      have hmem' : c ∈ cfg.routedCidrs := hroutes ▸ Config.mem_cidrValues.mpr hmem
      cases hcases : cfg.routedCidrs with
      | nil => simp [hcases] at hmem'
      | cons c' rest => exact hoccurs c' (hcases ▸ List.mem_cons_self)
  · exact hoccurs c hmem

/-! ## The files from which the kernel is asked in order -/

/-- Every file has this text, and every device opens under the name asked for. -/
def plainEnv (text : Text) : StartupEnv where
  file := fun _ => some text
  tunOpen := ⟨none, .ok⟩
  configure := ⟨.ok 0, fun _ => .ok 1, exchangeDone, exchangeDone, exchangeDone, exchangeDone⟩
  addRoute := fun _ => ⟨.ok 0, fun _ => .ok 1, exchangeDone⟩

/-- The shortest command line that is accepted. -/
def configArgv : List Text := [ascii "cfd", ascii "--config", ascii "cfd.ini"]

/-- **Whatever loads reaches the kernel.** -/
theorem startup_plainEnv {pton : InetPton} (host : ByteOrder) {text : Text} {cfg : Config}
    (hload : Config.loadFromFile pton (ascii "cfd.ini") (some text) = .ok cfg) :
    .configure cfg.tunLocal (cfg.routedCidrs.headD cfg.tunLocal) ∈
      (startup pton host (plainEnv text) configArgv).calls := by
  have hargs : parseArgs configArgv = .accepted (ascii "cfd.ini") false 3 := by decide
  simp only [startup, hargs, plainEnv, hload, setupTun, TunDevice.open, Except.map]
  split
  · exact List.mem_cons_self
  · exact List.mem_cons_self
  · exact List.mem_cons_self

/-- **Which files are handled in order**: whatever the command line and the system do, the kernel is
asked only from a complete text and only for what is written in it, exactly when the text has a bad
line, and so is not loaded, or is complete. -/
theorem kernel_calls_iff (pton : InetPton) (host : ByteOrder) (text : Text) :
    (∀ (env : StartupEnv) (argv : List Text), (∀ path t, env.file path = some t → t = text) →
        CallsFromComplete pton text (startup pton host env argv).calls) ↔
      (∃ line ∈ text.lines, Config.BadLine pton line) ∨ Complete pton text := by
  constructor
  · intro hall
    by_cases hbad : ∃ line ∈ text.lines, Config.BadLine pton line
    · exact Or.inl hbad
    · right
      obtain ⟨cfg, hload⟩ := (@Config.load_isOk_iff pton (ascii "cfd.ini") text).mpr
        fun line hline h => hbad ⟨line, hline, h⟩
      have hcall := startup_plainEnv host hload
      have hfile : ∀ path t, (plainEnv text).file path = some t → t = text := by
        rintro _ _ ⟨⟩
        rfl
      exact (hall (plainEnv text) configArgv hfile).complete (List.ne_nil_of_mem hcall)
  · intro hcond env argv hfile
    have hcalls : ∀ call ∈ (startup pton host env argv).calls,
        Complete pton text ∧ call.FromText pton text := by
      intro call hcall
      obtain ⟨path, t, cfg, ht, hload, hmem⟩ := startup_calls hcall
      obtain rfl := hfile path t ht
      have hc : Complete pton t := by
        refine hcond.resolve_left ?_
        rintro ⟨line, hline, hbad⟩
        exact Config.load_isOk_iff.mp ⟨cfg, hload⟩ line hline hbad
      exact ⟨hc, fromText_of_complete hc hload hmem⟩
    refine ⟨fun hne => ?_, fun call hcall => (hcalls call hcall).2⟩
    obtain ⟨call, hcall⟩ := List.exists_mem_of_ne_nil _ hne
    exact (hcalls call hcall).1

/-- From an empty file `main` asks for `0.0.0.0/0`, as the address and as the route. -/
theorem empty_file_default_route :
    KernelCall.configure .zero .zero ∈ (startup ipv4Pton .little (plainEnv []) configArgv).calls ∧
      ¬ Complete ipv4Pton [] := by
  have hload : Config.loadFromFile ipv4Pton (ascii "cfd.ini") (some []) = .ok {} := rfl
  refine ⟨startup_plainEnv .little hload, fun hc => ?_⟩
  obtain ⟨_, hline, -⟩ := hc.tunnelId
  cases hline

end Cfd.Main
