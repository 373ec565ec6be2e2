import Cfd.Base.Cascade
import Cfd.Config.Reference
import Cfd.Main.MultiSink
import Cfd.Router.Reader
import Cfd.Tunnel.Datagram

/-!
# From the configuration file to the datagrams

What `main` of `src/main.cpp` puts together for the packets that leave the host: `routes_` filled from
the configuration, the router over it with the round-robin sink behind it, and the clients that frame a
packet and give it to `DatagramSend`. A packet is handed to the sink within a step of the reader, so the
whole is the cascade of the two machines (`outbound`): the router's calls, polls and reads, the health
of the four clients and what `DatagramSend` answers, in any order.

`outbound_delivers` is about the file and the bytes handed to `DatagramSend`: the packets that reach the
clients are those read from the TUN device whose destination is in a block of a `route` line, in order
and byte for byte, dealt to the clients in turn; and what `DatagramSend` is called with on the connection
of a client are the frames of those that its guard has let through.

What msquic does with a datagram is not modelled: whether the call succeeds, and whether the other side
gets it, is open.

A hand-over is one step here. What the clients' other threads may do between its parts is
`Cfd.Tunnel.Calls`.
-/

set_option autoImplicit false

namespace Cfd.Main

open Cfd.Base Cfd.Net Cfd.Router Cfd.Tunnel

/-! ## The parts together -/

/-- `for (const auto& c : cfg.routed_cidrs) router->add_route(c, Action::ToTunnel)`. -/
def mainRoutes (cfg : Config) : LpmTrie Router.Action :=
  cfg.routedCidrs.foldl (fun routes c => addRoute routes c .ToTunnel) .empty

/-- What the reader hands to the sink in a step. -/
def sinkCalls (cfg : Config) (s : Router.State) (a : Router.Input) : List (PumpAction 4) :=
  (s.hands (mainRoutes cfg) true a).map .packet

/-- The router with the sink and the clients, of which there are four; `next_` has 64 bits. -/
def outbound (cfg : Config) :
    Machine (Router.State × MultiSink 4 64) (Router.Input ⊕ PumpAction 4) :=
  router.cascade (pump 4 64) (sinkCalls cfg)

/-- A call of the sink, not a change of a client's health or of msquic's answers. -/
def PumpAction.isPacket {n : Nat} : PumpAction n → Bool
  | .packet _ => true
  | .health _ _ => false
  | .answers _ _ => false

/-- The runs in which only the router calls the sink. -/
abbrev Driven : Router.State × MultiSink 4 64 → Router.Input ⊕ PumpAction 4 → Prop :=
  Machine.Outside fun y : PumpAction 4 => y.isPacket = false

instance (s : Router.State × MultiSink 4 64) (a : Router.Input ⊕ PumpAction 4) :
    Decidable (Driven s a) := by
  cases a <;> unfold Driven Machine.Outside <;> infer_instance

/-! ## The policy of a file -/

variable {pton : InetPton}

/-- The packet has a destination, and it is in a block that a `route` line of the text gives. -/
def Routed (pton : InetPton) (text : Text) (p : Text) : Prop :=
  ∃ dst, Destination p dst ∧
    ∃ line ∈ text.lines, ∃ v c, Config.pairOf line = some (.route, v) ∧
      Cidr.parse pton v = some c ∧ c.contains dst = true

theorem exists_route_iff (text : Text) (dst : IpAddr) :
    (∃ c ∈ Config.cidrValues pton .route text.lines, c.contains dst = true) ↔
      ∃ line ∈ text.lines, ∃ v c, Config.pairOf line = some (.route, v) ∧
        Cidr.parse pton v = some c ∧ c.contains dst = true := by
  constructor
  · rintro ⟨c, hc, hcontains⟩
    obtain ⟨line, hline, v, hpair, hv⟩ := Config.mem_cidrValues.mp hc
    exact ⟨line, hline, v, c, hpair, hv, hcontains⟩
  · rintro ⟨line, hline, v, c, hpair, hv, hcontains⟩
    exact ⟨c, Config.mem_cidrValues.mpr ⟨line, hline, v, hpair, hv⟩, hcontains⟩

theorem valid_of_mem_cidrValues {key : Config.Key} {ls : List Text} {c : Cidr}
    (h : c ∈ Config.cidrValues pton key ls) : c.Valid := by
  obtain ⟨_, _, v, _, hv⟩ := Config.mem_cidrValues.mp h
  exact Cidr.parse_valid hv

theorem routed_iff (text p : Text) :
    (∃ dst ∈ dstFromPacket p p.length,
      ∃ c ∈ Config.cidrValues pton .route text.lines, c.contains dst = true) ↔
      Routed pton text p := by
  have hwhole : p.take p.length = p := List.take_length
  constructor
  · rintro ⟨dst, hdst, hroute⟩
    have hdestination := destination_of_dstFromPacket (Nat.le_refl _) hdst
    rw [hwhole] at hdestination
    exact ⟨dst, hdestination, (exists_route_iff text dst).mp hroute⟩
  · rintro ⟨dst, hdst, hroute⟩
    rw [← hwhole] at hdst
    obtain ⟨dst', hdst', hsame⟩ := dstFromPacket_of_destination (Nat.le_refl _) hdst
    obtain ⟨c, hc, hcontains⟩ := (exists_route_iff text dst).mpr hroute
    have hvalid := valid_of_mem_cidrValues hc
    exact ⟨dst', hdst', c, hc, (contains_congr hvalid hsame).mpr hcontains⟩

instance (text p : Text) : Decidable (Routed pton text p) := decidable_of_iff _ (routed_iff text p)

/-- The routes of a configuration that has been loaded. -/
def loadedTable {path text : Text} {cfg : Config}
    (h : Config.loadFromFile pton path (some text) = .ok cfg) : RouteTable where
  routes := cfg.routedCidrs.map fun c => (c, .ToTunnel)
  valid := by
    intro r hr
    obtain ⟨c, hc, rfl⟩ := List.mem_map.mp hr
    rw [Config.load_routedCidrs h] at hc
    exact valid_of_mem_cidrValues hc

theorem mainRoutes_eq {path text : Text} {cfg : Config}
    (h : Config.loadFromFile pton path (some text) = .ok cfg) :
    mainRoutes cfg = (loadedTable h).trie := by
  rw [mainRoutes, RouteTable.trie, loadedTable, List.foldl_map]

theorem mem_of_lastLongest {ι : Type} {es : List ι} {hits : ι → Prop} {len : ι → Nat} {e : ι}
    (h : LastLongest es hits len e) : e ∈ es := by
  obtain ⟨pre, post, rfl, -⟩ := h
  exact List.mem_append_right _ List.mem_cons_self

/-- Where all routes lead to the tunnel, it does not matter which is the longest. -/
theorem exists_lastLongest_iff {path text : Text} {cfg : Config}
    (h : Config.loadFromFile pton path (some text) = .ok cfg) (dst : IpAddr) :
    (∃ c, LastLongest (loadedTable h).routes (fun r => r.1.contains dst = true)
      (fun r => r.1.prefixLen.toNat) (c, .ToTunnel)) ↔
      ∃ c ∈ cfg.routedCidrs, c.contains dst = true := by
  have hvalid := (loadedTable h).valid
  constructor
  · rintro ⟨c, hlast⟩
    obtain ⟨c', hc', hpair⟩ := List.mem_map.mp (mem_of_lastLongest hlast)
    cases hpair
    obtain ⟨-, -, -, hhits, -⟩ := hlast
    exact ⟨c, hc', hhits⟩
  · rintro ⟨c, hc, hcontains⟩
    cases hlookup : (LpmTrie.ofInserts (loadedTable h).routes).lookup dst with
    | none =>
      have hnone := (LpmTrie.lookup_ofInserts_eq_none hvalid dst).mp hlookup
      have hfalse := hnone (c, .ToTunnel) (List.mem_map.mpr ⟨c, hc, rfl⟩)
      rw [hcontains] at hfalse
      cases hfalse
    | some act =>
      obtain ⟨c', hlast⟩ := (LpmTrie.lookup_ofInserts_eq_some hvalid dst act).mp hlookup
      have hmem : (c', act) ∈ (loadedTable h).routes := mem_of_lastLongest hlast
      obtain ⟨_, -, hpair⟩ := List.mem_map.mp hmem
      cases hpair
      exact ⟨c', hlast⟩

/-- **The policy of the trie is what the file says.** -/
theorem forwarded_iff_routed {path text : Text} {cfg : Config}
    (h : Config.loadFromFile pton path (some text) = .ok cfg) (p : Text) :
    Forwarded (loadedTable h) p ↔ Routed pton text p := by
  have hroutes := Config.load_routedCidrs h
  constructor
  · rintro ⟨dst, c, hdst, hlast⟩
    have hroute := (exists_lastLongest_iff h dst).mp ⟨c, hlast⟩
    rw [hroutes] at hroute
    exact ⟨dst, hdst, (exists_route_iff text dst).mp hroute⟩
  · rintro ⟨dst, hdst, hline⟩
    have hroute := (exists_route_iff text dst).mpr hline
    rw [← hroutes] at hroute
    obtain ⟨c, hlast⟩ := (exists_lastLongest_iff h dst).mpr hroute
    exact ⟨dst, c, hdst, hlast⟩

/-! ## What the clients are given -/

/-- The packets given to the clients, in order. -/
def MultiSink.packets {n w : Nat} (s : MultiSink n w) : List Text := s.log.map Handover.packet

/-- The packets among the inputs of the sink. -/
def PumpAction.packet? {n : Nat} : PumpAction n → Option Text
  | .packet d => some d
  | .health _ _ => none
  | .answers _ _ => none

/-- A sink with clients gives on what it is called with. -/
theorem packets_of_run {n w : Nat} (hn : 0 < n) {inputs : List (MultiSink n w × PumpAction n)}
    {s : MultiSink n w} (h : (pump n w).Run (fun _ _ => True) inputs s) :
    s.packets = (inputs.map Prod.snd).filterMap PumpAction.packet? := by
  induction h with
  | init => rfl
  | @step inputs s s' a _ _ hstep ih =>
    rw [List.map_append, List.filterMap_append, ← ih]
    cases a with
    | packet d =>
      cases hstep
      rw [MultiSink.packets, MultiSink.onPacket, dif_pos hn, List.map_append]
      rfl
    | health i ev =>
      obtain ⟨h', -, rfl⟩ := Option.map_eq_some_iff.mp hstep
      exact (List.append_nil _).symm
    | answers i ok =>
      cases hstep
      exact (List.append_nil _).symm

/-- The inputs that are calls are those with a packet. -/
theorem filterMap_packet? {n : Nat} (as : List (PumpAction n)) :
    as.filterMap PumpAction.packet? = (as.filter PumpAction.isPacket).filterMap PumpAction.packet? := by
  rw [List.filterMap_filter]
  apply List.filterMap_congr
  intro a _
  cases a <;> rfl

/-- The packets of the calls that the reader makes are those it hands over. -/
theorem packets_of_emitted (cfg : Config) (history : List (Router.State × Router.Input)) :
    (Machine.emitted (sinkCalls cfg) history).filterMap PumpAction.packet? =
      handed (mainRoutes cfg) true history := by
  unfold handed Machine.emitted
  rw [List.filterMap_flatMap]
  congr 1
  funext x
  unfold sinkCalls
  rw [List.filterMap_map]
  exact List.filterMap_some

/-- The cascade's two runs. -/
theorem outbound_runs {cfg : Config}
    {history : List ((Router.State × MultiSink 4 64) × (Router.Input ⊕ PumpAction 4))}
    {s : Router.State × MultiSink 4 64} (h : (outbound cfg).Run Driven history s) :
    router.Run (fun _ _ => True) (Machine.lefts history) s.1 ∧ (pump 4 64).Reachable s.2 ∧
      s.2.packets = handed (mainRoutes cfg) true (Machine.lefts history) := by
  have hout : ∀ s x, ∀ y ∈ sinkCalls cfg s x, PumpAction.isPacket y = true := by
    intro s x y hy
    obtain ⟨d, -, rfl⟩ := List.mem_map.mp hy
    rfl
  obtain ⟨inputs, hrun, hfed⟩ := Machine.Run.exists_right hout h
  refine ⟨h.left, hrun.reach, ?_⟩
  rw [packets_of_run (by decide) hrun, filterMap_packet?, hfed, packets_of_emitted]

/-! ## What `DatagramSend` is called with -/

/-- The bytes that `DatagramSend` was called with on the connection of a client. -/
def Handover.datagram {n : Nat} (i : Fin n) (e : Handover n) : Option Text :=
  match e.result with
  | .guarded => none
  | .datagramSend bytes _ => if e.client = i then some bytes else none

/-- The calls of `DatagramSend` on the connections of a client, in order. -/
def MultiSink.datagrams {n w : Nat} (s : MultiSink n w) (i : Fin n) : List Text :=
  s.log.filterMap (Handover.datagram i)

/-- The packets of a client that its guard has let through: `connection_` was there and
`handshake_ok_` set. -/
def MultiSink.letThrough {n w : Nat} (s : MultiSink n w) (i : Fin n) : List Text :=
  (s.log.filter fun e =>
    e.client = i ∧ e.health.connection = true ∧ e.health.handshakeOk = true).map Handover.packet

/-- The frame of a packet is decoded to the packet. -/
theorem deliverInbound_encode {H : Type} (handler : H) (p : Text) :
    deliverInbound (some handler) (encode ⟨.IpPacket, 0, p⟩) = some (handler, p) := by
  rw [deliverInbound, decode_encode]
  rfl

theorem filterMap_eq_map_filter {γ δ : Type} {f : γ → Option δ} {g : γ → δ} {q : γ → Bool}
    {l : List γ} (h : ∀ x ∈ l, f x = if q x then some (g x) else none) :
    l.filterMap f = (l.filter q).map g := by
  induction l with
  | nil => rfl
  | cons x l ih =>
    obtain ⟨hx, hl⟩ := List.forall_mem_cons.mp h
    rw [List.filterMap_cons, hx, List.filter_cons, ih hl]
    cases q x <;> rfl

/-- `DatagramSend` is called with the frames of what the guard has let through. -/
theorem MultiSink.Sound.datagrams_eq {n w : Nat} {s : MultiSink n w} (h : s.Sound) (i : Fin n) :
    s.datagrams i = (s.letThrough i).map fun p => encode ⟨.IpPacket, 0, p⟩ := by
  rw [datagrams, letThrough, List.map_map]
  apply filterMap_eq_map_filter
  intro e he
  obtain ⟨-, ok, hresult⟩ := h.sent e he
  rw [Handover.datagram, hresult, sendPacket]
  by_cases hguard : (!e.health.connection || !e.health.handshakeOk) = true
  · rw [if_pos hguard, if_neg]
    simp only [Bool.or_eq_true, Bool.not_eq_true'] at hguard
    rintro hpass
    obtain ⟨-, hconn, hok⟩ := of_decide_eq_true hpass
    simp [hconn, hok] at hguard
  · rw [if_neg hguard]
    simp only [Bool.or_eq_true, Bool.not_eq_true', not_or, Bool.not_eq_false] at hguard
    simp only [hguard.1, hguard.2, and_true, Function.comp_apply, decide_eq_true_eq]

/-! ## The whole -/

/-- **From the configuration file to the datagrams.** Let a text load. In every run of the router over
its routes, with the four clients behind the sink, however their health changes and whatever
`DatagramSend` answers: the packets given to the clients are the packets read from the TUN device that
have a destination in the block of a `route` line, in order and unchanged (a packet between its read and
its routing counts as not yet given). Packet `j` of them goes to client `j mod 4`, gets to
`DatagramSend` exactly if that client has a connection and `handshake_ok_` is set, and to a live
connection exactly if that client is live. `DatagramSend` is called, on the connections of each client,
with the frames of the packets that the guard has let through, in order, and such a frame is decoded to
the packet. -/
theorem outbound_delivers {path text : Text} {cfg : Config}
    (hload : Config.loadFromFile pton path (some text) = .ok cfg)
    {history : List ((Router.State × MultiSink 4 64) × (Router.Input ⊕ PumpAction 4))}
    {s : Router.State × MultiSink 4 64} (hrun : (outbound cfg).Run Driven history s) :
    s.2.packets ++ s.1.inHand.filter (Routed pton text) =
        (received (Machine.lefts history)).filter (Routed pton text) ∧
      (∀ j e, s.2.log[j]? = some e → e.client.val = j % 4 ∧
        (e.Sent ↔ e.health.connection = true ∧ e.health.handshakeOk = true) ∧
        (e.ToLive ↔ e.health.Live)) ∧
      ∀ i, s.2.datagrams i = (s.2.letThrough i).map (fun p => encode ⟨.IpPacket, 0, p⟩) ∧
        ∀ p ∈ s.2.letThrough i, deliverInbound (some ()) (encode ⟨.IpPacket, 0, p⟩) = some ((), p) := by
  obtain ⟨hrouter, hsink, hpackets⟩ := outbound_runs hrun
  have hsound := MultiSink.Sound.of_reach hsink
  have hpolicy : (fun p => decide (Forwarded (loadedTable hload) p)) =
      fun p => decide (Routed pton text p) := by
    funext p
    exact decide_eq_decide.mpr (forwarded_iff_routed hload p)
  refine ⟨?_, ?_, fun i => ⟨hsound.datagrams_eq i, fun p _ => deliverInbound_encode () p⟩⟩
  · have hpumped : Pumped (loadedTable hload) (Machine.lefts history) s.1 :=
      hrouter.invariant (I := Pumped (loadedTable hload)) (by rfl)
        fun _ _ _ _ hrun _ hstep hs => hs.step (joined hrun.reach) (step_moves hstep)
    rw [Pumped, hpolicy, ← mainRoutes_eq hload, ← hpackets] at hpumped
    exact hpumped
  · intro j e he
    have hturn := hsound.turn j e he
    rw [Nat.mod_mod_of_dvd j (by decide)] at hturn
    obtain ⟨hconsistent, ok, hresult⟩ := hsound.sent e (List.mem_of_getElem? he)
    exact ⟨hturn, sent_iff hresult, toLive_iff hconsistent hresult⟩

/-- A file with one route. -/
def oneRoute : Text := ascii "route = 10.0.0.0/8\n"

/-- What it loads to. -/
def oneRouteConfig : Config := { routedCidrs := [⟨.v4 10 0 0 0, 8⟩] }

/-- A client comes up, msquic is to refuse what it is given, the router is started, and a packet for the
route is read and routed. -/
def onePacket (client : Fin 4) : List (Router.Input ⊕ PumpAction 4) :=
  [.flagReset, .connectionOpened, .connected].map (fun ev => .inr (.health client ev)) ++
    .inr (.answers client false) ::
    [.start, .caller true, .caller true, .caller true, .caller true, .reader,
      .poll (.ready ⟨true, false⟩ ⟨false, false⟩), .read (.packet (samplePacket 10)),
      .reader].map .inl

theorem outbound_delivers_one : ∃ history s, (outbound oneRouteConfig).Run Driven history s ∧
    s.2.letThrough 0 = [(samplePacket 10).val] ∧
    (s.2.packets ++ s.1.inHand.filter (Routed ipv4Pton oneRoute) =
        (received (Machine.lefts history)).filter (Routed ipv4Pton oneRoute) ∧
      (∀ j e, s.2.log[j]? = some e → e.client.val = j % 4 ∧
        (e.Sent ↔ e.health.connection = true ∧ e.health.handshakeOk = true) ∧
        (e.ToLive ↔ e.health.Live)) ∧
      ∀ i, s.2.datagrams i = (s.2.letThrough i).map (fun p => encode ⟨.IpPacket, 0, p⟩) ∧
        ∀ p ∈ s.2.letThrough i,
          deliverInbound (some ()) (encode ⟨.IpPacket, 0, p⟩) = some ((), p)) := by
  have hload : Config.loadFromFile ipv4Pton [] (some oneRoute) = .ok oneRouteConfig := rfl
  have hexec : (outbound oneRouteConfig).exec Driven (outbound oneRouteConfig).init (onePacket 0) =
      some _ := rfl
  obtain ⟨history, hrun⟩ := (Machine.reach_of_exec hexec).exists_run
  exact ⟨history, _, hrun, rfl, outbound_delivers hload hrun⟩

end Cfd.Main
