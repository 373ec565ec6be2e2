import Cfd.Net.Netlink

/-!
# Configuring the TUN device

`TunDevice` of `src/tun/tun_device_linux.cpp`, less the packet calls. `configure` runs four netlink
operations on one client: `set_mtu`, whose failure is only logged, then `link_up`, `add_addr` and
`add_route`, whose failures are returned, `EEXIST` of the last one apart.

Because the client does not match replies to requests, going on after `set_mtu` is not harmless: a
reply to it that is missed is taken for the reply to `link_up`, and so on to the end, where the
kernel's answer to `add_route` is never read. `TunDevice.acknowledged_iff` says that this is the only
way in which `configure` succeeds without the kernel's consent.
-/

set_option autoImplicit false

namespace Cfd.Tun

open Cfd.Base Cfd.Net Cfd.Net.Netlink

/-! ## The source -/

/-- An interface name: it fits `ifr_name` with its terminator. -/
abbrev IfName := { name : Text // name.length < ifNameSize }

/-- An open device: its name, as the kernel gave it. -/
structure TunDevice where
  name : IfName

/-- What the system makes of `TunDevice::open`: the open of `/dev/net/tun`, and `TUNSETIFF` on the
requested name, which answers the name given. -/
structure OpenEnv where
  devNetTun : Option ErrorCode
  tunSetIff : IfName → Except ErrorCode IfName

/-- A requested name, cut to what `ifr_name` holds. -/
def requestName (requested : Text) : IfName :=
  ⟨requested.take (ifNameSize - 1), by
    rw [List.length_take]; exact Nat.lt_of_le_of_lt (Nat.min_le_left _ _) (by decide)⟩

/-- `TunDevice::open`. -/
def TunDevice.open (env : OpenEnv) (requestedName : Text) : Except ErrorCode TunDevice :=
  match env.devNetTun with
  | some ec => .error ec
  | none => (env.tunSetIff (requestName requestedName)).map fun name => ⟨name⟩

/-- What the system makes of one `configure`: `Client::open` with the port it is given,
`if_nametoindex`, and the four exchanges. -/
structure ConfigureEnv where
  nlOpen : Except ErrorCode UInt32
  ifNametoindex : Text → Except ErrorCode UInt32
  setMtu : Exchange
  linkUp : Exchange
  addAddr : Exchange
  addRoute : Exchange

/-- `TunDevice::configure`; the inner `none` is success, the outer one a `recv` that blocks. -/
def TunDevice.configure (host : ByteOrder) (env : ConfigureEnv) (d : TunDevice)
    (tunLocal route : Cidr) : Option (Option ErrorCode) :=
  match env.nlOpen with
  | .error ec => some (some ec)
  | .ok pid =>
    match Client.ifIndex env.ifNametoindex d.name with
    | .error ec => some (some ec)
    | .ok idx => do
      -- whatever `set_mtu` answers, the client is used on
      let r ← (Client.opened pid).setMtu host env.setMtu idx 1280
      let r ← r.client.linkUp host env.linkUp idx
      match r.ec with
      | some ec => return some ec
      | none =>
        let r ← r.client.addAddr host env.addAddr idx tunLocal
        match r.ec with
        | some ec => return some ec
        | none =>
          let r ← r.client.addRoute host env.addRoute idx route
          match r.ec with
          | some ec => if ec ≠ .EEXIST then return some ec else return none
          | none => return none

/-- What the system makes of one `add_route`. -/
structure AddRouteEnv where
  nlOpen : Except ErrorCode UInt32
  ifNametoindex : Text → Except ErrorCode UInt32
  addRoute : Exchange

/-- `TunDevice::add_route`. -/
def TunDevice.addRoute (host : ByteOrder) (env : AddRouteEnv) (d : TunDevice) (route : Cidr) :
    Option (Option ErrorCode) :=
  match env.nlOpen with
  | .error ec => some (some ec)
  | .ok pid =>
    match Client.ifIndex env.ifNametoindex d.name with
    | .error ec => some (some ec)
    | .ok idx => do
      let r ← (Client.opened pid).addRoute host env.addRoute idx route
      match r.ec with
      | some ec => if ec ≠ .EEXIST then return some ec else return none
      | none => return none

/-! ## What success means -/

/-- The kernel received the request of this exchange and decided `verdict` on it. -/
def Decided (x : Exchange) (verdict : Option ErrorCode) : Prop :=
  x.send = none ∧ x.verdict = verdict

/-- The kernel has acknowledged `link_up` and `add_addr` without error, and `add_route` without
error or with `EEXIST`. -/
structure ConfigureEnv.Acknowledged (env : ConfigureEnv) : Prop where
  linkUp : Decided env.linkUp none
  addAddr : Decided env.addAddr none
  addRoute : Decided env.addRoute none ∨ Decided env.addRoute (some .EEXIST)

/-- The request was sent and the kernel did it, but its reply was missed. -/
def Missed (x : Exchange) : Prop :=
  x.send = none ∧ x.verdict = none ∧ x.recv ≠ none

/-- A successful `configure` went through its four operations, each of which settled on the client
that the one before left. -/
theorem TunDevice.configure_eq_success {host : ByteOrder} {env : ConfigureEnv} {d : TunDevice}
    {tunLocal route : Cidr} (h : d.configure host env tunLocal route = some none) :
    ∃ pid mtu link addr rt, (Client.opened pid).Settles env.setMtu mtu ∧
      mtu.client.Settles env.linkUp link ∧ link.ec = none ∧
      link.client.Settles env.addAddr addr ∧ addr.ec = none ∧
      addr.client.Settles env.addRoute rt ∧ (rt.ec = none ∨ rt.ec = some .EEXIST) := by
  unfold configure at h
  split at h
  · cases h
  next pid _ =>
    split at h
    · cases h
    next idx _ =>
      obtain ⟨mtu, hmtu, hs1⟩ :=
        Op.run_settles host (Client.opened pid) env.setMtu (.setMtu idx 1280)
      obtain ⟨link, hlink, hs2⟩ := Op.run_settles host mtu.client env.linkUp (.linkUp idx)
      obtain ⟨addr, haddr, hs3⟩ := Op.run_settles host link.client env.addAddr (.addAddr idx tunLocal)
      obtain ⟨rt, hrt, hs4⟩ := Op.run_settles host addr.client env.addRoute (.addRoute idx route)
      simp only [Op.run] at hmtu hlink haddr hrt
      simp only [hmtu, hlink, Option.bind_eq_bind, Option.bind_some] at h
      cases hec2 : link.ec with
      | some ec => simp [hec2] at h
      | none =>
        simp only [hec2, haddr, Option.bind_some] at h
        cases hec3 : addr.ec with
        | some ec => simp [hec3] at h
        | none =>
          simp only [hec3, hrt, Option.bind_some] at h
          refine ⟨pid, mtu, link, addr, rt, hs1, hs2, hec2, hs3, hec3, hs4, ?_⟩
          cases hec4 : rt.ec with
          | none => exact Or.inl rfl
          | some ec =>
            simp only [hec4] at h
            split at h
            · cases h
            next heq => exact Or.inr (congrArg some (not_not.mp heq))

/-- Where nothing is left over, a success is the kernel's. -/
theorem decided_of_empty {c : Client} {x : Exchange} {r : Reply} {verdict : Option ErrorCode}
    (h : c.Settles x r) (hempty : c.inbox = []) (hec : r.ec = verdict)
    (hverdict : verdict = none ∨ verdict = some .EEXIST) :
    Decided x verdict ∧ r.client.inbox = [] := by
  rcases h.of_empty hempty with ⟨hsend, hv, hrest, -⟩ | ⟨hne, hnexist, -⟩
  · exact ⟨⟨hsend, hv.symm.trans hec⟩, hrest⟩
  · rcases hverdict with rfl | rfl
    · exact absurd hec hne
    · exact absurd hec hnexist

/-- A request that the kernel does. -/
def exchangeDone : Exchange := ⟨none, none, none, nofun, nofun⟩

/-- A request that the kernel refuses. -/
def exchangeRefused : Exchange := ⟨none, some .EINVAL, none, nofun, nofun⟩

/-- Nothing goes wrong but for the reply to `set_mtu`; and the kernel refuses the route. -/
def ConfigureEnv.refusedRoute (m : Exchange) : ConfigureEnv where
  nlOpen := .ok 0
  ifNametoindex := fun _ => .ok 1
  setMtu := m
  linkUp := exchangeDone
  addAddr := exchangeDone
  addRoute := exchangeRefused

/-- After a missed reply the refusal of the route is not read. -/
theorem TunDevice.configure_refusedRoute (host : ByteOrder) (d : TunDevice) {m : Exchange}
    (hm : Missed m) (tunLocal route : Cidr) :
    d.configure host (.refusedRoute m) tunLocal route = some none := by
  obtain ⟨hsend, hverdict, hrecv⟩ := hm
  have hname : Client.ifIndex (fun _ => .ok 1) d.name.val = .ok (UInt32.toInt32 1) := by
    rw [Client.ifIndex, if_neg (Nat.not_le_of_lt d.name.property)]
    rfl
  obtain ⟨mtu, hmtu, hs1⟩ :=
    Op.run_settles host (Client.opened 0) m (.setMtu (UInt32.toInt32 1) 1280)
  obtain ⟨link, hlink, hs2⟩ := Op.run_settles host mtu.client exchangeDone (.linkUp (UInt32.toInt32 1))
  obtain ⟨addr, haddr, hs3⟩ :=
    Op.run_settles host link.client exchangeDone (.addAddr (UInt32.toInt32 1) tunLocal)
  obtain ⟨rt, hrt, hs4⟩ :=
    Op.run_settles host addr.client exchangeRefused (.addRoute (UInt32.toInt32 1) route)
  obtain ⟨a, ha, hleft⟩ : ∃ a : Datagram, a.Acks 1 none ∧ mtu.client.inbox = [a] := by
    cases hs1 with
    | unsent h => exact absurd (hsend.symm.trans h) nofun
    | @unheard a ec _ _ ha => exact ⟨a, hverdict ▸ ha, rfl⟩
    | heard _ h => exact absurd h hrecv
  -- each operation now ends as the one before it was decided
  obtain ⟨hec2, -, b, hb, hleft2⟩ := hs2.stale hleft rfl rfl
  obtain ⟨hec3, -, b', hb', hleft3⟩ := hs3.stale hleft2 rfl rfl
  obtain ⟨hec4, -⟩ := hs4.stale hleft3 rfl rfl
  rw [ha.judge_eq] at hec2
  rw [hb.judge_eq] at hec3
  rw [hb'.judge_eq] at hec4
  simp only [Op.run] at hmtu hlink haddr hrt
  simp only [configure, ConfigureEnv.refusedRoute, hname, hmtu, hlink, haddr, hrt,
    Option.bind_eq_bind, Option.bind_some, hec2, hec3, hec4]
  rfl

/-- **When success means consent**: with a given `set_mtu` exchange, every successful `configure`
is acknowledged exactly when that exchange is not one whose reply was missed. -/
theorem TunDevice.acknowledged_iff (host : ByteOrder) (d : TunDevice) (m : Exchange) :
    (∀ (env : ConfigureEnv) (tunLocal route : Cidr), env.setMtu = m →
        d.configure host env tunLocal route = some none → env.Acknowledged) ↔ ¬ Missed m := by
  constructor
  · intro hall hm
    have hack := hall (.refusedRoute m) .zero .zero rfl (d.configure_refusedRoute host hm _ _)
    rcases hack.addRoute with ⟨-, hverdict⟩ | ⟨-, hverdict⟩
    · exact absurd hverdict nofun
    · exact absurd hverdict (by simp only [ConfigureEnv.refusedRoute]; decide)
  · rintro hm env tunLocal route rfl hsuccess
    obtain ⟨pid, mtu, link, addr, rt, hs1, hs2, hec2, hs3, hec3, hs4, hec4⟩ :=
      TunDevice.configure_eq_success hsuccess
    -- a reply left over by `set_mtu` is a refusal, which `link_up` takes for its own
    have hempty : mtu.client.inbox = [] := by
      cases hs1 with
      | unsent _ => rfl
      | @unheard a ec hsend hrecv ha =>
        refine absurd ?_ hm
        refine ⟨hsend, ?_, by simp [hrecv]⟩
        cases hs2 with
        | unsent _ => cases hec2
        | unheard _ _ _ => cases hec2
        | heard _ _ _ hcons =>
          cases hcons
          rw [← ha.judge_eq]
          exact hec2
      | heard _ _ _ hcons =>
        cases hcons
        rfl
    obtain ⟨hlink, hempty⟩ := decided_of_empty hs2 hempty hec2 (Or.inl rfl)
    obtain ⟨haddr, hempty⟩ := decided_of_empty hs3 hempty hec3 (Or.inl rfl)
    refine ⟨hlink, haddr, ?_⟩
    rcases hec4 with hec4 | hec4
    · exact Or.inl (decided_of_empty hs4 hempty hec4 (Or.inl rfl)).1
    · exact Or.inr (decided_of_empty hs4 hempty hec4 (Or.inr rfl)).1

/-- **Results belong to their requests** as long as no reply is missed. On one client, whatever the
operations: while every request that was sent had its reply received, an operation that succeeds
took its own acknowledgement. In `configure`, which goes on after a missed reply to `set_mtu`:
success means consent exactly when no accepted `set_mtu` request had its reply missed. -/
theorem results_belong_iff (host : ByteOrder) (pid : UInt32) (d : TunDevice) (m : Exchange) :
    (∀ c : Client, (client host pid).Reach Heard c → ∀ (op : Op) (x : Exchange) (r : Reply),
        op.run host c x = some r → r.ec = none → r.Own) ∧
      ((∀ (env : ConfigureEnv) (tunLocal route : Cidr), env.setMtu = m →
        d.configure host env tunLocal route = some none → env.Acknowledged) ↔ ¬ Missed m) :=
  ⟨fun _ hreach _ _ _ hrun hok => Op.own_acknowledgement hreach hrun hok,
    d.acknowledged_iff host m⟩

/-- The device under its default name. -/
def cfd0 : TunDevice := ⟨⟨ascii "cfd0", by decide⟩⟩

theorem results_belong_first :
    (∃ r, (Op.linkUp 1).run .little (.opened 7) exchangeDone = some r ∧ r.ec = none ∧ r.Own) ∧
      ∀ (env : ConfigureEnv) (tunLocal route : Cidr), env.setMtu = exchangeDone →
        cfd0.configure .little env tunLocal route = some none → env.Acknowledged := by
  have hiff := results_belong_iff .little 7 cfd0 exchangeDone
  refine ⟨⟨_, rfl, rfl, hiff.1 _ .init (.linkUp 1) exchangeDone _ rfl rfl⟩, hiff.2.mpr ?_⟩
  exact fun hmissed => hmissed.2.2 rfl

/-- `recv` is interrupted during `set_mtu`, and the kernel refuses the route: `configure` succeeds,
and `add_route` is judged by the acknowledgement of `add_addr`. -/
theorem configure_without_route :
    let env := ConfigureEnv.refusedRoute ⟨none, none, some .EINTR, nofun, by decide⟩
    cfd0.configure .little env .zero .zero = some none ∧ ¬ env.Acknowledged := by
  refine ⟨cfd0.configure_refusedRoute .little ⟨rfl, rfl, by decide⟩ _ _, fun hack => ?_⟩
  rcases hack.addRoute with ⟨-, hverdict⟩ | ⟨-, hverdict⟩
  · exact absurd hverdict nofun
  · exact absurd hverdict (by simp only [ConfigureEnv.refusedRoute]; decide)

end Cfd.Tun
