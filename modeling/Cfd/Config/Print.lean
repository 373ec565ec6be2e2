import Cfd.Config.Reference
import Cfd.Net.CidrPrint

/-!
# Which configurations a file can hold

The loader has no printer beside it, so the file of a configuration is written here: one line for each
scalar key and one for each route (`Config.render`). `load_tfae` says that it is read back as the
configuration whenever any file is, and names these configurations (`Writable`).

So `Config` is larger than what a load can leave in it: a value never holds a newline nor whitespace at
its ends, a port is never 0, and a block is always in its range. The last is what the trie and the
netlink requests are right about.
-/

set_option autoImplicit false

namespace Cfd.Config

open Cfd.Base Cfd.Net

/-! ## The file of a configuration -/

/-- The keys, in the order of the loader's comparisons. -/
def Key.all : List Key :=
  [.tunnelId, .accountTag, .tunnelSecretB64, .edgeHost, .edgePort, .tunName, .tunLocal, .route,
    .caBundlePath, .clientCertPath, .clientKeyPath]

variable {pton : InetPton}

/-- The texts that a key is set to. -/
def written (ntop : InetNtop pton) (cfg : Config) : Key → List Text
  | .tunnelId => [cfg.tunnelId]
  | .accountTag => [cfg.accountTag]
  | .tunnelSecretB64 => [cfg.tunnelSecretB64]
  | .edgeHost => [cfg.edgeHost]
  | .edgePort => [Text.print cfg.edgePort.toNat]
  | .tunName => [cfg.tunName]
  | .tunLocal => [cfg.tunLocal.toString ntop]
  | .route => cfg.routedCidrs.map fun c => c.toString ntop
  | .caBundlePath => [cfg.caBundlePath]
  | .clientCertPath => [cfg.clientCertPath]
  | .clientKeyPath => [cfg.clientKeyPath]

/-- The keys with their texts. -/
def pairs (ntop : InetNtop pton) (cfg : Config) : List (Key × Text) :=
  Key.all.flatMap fun key => (cfg.written ntop key).map fun v => (key, v)

/-- A line of the file. -/
def writeLine (p : Key × Text) : Text := p.1.name ++ ascii " = " ++ p.2

/-- The file of a configuration. -/
def render (ntop : InetNtop pton) (cfg : Config) : Text :=
  Text.unlines ((cfg.pairs ntop).map writeLine)

/-- A text that a line can set a key to. -/
def Held (v : Text) : Prop := strip isSpace v = v ∧ 10 ∉ v

instance (v : Text) : Decidable (Held v) := inferInstanceAs (Decidable (_ ∧ _))

/-- The fields that are texts. -/
def texts (cfg : Config) : List Text :=
  [cfg.tunnelId, cfg.accountTag, cfg.tunnelSecretB64, cfg.edgeHost, cfg.tunName, cfg.caBundlePath,
    cfg.clientCertPath, cfg.clientKeyPath]

/-- What a file can hold. -/
structure Writable (cfg : Config) : Prop where
  texts : ∀ v ∈ cfg.texts, Held v
  port : cfg.edgePort ≠ 0
  blocks : ∀ c ∈ cfg.tunLocal :: cfg.routedCidrs, c.Valid ∧ c.addr.Canonical

/-! ## A line is read back -/

theorem held_of_noSpace {v : Text} (h : ∀ c ∈ v, isSpace c = false) : Held v := by
  refine ⟨strip_eq_self isSpace h, ?_⟩
  intro hmem
  have hten := h 10 hmem
  revert hten
  decide

/-- What numbers are written with. -/
theorem noSpace_of_isDigit {c : UInt8} (h : Text.isDigit c = true) : isSpace c = false := by
  unfold Text.isDigit at h
  unfold isSpace
  grind

theorem noSpace_of_plain {c : UInt8} (h : InetNtop.plain c = true) : isSpace c = false := by
  unfold InetNtop.plain Text.isDigit at h
  unfold isSpace
  grind

theorem held_print (n : Nat) : Held (Text.print n) :=
  held_of_noSpace fun _ hc => noSpace_of_isDigit (Text.print_isDigit hc)

theorem held_block (ntop : InetNtop pton) (c : Cidr) : Held (c.toString ntop) := by
  apply held_of_noSpace
  intro b hb
  rcases c.plain_toString ntop hb with hplain | rfl
  · exact noSpace_of_plain hplain
  · decide

theorem parts_writeLine (key : Key) (v : Text) :
    Parts (writeLine (key, v)) (key.name ++ [32]) (32 :: v) where
  eq := by
    rw [writeLine, List.append_assoc, List.append_assoc]
    rfl
  first := by cases key <;> decide

theorem name_writeLine (key : Key) :
    strip isSpace (key.name ++ [32]) = key.name ∧ key.name.head? ≠ some 35 ∧ 10 ∉ key.name := by
  cases key <;> decide

/-- The line sets its key to its value. -/
theorem pairOf_writeLine {p : Key × Text} (h : Held p.2) : pairOf (writeLine p) = some p := by
  obtain ⟨key, v⟩ := p
  have hparts := parts_writeLine key v
  obtain ⟨hname, hhead, -⟩ := name_writeLine key
  have hkey : Sets key (writeLine (key, v)) := by
    refine ⟨?_, hparts.mem_strip, ?_⟩
    · rw [hparts.ignored_iff, hname]
      exact hhead
    · rw [hparts.nameOf_eq, hname]
  have hvalue : valueOf (writeLine (key, v)) = v := by
    have hblank : ∀ c ∈ [(32 : UInt8)], isSpace c = true := List.forall_mem_singleton.mpr rfl
    have hspace := strip_around isSpace hblank (List.forall_mem_nil _) v
    rw [List.append_nil, List.singleton_append] at hspace
    rw [hparts.valueOf_eq, hspace, h.1]
  exact pairOf_eq_some.mpr ⟨hkey, hvalue⟩

theorem newline_notMem_writeLine {p : Key × Text} (h : Held p.2) : 10 ∉ writeLine p := by
  obtain ⟨-, -, hname⟩ := name_writeLine p.1
  rw [writeLine, List.mem_append, List.mem_append, not_or, not_or]
  exact ⟨⟨hname, by decide⟩, h.2⟩

/-! ## The file is read back -/

/-- All that is written can be held. -/
theorem Writable.held {cfg : Config} (h : cfg.Writable) (ntop : InetNtop pton) {p : Key × Text}
    (hp : p ∈ cfg.pairs ntop) : Held p.2 := by
  obtain ⟨key, -, hmem⟩ := List.mem_flatMap.mp hp
  obtain ⟨v, hv, rfl⟩ := List.mem_map.mp hmem
  have htext := h.texts
  simp only [Config.texts, List.forall_mem_cons] at htext
  obtain ⟨h₁, h₂, h₃, h₄, h₅, h₆, h₇, h₈, -⟩ := htext
  cases key with
  | edgePort =>
    rw [List.mem_singleton.mp hv]
    exact held_print _
  | tunLocal =>
    rw [List.mem_singleton.mp hv]
    exact held_block ntop _
  | route =>
    obtain ⟨c, -, rfl⟩ := List.mem_map.mp hv
    exact held_block ntop c
  | tunnelId | accountTag | tunnelSecretB64 | edgeHost | tunName | caBundlePath | clientCertPath
  | clientKeyPath =>
    rw [List.mem_singleton.mp hv]
    assumption

theorem filterMap_valueFor_map (k key : Key) (vs : List Text) :
    (vs.map fun v => (k, v)).filterMap (valueFor key) = if k = key then vs else [] := by
  rw [List.filterMap_map]
  split
  next h =>
    subst h
    calc vs.filterMap (valueFor k ∘ fun v => (k, v))
        = vs.filterMap some := List.filterMap_congr fun v _ => if_pos rfl
      _ = vs := List.filterMap_some
  next h =>
    rw [List.filterMap_eq_nil_iff]
    intro v _
    exact if_neg h

/-- Among all keys, a key's texts are found again. -/
theorem filterMap_pairs (ntop : InetNtop pton) (cfg : Config) (key : Key) :
    (cfg.pairs ntop).filterMap (valueFor key) = cfg.written ntop key := by
  rw [pairs, List.filterMap_flatMap]
  simp only [filterMap_valueFor_map]
  cases key <;> simp [Key.all]

theorem Writable.lines_render {cfg : Config} (h : cfg.Writable) (ntop : InetNtop pton) :
    (cfg.render ntop).lines = (cfg.pairs ntop).map writeLine := by
  apply Text.lines_unlines
  intro l hl
  obtain ⟨p, hp, rfl⟩ := List.mem_map.mp hl
  exact newline_notMem_writeLine (h.held ntop hp)

/-- **The file sets every key to what was written.** -/
theorem Writable.values_render {cfg : Config} (h : cfg.Writable) (ntop : InetNtop pton) (key : Key) :
    values key (cfg.render ntop).lines = cfg.written ntop key := by
  have hpairs : ((cfg.pairs ntop).map writeLine).filterMap pairOf = cfg.pairs ntop := by
    rw [List.filterMap_map]
    calc (cfg.pairs ntop).filterMap (pairOf ∘ writeLine)
        = (cfg.pairs ntop).filterMap some :=
          List.filterMap_congr fun p hp => pairOf_writeLine (h.held ntop hp)
      _ = cfg.pairs ntop := List.filterMap_some
  rw [h.lines_render, ← filterMap_valueFor, hpairs, filterMap_pairs]

theorem Writable.parse_block {cfg : Config} (h : cfg.Writable) (ntop : InetNtop pton) {c : Cidr}
    (hc : c ∈ cfg.tunLocal :: cfg.routedCidrs) : Cidr.parse pton (c.toString ntop) = some c :=
  ((Cidr.printed_tfae ntop c).out 0 3).mpr (h.blocks c hc)

theorem Writable.port_valid {cfg : Config} (h : cfg.Writable) :
    Key.edgePort.Valid pton (Text.print cfg.edgePort.toNat) := by
  have hpos : cfg.edgePort.toNat ≠ 0 := by
    intro hzero
    exact h.port (UInt16.toNat_inj.mp hzero)
  have hlt := cfg.edgePort.toNat_lt
  refine ⟨Text.print_ne_nil _, fun c hc => Text.print_isDigit hc, ?_, ?_⟩
  · rw [Text.decimal_print]
    omega
  · rw [Text.decimal_print]
    omega

/-- Every value is one its key admits. -/
theorem Writable.valid {cfg : Config} (h : cfg.Writable) (ntop : InetNtop pton) {key : Key} {v : Text}
    (hv : v ∈ cfg.written ntop key) : key.Valid pton v := by
  cases key with
  | edgePort =>
    rw [List.mem_singleton.mp hv]
    exact h.port_valid
  | tunLocal =>
    rw [List.mem_singleton.mp hv]
    exact ⟨_, h.parse_block ntop List.mem_cons_self⟩
  | route =>
    obtain ⟨c, hc, rfl⟩ := List.mem_map.mp hv
    exact ⟨c, h.parse_block ntop (List.mem_cons_of_mem _ hc)⟩
  | tunnelId | accountTag | tunnelSecretB64 | edgeHost | tunName | caBundlePath | clientCertPath
  | clientKeyPath => exact True.intro

theorem Writable.accepted {cfg : Config} (h : cfg.Writable) (ntop : InetNtop pton) :
    ∀ line ∈ (cfg.render ntop).lines, Accepted pton line := by
  intro line hline
  rw [h.lines_render] at hline
  obtain ⟨⟨key, v⟩, hp, rfl⟩ := List.mem_map.mp hline
  obtain ⟨hsets, hvalue⟩ := pairOf_eq_some.mp (pairOf_writeLine (h.held ntop hp))
  obtain ⟨key', -, hmem⟩ := List.mem_flatMap.mp hp
  obtain ⟨v', hv', heq⟩ := List.mem_map.mp hmem
  cases heq
  refine Or.inr ⟨key, hsets, ?_⟩
  rw [hvalue]
  exact h.valid ntop hv'

/-- The lines denote the configuration. -/
theorem Writable.configOf_render {cfg : Config} (h : cfg.Writable) (ntop : InetNtop pton) :
    configOf pton (cfg.render ntop).lines = cfg := by
  have hroutes : (cfg.routedCidrs.map fun c => c.toString ntop).filterMap (Cidr.parse pton) =
      cfg.routedCidrs := by
    rw [List.filterMap_map]
    calc cfg.routedCidrs.filterMap (Cidr.parse pton ∘ fun c => c.toString ntop)
        = cfg.routedCidrs.filterMap some :=
          List.filterMap_congr fun c hc => h.parse_block ntop (List.mem_cons_of_mem _ hc)
      _ = cfg.routedCidrs := List.filterMap_some
  have hlocal : Cidr.parse pton (cfg.tunLocal.toString ntop) = some cfg.tunLocal :=
    h.parse_block ntop List.mem_cons_self
  ext1 <;> simp [configOf, lastValue, h.values_render ntop, written, hroutes, hlocal,
    Text.decimal_print]

/-! ## And nothing else is -/

/-- A value that a line sets can be held. -/
theorem held_of_mem_values {text v : Text} {key : Key} (h : v ∈ values key text.lines) : Held v := by
  obtain ⟨line, hmem, rfl⟩ := List.mem_map.mp h
  have hline : 10 ∉ line := Text.newline_notMem_lines (List.mem_filter.mp hmem).1
  refine ⟨strip_strip isSpace _, ?_⟩
  intro hten
  have hrest := List.mem_of_mem_drop (mem_of_mem_strip isSpace hten)
  exact hline (mem_of_mem_strip isSpace ((List.dropWhile_suffix _).subset hrest))

theorem held_lastValue {text d : Text} {key : Key} (hd : Held d) :
    Held ((lastValue key text.lines).getD d) := by
  cases hlast : lastValue key text.lines with
  | none => exact hd
  | some v => exact held_of_mem_values (List.mem_of_getLast? hlast)

/-- A value that a line of an accepted file sets is one its key admits. -/
theorem valid_of_mem_values {ls : List Text} (hacc : ∀ line ∈ ls, Accepted pton line) {key : Key}
    {v : Text} (h : v ∈ values key ls) : key.Valid pton v := by
  obtain ⟨line, hmem, rfl⟩ := List.mem_map.mp h
  obtain ⟨hin, hsets⟩ := List.mem_filter.mp hmem
  have hsets : Sets key line := of_decide_eq_true hsets
  rcases hacc line hin with hign | ⟨key', hsets', hvalid⟩
  · exact absurd hign hsets.1
  · have hkey : key'.name = key.name := hsets'.2.2.symm.trans hsets.2.2
    rw [← Key.name_injective hkey]
    exact hvalid

theorem port_of_accepted {ls : List Text} (hacc : ∀ line ∈ ls, Accepted pton line) :
    (configOf pton ls).edgePort ≠ 0 := by
  unfold configOf
  cases hlast : lastValue .edgePort ls with
  | none =>
    have hdefault : (7844 : UInt16) ≠ 0 := by decide
    exact hdefault
  | some v =>
    obtain ⟨-, -, hlo, hhi⟩ := valid_of_mem_values hacc (List.mem_of_getLast? hlast)
    intro hzero
    have htoNat : (UInt16.ofNat (Text.decimal v)).toNat = Text.decimal v :=
      UInt16.toNat_ofNat_of_lt' (Nat.lt_succ_of_le hhi)
    have hport : UInt16.ofNat (Text.decimal v) = 0 := hzero
    rw [hport, UInt16.toNat_zero] at htoNat
    omega

theorem local_of_load (ls : List Text) :
    (configOf pton ls).tunLocal.Valid ∧ (configOf pton ls).tunLocal.addr.Canonical := by
  unfold configOf
  cases hbind : (lastValue .tunLocal ls).bind (Cidr.parse pton) with
  | none => exact ⟨Cidr.zero_valid, Cidr.zero_canonical⟩
  | some c =>
    obtain ⟨v, -, hv⟩ := Option.bind_eq_some_iff.mp hbind
    exact ⟨Cidr.parse_valid hv, Cidr.canonical_of_parse hv⟩

/-- **What a load leaves can be written.** -/
theorem writable_of_load {path text : Text} {cfg : Config}
    (h : loadFromFile pton path (some text) = .ok cfg) : cfg.Writable := by
  obtain ⟨hacc, rfl⟩ := load_eq_ok.mp h
  refine ⟨?_, port_of_accepted hacc, ?_⟩
  · simp only [Config.texts, List.forall_mem_cons]
    exact ⟨held_lastValue (by decide), held_lastValue (by decide), held_lastValue (by decide),
      held_lastValue (by decide), held_lastValue (by decide), held_lastValue (by decide),
      held_lastValue (by decide), held_lastValue (by decide), List.forall_mem_nil _⟩
  · rw [List.forall_mem_cons]
    refine ⟨local_of_load _, ?_⟩
    intro c hc
    obtain ⟨v, -, hv⟩ := List.mem_filterMap.mp hc
    exact ⟨Cidr.parse_valid hv, Cidr.canonical_of_parse hv⟩

/-- **Which configurations a file can hold.** -/
theorem load_tfae (ntop : InetNtop pton) (path : Text) (cfg : Config) :
    [loadFromFile pton path (some (cfg.render ntop)) = .ok cfg,
      ∃ text, loadFromFile pton path (some text) = .ok cfg, cfg.Writable].TFAE := by
  tfae_have 1 → 2 := fun h => ⟨_, h⟩
  tfae_have 2 → 3 := by
    intro h
    obtain ⟨text, htext⟩ := h
    exact writable_of_load htext
  tfae_have 3 → 1 := fun h => load_eq_ok.mpr ⟨h.accepted ntop, (h.configOf_render ntop).symm⟩
  tfae_finish

/-- A configuration with a route of each family. -/
def dualStack : Config :=
  { tunnelId := ascii "0d6c8c06-5b1d-4f0f-9c3a-2f1f9f0e1a2b", edgeHost := ascii "edge.example"
    tunLocal := ⟨.v4 10 99 0 2, 24⟩, routedCidrs := [⟨.v4 10 0 0 0, 8⟩, documentationBlock] }

/-- It is read back from its file; with a newline in a text it is read from none. -/
theorem load_tfae_dualStack :
    loadFromFile Inet.pton [] (some (dualStack.render Inet.ntop)) = .ok dualStack ∧
      ¬ ∃ text, loadFromFile Inet.pton [] (some text) = .ok { dualStack with tunName := [10] } := by
  have hread : dualStack.Writable → loadFromFile Inet.pton [] (some (dualStack.render Inet.ntop)) =
      .ok dualStack := ((load_tfae Inet.ntop [] dualStack).out 0 2).mpr
  have hwritable : ∀ cfg : Config, (∃ text, loadFromFile Inet.pton [] (some text) = .ok cfg) →
      cfg.Writable := fun cfg => ((load_tfae Inet.ntop [] cfg).out 1 2).mp
  refine ⟨hread ⟨by decide, by decide, by decide⟩, fun h => ?_⟩
  have hheld := (hwritable _ h).texts [10] (by decide)
  revert hheld
  decide

end Cfd.Config
