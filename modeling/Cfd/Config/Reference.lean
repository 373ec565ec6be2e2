import Cfd.Base.Strip
import Cfd.Config.Load
import Mathlib.Data.List.Forall2
import Mathlib.Logic.Relation

/-!
# What a configuration file means

A reference semantics of configuration files, said without a loop: which lines are ignored, which key a
line sets and to what, which values a key admits, and the configuration of a list of lines as the last
value of each scalar key and the routes in order. `load_eq_ok` is the law: the loader succeeds with a
configuration exactly when every line is accepted and it is the one the lines denote.

So the result of a load does not change when lines are only added to be ignored, respaced, ended
differently, or moved past lines of other keys (`Edit.alike`).
-/

set_option autoImplicit false

namespace Cfd.Config

open Cfd.Base Cfd.Net

/-! ## The reference -/

/-- Blank lines and comments. -/
def Ignored (line : Text) : Prop := strip isSpace line = [] ∨ (strip isSpace line).head? = some 35

/-- The name a line gives: what is before its first `=`. -/
def nameOf (line : Text) : Text := strip isSpace ((strip isSpace line).takeWhile (· ≠ 61))

/-- The value a line gives: what is behind its first `=`. -/
def valueOf (line : Text) : Text := strip isSpace (((strip isSpace line).dropWhile (· ≠ 61)).drop 1)

/-- The name of a key in the file. -/
def Key.name : Key → Text
  | .tunnelId => ascii "tunnel_id"
  | .accountTag => ascii "account_tag"
  | .tunnelSecretB64 => ascii "tunnel_secret_b64"
  | .edgeHost => ascii "edge_host"
  | .edgePort => ascii "edge_port"
  | .tunName => ascii "tun_name"
  | .tunLocal => ascii "tun_local"
  | .route => ascii "route"
  | .caBundlePath => ascii "ca_bundle_path"
  | .clientCertPath => ascii "client_cert_path"
  | .clientKeyPath => ascii "client_key_path"

/-- The line sets this key. -/
def Sets (key : Key) (line : Text) : Prop :=
  ¬ Ignored line ∧ 61 ∈ strip isSpace line ∧ nameOf line = key.name

instance (line : Text) : Decidable (Ignored line) := inferInstanceAs (Decidable (_ ∨ _))

instance (key : Key) (line : Text) : Decidable (Sets key line) := inferInstanceAs (Decidable (_ ∧ _))

/-- The values a key admits: a decimal number from 1 to 65535 as the port, a block as `tun_local` and
as a route, and any text elsewhere. -/
def Key.Valid (pton : InetPton) (v : Text) : Key → Prop
  | .edgePort => v ≠ [] ∧ (∀ c ∈ v, Text.isDigit c) ∧ 1 ≤ Text.decimal v ∧ Text.decimal v ≤ 65535
  | .tunLocal | .route => ∃ c, Cidr.parse pton v = some c
  | _ => True

/-- A line a file may have. -/
def Accepted (pton : InetPton) (line : Text) : Prop :=
  Ignored line ∨ ∃ key, Sets key line ∧ key.Valid pton (valueOf line)

/-- The values that the lines set a key to, in order. -/
def values (key : Key) (ls : List Text) : List Text := (ls.filter fun line => Sets key line).map valueOf

/-- The last of them. -/
def lastValue (key : Key) (ls : List Text) : Option Text := (values key ls).getLast?

/-- The configuration the lines denote: for each scalar the last value of its key, or the default; and
the routes in order. -/
def configOf (pton : InetPton) (ls : List Text) : Config where
  tunnelId := (lastValue .tunnelId ls).getD []
  accountTag := (lastValue .accountTag ls).getD []
  tunnelSecretB64 := (lastValue .tunnelSecretB64 ls).getD []
  edgeHost := (lastValue .edgeHost ls).getD (ascii "region1.argotunnel.com")
  edgePort := ((lastValue .edgePort ls).map fun v => UInt16.ofNat (Text.decimal v)).getD 7844
  tunName := (lastValue .tunName ls).getD (ascii "cfd0")
  tunLocal := ((lastValue .tunLocal ls).bind (Cidr.parse pton)).getD .zero
  routedCidrs := (values .route ls).filterMap (Cidr.parse pton)
  caBundlePath := (lastValue .caBundlePath ls).getD []
  clientCertPath := (lastValue .clientCertPath ls).getD []
  clientKeyPath := (lastValue .clientKeyPath ls).getD []

/-! ## Whitespace -/

/-- Whitespace. -/
def Space (s : Text) : Prop := ∀ c ∈ s, isSpace c = true

/-- `trim` begins at the back. -/
theorem trim_eq_strip (s : Text) : trim s = strip isSpace s := (strip_eq isSpace s).symm

/-! ## Lines -/

/-- What a line with a `=` is, from its two parts. -/
structure Parts (line K V : Text) : Prop where
  eq : line = K ++ 61 :: V
  first : 61 ∉ K

theorem Parts.strip_eq {line K V : Text} (h : Parts line K V) :
    strip isSpace line = K.dropWhile isSpace ++ 61 :: V.rdropWhile isSpace := by
  rw [h.eq, strip_append_cons isSpace K (by decide) V]

theorem Parts.notMem {line K V : Text} (h : Parts line K V) : 61 ∉ K.dropWhile isSpace :=
  fun hmem => h.first ((List.dropWhile_suffix isSpace).subset hmem)

theorem Parts.nameOf_eq {line K V : Text} (h : Parts line K V) : nameOf line = strip isSpace K := by
  have htake : (K.dropWhile isSpace ++ 61 :: V.rdropWhile isSpace).takeWhile (· ≠ 61) =
      K.dropWhile isSpace := by
    rw [List.takeWhile_append_of_pos]
    · simp
    · intro c hc
      exact decide_eq_true fun heq => h.notMem (heq ▸ hc)
  rw [nameOf, h.strip_eq, htake, strip_dropWhile]

theorem Parts.valueOf_eq {line K V : Text} (h : Parts line K V) : valueOf line = strip isSpace V := by
  have hdrop : (K.dropWhile isSpace ++ 61 :: V.rdropWhile isSpace).dropWhile (· ≠ 61) =
      61 :: V.rdropWhile isSpace := by
    rw [List.dropWhile_append_of_pos]
    · simp
    · intro c hc
      exact decide_eq_true fun heq => h.notMem (heq ▸ hc)
  rw [valueOf, h.strip_eq, hdrop, List.drop_one, List.tail_cons, strip_rdropWhile]

/-- A padded secret is kept whole. -/
example : valueOf (ascii " tunnel_secret_b64 = AAE=\r") = ascii "AAE=" := by decide

theorem Parts.ignored_iff {line K V : Text} (h : Parts line K V) :
    Ignored line ↔ (strip isSpace K).head? = some 35 := by
  rw [Ignored, h.strip_eq, head?_strip]
  cases K.dropWhile isSpace <;> simp

theorem Parts.mem_strip {line K V : Text} (h : Parts line K V) : 61 ∈ strip isSpace line := by
  rw [h.strip_eq]
  exact List.mem_append_right _ List.mem_cons_self

/-! ## The loader reads lines as the reference does -/

theorem Key.ofText_name (key : Key) : Key.ofText key.name = some key := by
  cases key <;> decide

/-- The names are told apart. -/
theorem Key.name_injective : Function.Injective Key.name := by
  intro key key' h
  have hname := key'.ofText_name
  rw [← h, key.ofText_name] at hname
  exact Option.some_inj.mp hname

/-- One comparison of the chain. -/
theorem Key.of_ite {p : Prop} [Decidable p] {key key' : Key} {r : Option Key}
    (h : (if p then some key' else r) = some key) : p ∧ key' = key ∨ r = some key := by
  split at h
  next hp => exact Or.inl ⟨hp, Option.some_inj.mp h⟩
  next => exact Or.inr h

theorem Key.ofText_eq_some {k : Text} {key : Key} : Key.ofText k = some key ↔ k = key.name := by
  constructor
  · intro h
    unfold Key.ofText at h
    iterate 11
      rcases Key.of_ite h with ⟨hk, rfl⟩ | h
      · exact hk
    cases h
  · rintro rfl
    exact key.ofText_name

theorem read_eq (line : Text) :
    Line.read line =
      if Ignored line then .skip
      else if 61 ∈ strip isSpace line then .pair (nameOf line) (valueOf line) else .missingEq := by
  unfold Line.read
  simp only [trim_eq_strip, Text.cut_eq]
  by_cases hign : Ignored line
  · rw [if_pos hign]
    exact if_pos hign
  · rw [if_neg hign]
    refine (if_neg hign).trans ?_
    by_cases hmem : 61 ∈ strip isSpace line
    · simp only [hmem, if_true]
      rfl
    · simp only [hmem, if_false]

theorem pairOf_eq_some {line v : Text} {key : Key} :
    pairOf line = some (key, v) ↔ Sets key line ∧ valueOf line = v := by
  unfold pairOf Sets
  rw [read_eq]
  by_cases hign : Ignored line
  · simp [hign]
  · by_cases hmem : 61 ∈ strip isSpace line
    · simp [hign, hmem, Key.ofText_eq_some]
    · simp [hign, hmem]

variable {pton : InetPton}

/-- The port of an `edge_port` line. -/
theorem parsePort_eq_some {v : Text} {port : UInt16} :
    parsePort v = some port ↔
      Key.edgePort.Valid pton v ∧ port = UInt16.ofNat (Text.decimal v) := by
  unfold parsePort fromChars Key.Valid
  by_cases hall : ∀ c ∈ v, Text.isDigit c
  · have htake : v.takeWhile Text.isDigit = v := List.takeWhile_eq_self_iff.mpr hall
    have hdrop : v.dropWhile Text.isDigit = [] := List.dropWhile_eq_nil_iff.mpr hall
    rw [htake, hdrop]
    by_cases hnil : v = []
    · simp [hnil]
    · by_cases hlarge : 2 ^ 32 ≤ Text.decimal v
      · simp only [hnil, hlarge, or_true, if_true, reduceCtorEq, false_iff]
        omega
      · simp only [hnil, hlarge, or_self, if_false]
        by_cases hrange : 1 ≤ Text.decimal v ∧ Text.decimal v ≤ 65535
        · rw [if_neg (by simp; omega), Option.some_inj]
          constructor
          · intro heq
            exact ⟨⟨hnil, hall, hrange.1, hrange.2⟩, heq.symm⟩
          · rintro ⟨-, heq⟩
            exact heq.symm
        · rw [if_pos (by simp; omega)]
          simp only [reduceCtorEq, false_iff]
          tauto
  · have hdrop : v.dropWhile Text.isDigit ≠ [] := mt List.dropWhile_eq_nil_iff.mp hall
    simp only [hall, false_and, and_false, iff_false]
    split
    next => simp
    next port' rest h =>
      split at h
      next => cases h
      next =>
        cases h
        rw [if_pos (Or.inl hdrop)]
        simp

theorem admits_iff {key : Key} {v : Text} : key.Admits pton v ↔ key.Valid pton v := by
  cases key with
  | edgePort =>
    unfold Key.Admits
    simp only [@parsePort_eq_some pton, exists_and_left, exists_eq, and_true]
  | _ => exact Iff.rfl

/-- The lines the loader refuses are those the reference does not accept. -/
theorem badLine_iff {line : Text} : BadLine pton line ↔ ¬ Accepted pton line := by
  unfold BadLine Accepted
  rw [not_or, read_eq]
  have hskip : (if Ignored line then Line.skip
      else if 61 ∈ strip isSpace line then .pair (nameOf line) (valueOf line) else .missingEq) ≠ .skip ↔
        ¬ Ignored line := by
    split
    next hign => simp [hign]
    next hign => split <;> simp [hign]
  rw [hskip]
  refine and_congr_right fun _ => ?_
  simp only [pairOf_eq_some, admits_iff, not_exists, not_and]
  constructor
  · intro h key hsets
    exact h key _ ⟨hsets, rfl⟩
  · rintro h key v ⟨hsets, rfl⟩
    exact h key hsets

/-! ## The loop leaves the last values -/

/-- **The last write of a field is the one that stays.** -/
theorem foldl_last {σ π α β : Type} {f : σ → α} {g : σ → π → σ} {val : π → Option β} {rd : β → α}
    {ps : List π} (h : ∀ p ∈ ps, ∀ s, f (g s p) = ((val p).map rd).getD (f s)) (s : σ) :
    f (ps.foldl g s) = ((ps.filterMap val).getLast?.map rd).getD (f s) := by
  induction ps generalizing s with
  | nil => rfl
  | cons p ps ih =>
    rw [List.foldl_cons, ih fun q hq => h q (List.mem_cons_of_mem p hq), h p List.mem_cons_self]
    cases hv : val p with
    | none => rw [List.filterMap_cons_none hv, Option.map_none, Option.getD_none]
    | some v =>
      rw [List.filterMap_cons_some hv, List.getLast?_cons]
      cases (ps.filterMap val).getLast? <;> rfl

/-- Store a pair, where its value is valid. -/
def store (pton : InetPton) (out : Config) (p : Key × Text) : Config :=
  match assign pton out p.1 p.2 with
  | .ok out => out
  | .error _ => out

/-- What one line leaves when it is accepted. -/
theorem loadLine_eq_ok {lineno : UInt32} {out out' : Config} {line : Text} :
    loadLine pton lineno out line = .ok out' ↔
      Accepted pton line ∧ out' = (pairOf line).elim out (store pton out) := by
  have hisOk : (∃ out', loadLine pton lineno out line = .ok out') ↔ Accepted pton line := by
    rw [loadLine_isOk_iff, badLine_iff, not_not]
  have hvalue : ∀ {cfg}, loadLine pton lineno out line = .ok cfg →
      cfg = (pairOf line).elim out (store pton out) := by
    intro cfg h
    unfold loadLine at h
    unfold pairOf
    split at h
    next hread =>
      cases h
      rw [hread, Option.elim_none]
    next => cases h
    next k v hread =>
      split at h
      next key hkey => simp only [hread, hkey, Option.map_some, Option.elim_some, store, h]
      next => cases h
  constructor
  · intro h
    exact ⟨hisOk.mp ⟨out', h⟩, hvalue h⟩
  · rintro ⟨hacc, rfl⟩
    obtain ⟨cfg, h⟩ := hisOk.mpr hacc
    rw [← hvalue h]
    exact h

/-- What the loop leaves when it succeeds. -/
theorem loadLines_eq_ok {lineno : UInt32} {out out' : Config} {ls : List Text} :
    loadLines pton lineno out ls = .ok out' ↔
      (∀ line ∈ ls, Accepted pton line) ∧ out' = (ls.filterMap pairOf).foldl (store pton) out := by
  induction ls generalizing lineno out with
  | nil => simp [loadLines, eq_comm]
  | cons line rest ih =>
    have hstep : loadLines pton lineno out (line :: rest) = .ok out' ↔
        ∃ out₁, loadLine pton (lineno + 1) out line = .ok out₁ ∧
          loadLines pton (lineno + 1) out₁ rest = .ok out' := by
      rw [loadLines]
      cases loadLine pton (lineno + 1) out line <;> simp
    simp only [hstep, loadLine_eq_ok, ih, List.forall_mem_cons]
    constructor
    · rintro ⟨out₁, ⟨hline, rfl⟩, hrest, rfl⟩
      refine ⟨⟨hline, hrest⟩, ?_⟩
      cases hpair : pairOf line <;> simp [hpair]
    · rintro ⟨⟨hline, hrest⟩, rfl⟩
      refine ⟨_, ⟨hline, rfl⟩, hrest, ?_⟩
      cases hpair : pairOf line <;> simp [hpair]

/-- The value of a pair with this key. -/
def valueFor (key : Key) (p : Key × Text) : Option Text := if p.1 = key then some p.2 else none

theorem filterMap_valueFor (key : Key) (ls : List Text) :
    (ls.filterMap pairOf).filterMap (valueFor key) = values key ls := by
  unfold values
  rw [List.filterMap_filterMap]
  induction ls with
  | nil => rfl
  | cons line rest ih =>
    have hline : (pairOf line).bind (valueFor key) =
        if Sets key line then some (valueOf line) else none := by
      ext v
      simp only [Option.bind_eq_some_iff, Prod.exists, pairOf_eq_some, valueFor,
        Option.ite_none_right_eq_some, Option.some_inj]
      constructor
      · rintro ⟨_, _, ⟨hsets, rfl⟩, rfl, rfl⟩
        exact ⟨hsets, rfl⟩
      · rintro ⟨hsets, rfl⟩
        exact ⟨key, _, ⟨hsets, rfl⟩, rfl, rfl⟩
    rw [List.filterMap_cons, ih, hline]
    by_cases hsets : Sets key line <;> simp [hsets]

theorem store_edgePort (out : Config) (v : Text) :
    store pton out (.edgePort, v) = { out with edgePort := (parsePort v).getD out.edgePort } := by
  unfold store assign
  cases parsePort v <;> rfl

theorem store_tunLocal (out : Config) (v : Text) :
    store pton out (.tunLocal, v) =
      { out with tunLocal := (Cidr.parse pton v).getD out.tunLocal } := by
  unfold store assign
  cases Cidr.parse pton v <;> rfl

theorem store_route (out : Config) (v : Text) :
    store pton out (.route, v) =
      { out with routedCidrs := out.routedCidrs ++ (Cidr.parse pton v).toList } := by
  unfold store assign
  cases Cidr.parse pton v <;> simp

/-- A field that one key sets holds the last value of that key, or what it held before. -/
theorem foldl_store {α : Type} (f : Config → α) (key : Key) (rd : Text → α) {ls : List Text}
    (hacc : ∀ line ∈ ls, Accepted pton line)
    (h : ∀ key' v out, key'.Valid pton v →
      f (store pton out (key', v)) = ((valueFor key (key', v)).map rd).getD (f out)) :
    f ((ls.filterMap pairOf).foldl (store pton) {}) =
      ((lastValue key ls).map rd).getD (f {}) := by
  rw [lastValue, ← filterMap_valueFor]
  apply foldl_last
  rintro ⟨key', v⟩ hmem out
  obtain ⟨line, hline, hpair⟩ := List.mem_filterMap.mp hmem
  obtain ⟨hsets, rfl⟩ := pairOf_eq_some.mp hpair
  apply h
  rcases hacc line hline with hign | ⟨key₁, hsets₁, hvalid⟩
  · exact absurd hign hsets.1
  · have hname : key₁.name = key'.name := hsets₁.2.2.symm.trans hsets.2.2
    exact Key.name_injective hname ▸ hvalid

/-- A field that is the text of its key. -/
theorem foldl_text (f : Config → Text) (key : Key) {ls : List Text}
    (hacc : ∀ line ∈ ls, Accepted pton line)
    (h : ∀ key' v out,
      f (store pton out (key', v)) = (valueFor key (key', v)).getD (f out)) :
    f ((ls.filterMap pairOf).foldl (store pton) {}) = (lastValue key ls).getD (f {}) := by
  have hfold := foldl_store f key id hacc fun key' v out _ => by
    rw [Option.map_id_apply]
    exact h key' v out
  rwa [Option.map_id_apply] at hfold

theorem foldl_routedCidrs (ps : List (Key × Text)) (out : Config) :
    (ps.foldl (store pton) out).routedCidrs =
      out.routedCidrs ++ (ps.filterMap (valueFor .route)).filterMap (Cidr.parse pton) := by
  induction ps generalizing out with
  | nil => simp
  | cons p ps ih =>
    have hstore : (store pton out p).routedCidrs =
        out.routedCidrs ++ ((valueFor .route p).bind (Cidr.parse pton)).toList := by
      obtain ⟨key, v⟩ := p
      cases key with
      | route => rw [store_route]; rfl
      | edgePort => rw [store_edgePort]; exact (List.append_nil _).symm
      | tunLocal => rw [store_tunLocal]; exact (List.append_nil _).symm
      | _ => exact (List.append_nil _).symm
    rw [List.foldl_cons, ih, hstore, List.append_assoc]
    cases h : valueFor .route p with
    | none => simp [h]
    | some v => cases h' : Cidr.parse pton v <;> simp [h, h']

attribute [ext] Config

/-- The loop leaves the configuration that its lines denote. -/
theorem foldl_eq_configOf {ls : List Text} (hacc : ∀ line ∈ ls, Accepted pton line) :
    (ls.filterMap pairOf).foldl (store pton) {} = configOf pton ls := by
  refine Config.ext
    (foldl_text (fun cfg => cfg.tunnelId) .tunnelId hacc ?_)
    (foldl_text (fun cfg => cfg.accountTag) .accountTag hacc ?_)
    (foldl_text (fun cfg => cfg.tunnelSecretB64) .tunnelSecretB64 hacc ?_)
    (foldl_text (fun cfg => cfg.edgeHost) .edgeHost hacc ?_)
    ?edgePort
    (foldl_text (fun cfg => cfg.tunName) .tunName hacc ?_)
    ?tunLocal
    ?routedCidrs
    (foldl_text (fun cfg => cfg.caBundlePath) .caBundlePath hacc ?_)
    (foldl_text (fun cfg => cfg.clientCertPath) .clientCertPath hacc ?_)
    (foldl_text (fun cfg => cfg.clientKeyPath) .clientKeyPath hacc ?_)
  case edgePort =>
    apply foldl_store (fun cfg => cfg.edgePort) .edgePort _ hacc
    intro key v out hvalid
    cases key with
    | edgePort =>
      have hport : parsePort v = some (UInt16.ofNat (Text.decimal v)) :=
        (@parsePort_eq_some pton v _).mpr ⟨hvalid, rfl⟩
      rw [store_edgePort, hport]
      rfl
    | tunLocal => rw [store_tunLocal]; rfl
    | route => rw [store_route]; rfl
    | _ => rfl
  case tunLocal =>
    refine (foldl_store (fun cfg => cfg.tunLocal) .tunLocal
      (fun v => (Cidr.parse pton v).getD .zero) hacc ?_).trans ?_
    · intro key v out hvalid
      cases key with
      | tunLocal =>
        obtain ⟨c, hc⟩ := hvalid
        rw [store_tunLocal, hc]
        simp [valueFor, hc]
      | edgePort => rw [store_edgePort]; rfl
      | route => rw [store_route]; rfl
      | _ => rfl
    · unfold configOf
      cases lastValue .tunLocal ls <;> rfl
  case routedCidrs =>
    rw [foldl_routedCidrs, filterMap_valueFor]
    rfl
  all_goals
    intro key v out
    cases key with
    | edgePort => rw [store_edgePort]; rfl
    | tunLocal => rw [store_tunLocal]; rfl
    | route => rw [store_route]; rfl
    | _ => rfl

/-- **A load succeeds with what the lines denote**, exactly when every line is accepted. -/
theorem load_eq_ok {path text : Text} {cfg : Config} :
    loadFromFile pton path (some text) = .ok cfg ↔
      (∀ line ∈ text.lines, Accepted pton line) ∧ cfg = configOf pton text.lines := by
  rw [loadFromFile, loadLines_eq_ok]
  refine and_congr_right fun hacc => ?_
  rw [foldl_eq_configOf hacc]

/-! ## Edits that do not change the result -/

/-- Two texts that differ in the whitespace around them. -/
def Spaced (s s' : Text) : Prop :=
  ∃ core a b a' b', Space a ∧ Space b ∧ Space a' ∧ Space b' ∧
    s = a ++ core ++ b ∧ s' = a' ++ core ++ b'

/-- Two lines that differ in the whitespace around them, or around their key and their value. -/
inductive Respaced : Text → Text → Prop
  | line {line line' : Text} : Spaced line line' → Respaced line line'
  | parts {K K' V V' : Text} : 61 ∉ K → Spaced K K' → Spaced V V' →
      Respaced (K ++ 61 :: V) (K' ++ 61 :: V')

/-- A text with `\r\n` for every `\n`. -/
def crlf : Text → Text
  | [] => []
  | c :: s => if c = 10 then 13 :: 10 :: crlf s else c :: crlf s

/-- An edit of a file's text: a blank or comment line put in, whitespace changed around lines, keys
and values, another line ending, a final newline, and an order that keeps the lines of each key. -/
inductive Edit : Text → Text → Prop
  | insert {text text' line : Text} {before after : List Text} : Ignored line →
      text.lines = before ++ after → text'.lines = before ++ line :: after → Edit text text'
  | respace {text text' : Text} : List.Forall₂ Respaced text.lines text'.lines → Edit text text'
  | crlf (text : Text) : Edit text (crlf text)
  | newline {text : Text} : text ≠ [] → text.getLast? ≠ some 10 → Edit text (text ++ [10])
  | reorder {text text' : Text} : text.lines.Perm text'.lines →
      (∀ key, (text.lines.filter fun line => Sets key line) =
        text'.lines.filter fun line => Sets key line) → Edit text text'

/-- Lists of lines that load alike. -/
structure Alike (pton : InetPton) (ls ls' : List Text) : Prop where
  accepted : (∀ line ∈ ls, Accepted pton line) ↔ ∀ line ∈ ls', Accepted pton line
  values : ∀ key, values key ls = values key ls'

theorem Alike.configOf_eq {ls ls' : List Text} (h : Alike pton ls ls') :
    configOf pton ls = configOf pton ls' := by
  simp only [configOf, lastValue, h.values]

theorem Alike.load {path text text' : Text} {cfg : Config} (h : Alike pton text.lines text'.lines) :
    loadFromFile pton path (some text) = .ok cfg ↔ loadFromFile pton path (some text') = .ok cfg := by
  rw [load_eq_ok, load_eq_ok, h.accepted, h.configOf_eq]

/-- A line that is ignored changes nothing. -/
theorem alike_insert {line : Text} (hign : Ignored line) (before after : List Text) :
    Alike pton (before ++ after) (before ++ line :: after) where
  accepted := by
    have hline : Accepted pton line := .inl hign
    simp only [List.forall_mem_append, List.forall_mem_cons, hline, true_and]
  values key := by
    have hsets : ¬ Sets key line := fun h => h.1 hign
    simp [Config.values, hsets]

/-- Neither does the order of the lines, as long as the lines of each key keep theirs. -/
theorem alike_reorder {ls ls' : List Text} (hperm : ls.Perm ls')
    (hkeys : ∀ key, (ls.filter fun line => Sets key line) = ls'.filter fun line => Sets key line) :
    Alike pton ls ls' where
  accepted := by
    simp only [hperm.mem_iff]
  values key := by
    rw [Config.values, hkeys key, Config.values]

theorem Spaced.strip_eq {s s' : Text} (h : Spaced s s') : strip isSpace s = strip isSpace s' := by
  obtain ⟨core, a, b, a', b', ha, hb, ha', hb', rfl, rfl⟩ := h
  rw [strip_around isSpace ha hb, strip_around isSpace ha' hb']

theorem Spaced.notMem {s s' : Text} (h : Spaced s s') (hmem : 61 ∉ s) : 61 ∉ s' := by
  obtain ⟨core, a, b, a', b', ha, hb, ha', hb', rfl, rfl⟩ := h
  have hspace : ∀ {t : Text}, Space t → 61 ∉ t := by
    intro t ht hmem
    exact absurd (ht 61 hmem) (by decide)
  simp only [List.mem_append, not_or] at hmem ⊢
  exact ⟨⟨hspace ha', hmem.1.2⟩, hspace hb'⟩

/-- What a line says does not depend on the whitespace. -/
theorem Respaced.same {line line' : Text} (h : Respaced line line') :
    (Ignored line ↔ Ignored line') ∧ (∀ key, Sets key line ↔ Sets key line') ∧
      valueOf line = valueOf line' := by
  cases h with
  | line hline =>
    have hstrip := hline.strip_eq
    refine ⟨?_, fun key => ?_, ?_⟩
    · rw [Ignored, hstrip, Ignored]
    · rw [Sets, Ignored, nameOf, hstrip, Sets, Ignored, nameOf]
    · rw [valueOf, hstrip, valueOf]
  | @parts K K' V V' hfirst hK hV =>
    have hparts : Parts (K ++ 61 :: V) K V := ⟨rfl, hfirst⟩
    have hparts' : Parts (K' ++ 61 :: V') K' V' := ⟨rfl, hK.notMem hfirst⟩
    have hign : Ignored (K ++ 61 :: V) ↔ Ignored (K' ++ 61 :: V') := by
      rw [hparts.ignored_iff, hparts'.ignored_iff, hK.strip_eq]
    refine ⟨hign, fun key => ?_, ?_⟩
    · rw [Sets, Sets, hign, hparts.nameOf_eq, hparts'.nameOf_eq, hK.strip_eq]
      simp only [hparts.mem_strip, hparts'.mem_strip]
    · rw [hparts.valueOf_eq, hparts'.valueOf_eq, hV.strip_eq]

theorem Respaced.accepted_iff {line line' : Text} (h : Respaced line line') :
    Accepted pton line ↔ Accepted pton line' := by
  obtain ⟨hign, hsets, hvalue⟩ := h.same
  simp only [Accepted, hign, hsets, hvalue]

/-- Neither does whitespace. -/
theorem alike_respace {ls ls' : List Text} (h : List.Forall₂ Respaced ls ls') : Alike pton ls ls' where
  accepted := by
    induction h with
    | nil => rfl
    | cons hline _ ih => rw [List.forall_mem_cons, List.forall_mem_cons, hline.accepted_iff, ih]
  values key := by
    unfold Config.values
    induction h with
    | nil => rfl
    | @cons line line' _ _ hline _ ih =>
      obtain ⟨-, hsets, hvalue⟩ := hline.same
      by_cases h : Sets key line
      · have h' : Sets key line' := (hsets key).mp h
        rw [List.filter_cons_of_pos (by simpa using h), List.filter_cons_of_pos (by simpa using h'),
          List.map_cons, List.map_cons, ih, hvalue]
      · have h' : ¬ Sets key line' := mt (hsets key).mpr h
        rw [List.filter_cons_of_neg (by simpa using h), List.filter_cons_of_neg (by simpa using h'), ih]

/-- With `\r\n` every line that was ended has a `\r` at its end. -/
theorem lines_crlf (text : Text) :
    List.Forall₂ (fun line line' => line' = line ∨ line' = line ++ [13]) text.lines (crlf text).lines := by
  induction text with
  | nil => exact .nil
  | cons c s ih =>
    by_cases hc : c = 10
    · subst hc
      exact .cons (.inr rfl) ih
    · rw [crlf, if_neg hc, Text.lines, Text.lines, if_neg hc, if_neg hc]
      generalize Text.lines s = ls, Text.lines (crlf s) = ls' at ih ⊢
      cases ih with
      | nil => exact .cons (.inl rfl) .nil
      | cons hline hrest =>
        refine .cons (hline.imp ?_ ?_) hrest
        · intro heq
          rw [heq]
        · intro heq
          rw [heq, List.cons_append]

/-- A final newline ends the last line. -/
theorem lines_newline {text : Text} (hne : text ≠ []) (hlast : text.getLast? ≠ some 10) :
    (text ++ [10]).lines = text.lines := by
  induction text with
  | nil => exact absurd rfl hne
  | cons c s ih =>
    by_cases hs : s = []
    · subst hs
      have hc : c ≠ 10 := by simpa using hlast
      simp [Text.lines, hc]
    · have hrest : Text.lines (s ++ [10]) = Text.lines s := by
        apply ih hs
        rwa [List.getLast?_cons_of_ne_nil hs] at hlast
      rw [List.cons_append, Text.lines, hrest, Text.lines]

theorem Edit.alike {text text' : Text} (h : Edit text text') : Alike pton text.lines text'.lines := by
  cases h with
  | insert hign hlines hlines' =>
    rw [hlines, hlines']
    exact alike_insert hign _ _
  | respace hlines => exact alike_respace hlines
  | crlf =>
    apply alike_respace
    apply (lines_crlf text).imp
    intro line line' hline
    apply Respaced.line
    rcases hline with rfl | rfl
    · exact ⟨line', [], [], [], [], by simp [Space]⟩
    · exact ⟨line, [], [], [], [13], by simp [Space, isSpace]⟩
  | newline hne hlast =>
    rw [lines_newline hne hlast]
    exact ⟨Iff.rfl, fun _ => rfl⟩
  | reorder hperm hkeys => exact alike_reorder hperm hkeys

/-- **The loader is its reference semantics**, and no run of edits changes the result of a load that
succeeds. -/
theorem load_reference (pton : InetPton) :
    (∀ path text cfg, loadFromFile pton path (some text) = .ok cfg ↔
      (∀ line ∈ text.lines, Accepted pton line) ∧ cfg = configOf pton text.lines) ∧
    ∀ path text text' cfg, Relation.EqvGen Edit text text' →
      (loadFromFile pton path (some text) = .ok cfg ↔
        loadFromFile pton path (some text') = .ok cfg) := by
  refine ⟨fun path text cfg => load_eq_ok, ?_⟩
  intro path text text' cfg h
  induction h with
  | rel _ _ hedit => exact hedit.alike.load
  | refl => rfl
  | symm _ _ _ ih => exact ih.symm
  | trans _ _ _ _ _ ih₁ ih₂ => exact ih₁.trans ih₂

end Cfd.Config
