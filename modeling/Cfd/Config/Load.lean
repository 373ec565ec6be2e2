import Cfd.Net.CidrText
import Mathlib.Algebra.Group.Nat.Defs

/-!
# The configuration file

`Config::load_from_file` of `src/config.cpp` with the defaults of `src/include/cfd/config.hpp`. A
file is read line by line: a blank line or a comment is skipped, and any other line must be a known
key, `=`, and a value that its key admits. `load_isOk_iff` says that nothing else is asked of a file.

In particular no key has to be there. What a successful load has found is said for the two keys that
the kernel's state is made from: `tun_local` is the value of its last line, or the default
(`load_tunLocal`), and the routes are those of the file in order (`load_routedCidrs`).
-/

set_option autoImplicit false

namespace Cfd

open Cfd.Base Cfd.Net

/-! ## The source -/

/-- `Config`. -/
structure Config where
  tunnelId : Text := []
  accountTag : Text := []
  tunnelSecretB64 : Text := []
  edgeHost : Text := ascii "region1.argotunnel.com"
  edgePort : UInt16 := 7844
  tunName : Text := ascii "cfd0"
  tunLocal : Cidr := .zero
  routedCidrs : List Cidr := []
  caBundlePath : Text := []
  clientCertPath : Text := []
  clientKeyPath : Text := []

namespace Config

/-- `std::isspace` in the C locale. -/
def isSpace (c : UInt8) : Bool := c = 32 || (9 ≤ c && c ≤ 13)

/-- `trim`: first at the back, then at the front. -/
def trim (s : Text) : Text := ((s.reverse.dropWhile isSpace).reverse).dropWhile isSpace

/-- The keys of a configuration file. -/
inductive Key where
  | tunnelId
  | accountTag
  | tunnelSecretB64
  | edgeHost
  | edgePort
  | tunName
  | tunLocal
  | route
  | caBundlePath
  | clientCertPath
  | clientKeyPath
  deriving DecidableEq

/-- The key that a text names. -/
def Key.ofText (k : Text) : Option Key :=
  if k = ascii "tunnel_id" then some .tunnelId
  else if k = ascii "account_tag" then some .accountTag
  else if k = ascii "tunnel_secret_b64" then some .tunnelSecretB64
  else if k = ascii "edge_host" then some .edgeHost
  else if k = ascii "edge_port" then some .edgePort
  else if k = ascii "tun_name" then some .tunName
  else if k = ascii "tun_local" then some .tunLocal
  else if k = ascii "route" then some .route
  else if k = ascii "ca_bundle_path" then some .caBundlePath
  else if k = ascii "client_cert_path" then some .clientCertPath
  else if k = ascii "client_key_path" then some .clientKeyPath
  else none

/-- `std::from_chars` into an `unsigned`: the value of the leading digits and the text behind them;
`none` where there is no digit or the value does not fit. -/
def fromChars (v : Text) : Option (Nat × Text) :=
  let digits := v.takeWhile Text.isDigit
  if digits = [] ∨ 2 ^ 32 ≤ Text.decimal digits then none
  else some (Text.decimal digits, v.dropWhile Text.isDigit)

/-- The value of an `edge_port` line. -/
def parsePort (v : Text) : Option UInt16 :=
  match fromChars v with
  | none => none
  | some (port, rest) =>
    if rest ≠ [] ∨ port = 0 ∨ port > 65535 then none else some (UInt16.ofNat port)

/-- What a line is: skipped, without `=`, or a key and a value. -/
inductive Line where
  | skip
  | missingEq
  | pair (k v : Text)
  deriving DecidableEq

/-- Read a line. -/
def Line.read (line : Text) : Line :=
  let line := trim line
  if line = [] ∨ line.head? = some 35 then .skip
  else
    match Text.cut 61 line with
    | none => .missingEq
    | some (k, v) => .pair (trim k) (trim v)

/-- Store the value of a key; the error is the text that `main` logs. -/
def assign (pton : InetPton) (out : Config) (key : Key) (v : Text) : Except Text Config :=
  match key with
  | .tunnelId => .ok { out with tunnelId := v }
  | .accountTag => .ok { out with accountTag := v }
  | .tunnelSecretB64 => .ok { out with tunnelSecretB64 := v }
  | .edgeHost => .ok { out with edgeHost := v }
  | .edgePort =>
    match parsePort v with
    | some port => .ok { out with edgePort := port }
    | none => .error (ascii "bad edge_port: " ++ v)
  | .tunName => .ok { out with tunName := v }
  | .tunLocal =>
    match Cidr.parse pton v with
    | some c => .ok { out with tunLocal := c }
    | none => .error (ascii "bad tun_local: " ++ v)
  | .route =>
    match Cidr.parse pton v with
    | some c => .ok { out with routedCidrs := out.routedCidrs ++ [c] }
    | none => .error (ascii "bad route: " ++ v)
  | .caBundlePath => .ok { out with caBundlePath := v }
  | .clientCertPath => .ok { out with clientCertPath := v }
  | .clientKeyPath => .ok { out with clientKeyPath := v }

/-- One line of the loop; `lineno` is its number. -/
def loadLine (pton : InetPton) (lineno : UInt32) (out : Config) (line : Text) :
    Except Text Config :=
  match Line.read line with
  | .skip => .ok out
  | .missingEq => .error (ascii "line " ++ ascii (toString lineno.toNat) ++ ascii ": missing '='")
  | .pair k v =>
    match Key.ofText k with
    | some key => assign pton out key v
    | none => .error (ascii "unknown key: " ++ k)

/-- The loop, over the lines that are left. -/
def loadLines (pton : InetPton) (lineno : UInt32) (out : Config) : List Text → Except Text Config
  | [] => .ok out
  | line :: rest =>
    match loadLine pton (lineno + 1) out line with
    | .error err => .error err
    | .ok out => loadLines pton (lineno + 1) out rest

/-- `Config::load_from_file` into a fresh `Config`; `file` is what the path opens, if it does. -/
def loadFromFile (pton : InetPton) (path : Text) (file : Option Text) : Except Text Config :=
  match file with
  | none => .error (ascii "cannot open " ++ path)
  | some text => loadLines pton 0 {} text.lines

/-! ## What a load asks of a file -/

/-- The key and value of a line that has a known key. -/
def pairOf (line : Text) : Option (Key × Text) :=
  match Line.read line with
  | .pair k v => (Key.ofText k).map fun key => (key, v)
  | _ => none

/-- The key admits this value. -/
def Key.Admits (pton : InetPton) (v : Text) : Key → Prop
  | .edgePort => ∃ port, parsePort v = some port
  | .tunLocal | .route => ∃ c, Cidr.parse pton v = some c
  | _ => True

/-- A line that is neither skipped nor a known key with a value that it admits. -/
def BadLine (pton : InetPton) (line : Text) : Prop :=
  Line.read line ≠ .skip ∧ ∀ key v, pairOf line = some (key, v) → ¬ key.Admits pton v

theorem assign_isOk_iff {pton : InetPton} {out : Config} {key : Key} {v : Text} :
    (∃ out', assign pton out key v = .ok out') ↔ key.Admits pton v := by
  cases key with
  | edgePort =>
    cases h : parsePort v <;> simp [assign, Key.Admits, h]
  | tunLocal =>
    cases h : Cidr.parse pton v <;> simp [assign, Key.Admits, h]
  | route =>
    cases h : Cidr.parse pton v <;> simp [assign, Key.Admits, h]
  | _ => exact ⟨fun _ => trivial, fun _ => ⟨_, rfl⟩⟩

theorem loadLine_isOk_iff {pton : InetPton} {lineno : UInt32} {out : Config} {line : Text} :
    (∃ out', loadLine pton lineno out line = .ok out') ↔ ¬ BadLine pton line := by
  unfold loadLine BadLine pairOf
  cases Line.read line with
  | skip => simp
  | missingEq => simp
  | pair k v =>
    cases hkey : Key.ofText k with
    | none => simp [hkey]
    | some key => simp [hkey, assign_isOk_iff]

theorem loadLines_isOk_iff {pton : InetPton} {lineno : UInt32} {out : Config} {ls : List Text} :
    (∃ out', loadLines pton lineno out ls = .ok out') ↔ ∀ line ∈ ls, ¬ BadLine pton line := by
  induction ls generalizing lineno out with
  | nil => simp [loadLines]
  | cons line rest ih =>
    rw [List.forall_mem_cons, ← @loadLine_isOk_iff pton (lineno + 1) out line]
    unfold loadLines
    cases loadLine pton (lineno + 1) out line with
    | error err => simp
    | ok out' => simp [ih]

/-- **A file loads exactly when it has no bad line.** -/
theorem load_isOk_iff {pton : InetPton} {path text : Text} :
    (∃ cfg, loadFromFile pton path (some text) = .ok cfg) ↔
      ∀ line ∈ text.lines, ¬ BadLine pton line :=
  loadLines_isOk_iff

/-! ## What a load finds -/

/-- The block that a pair stores under `key`. -/
def cidrOf (pton : InetPton) (key : Key) (p : Key × Text) : Option Cidr :=
  if p.1 = key then Cidr.parse pton p.2 else none

/-- The blocks that the lines store under `key`, in order. -/
def cidrValues (pton : InetPton) (key : Key) (ls : List Text) : List Cidr :=
  (ls.filterMap pairOf).filterMap (cidrOf pton key)

theorem cidrValues_cons (pton : InetPton) (key : Key) (line : Text) (rest : List Text) :
    cidrValues pton key (line :: rest) =
      ((pairOf line).bind (cidrOf pton key)).toList ++ cidrValues pton key rest := by
  unfold cidrValues
  cases h : pairOf line with
  | none => simp [h]
  | some p => cases h' : cidrOf pton key p <;> simp [h, h']

/-- What storing one value does to `tun_local` and the routes. -/
theorem assign_cidrs {pton : InetPton} {out out' : Config} {key : Key} {v : Text}
    (h : assign pton out key v = .ok out') :
    out'.tunLocal = (cidrOf pton .tunLocal (key, v)).getD out.tunLocal ∧
      out'.routedCidrs = out.routedCidrs ++ (cidrOf pton .route (key, v)).toList := by
  unfold assign at h
  split at h
  case h_5 =>
    split at h <;> cases h
    simp [cidrOf]
  case h_7 =>
    split at h
    next c hc => cases h; simp [cidrOf, hc]
    next => cases h
  case h_8 =>
    split at h
    next c hc => cases h; simp [cidrOf, hc]
    next => cases h
  all_goals
    cases h
    simp [cidrOf]

theorem loadLine_cidrs {pton : InetPton} {lineno : UInt32} {out out' : Config} {line : Text}
    (h : loadLine pton lineno out line = .ok out') :
    out'.tunLocal = ((pairOf line).bind (cidrOf pton .tunLocal)).getD out.tunLocal ∧
      out'.routedCidrs = out.routedCidrs ++ ((pairOf line).bind (cidrOf pton .route)).toList := by
  unfold loadLine at h
  unfold pairOf
  cases hread : Line.read line with
  | skip =>
    simp only [hread, Except.ok.injEq] at h
    simp [h]
  | missingEq => simp [hread] at h
  | pair k v =>
    cases hkey : Key.ofText k with
    | none => simp [hread, hkey] at h
    | some key =>
      simp only [hread, hkey] at h
      simpa only [hkey, Option.map_some, Option.bind_some] using assign_cidrs h

theorem loadLines_cidrs {pton : InetPton} {lineno : UInt32} {out out' : Config} {ls : List Text}
    (h : loadLines pton lineno out ls = .ok out') :
    out'.tunLocal = (cidrValues pton .tunLocal ls).getLastD out.tunLocal ∧
      out'.routedCidrs = out.routedCidrs ++ cidrValues pton .route ls := by
  induction ls generalizing lineno out with
  | nil =>
    cases h
    simp [cidrValues]
  | cons line rest ih =>
    unfold loadLines at h
    split at h
    · cases h
    next out₁ hline =>
      obtain ⟨hlocal, hroutes⟩ := loadLine_cidrs hline
      obtain ⟨hlocal', hroutes'⟩ := ih h
      rw [hlocal', hroutes', hlocal, hroutes, cidrValues_cons, cidrValues_cons]
      refine ⟨?_, by rw [List.append_assoc]⟩
      cases (pairOf line).bind (cidrOf pton .tunLocal) with
      | none => rfl
      | some c => exact (List.getLastD_cons ..).symm

/-- **`tun_local` is the value of its last line**, or the default where there is none. -/
theorem load_tunLocal {pton : InetPton} {path text : Text} {cfg : Config}
    (h : loadFromFile pton path (some text) = .ok cfg) :
    cfg.tunLocal = (cidrValues pton .tunLocal text.lines).getLastD .zero :=
  (loadLines_cidrs h).1

/-- **The routes are those of the file, in order.** -/
theorem load_routedCidrs {pton : InetPton} {path text : Text} {cfg : Config}
    (h : loadFromFile pton path (some text) = .ok cfg) :
    cfg.routedCidrs = cidrValues pton .route text.lines := by
  simpa using (loadLines_cidrs h).2

/-- A block stored under a key is the value of one of its lines. -/
theorem mem_cidrValues {pton : InetPton} {key : Key} {ls : List Text} {c : Cidr} :
    c ∈ cidrValues pton key ls ↔
      ∃ line ∈ ls, ∃ v, pairOf line = some (key, v) ∧ Cidr.parse pton v = some c := by
  simp only [cidrValues, List.mem_filterMap, cidrOf, Prod.exists]
  constructor
  · rintro ⟨key', v, ⟨line, hline, hpair⟩, hc⟩
    split at hc
    next heq =>
      obtain rfl : key' = key := heq
      exact ⟨line, hline, v, hpair, hc⟩
    next => cases hc
  · rintro ⟨line, hline, v, hpair, hc⟩
    exact ⟨key, v, ⟨line, hline, hpair⟩, by rw [if_pos rfl, hc]⟩

end Config

end Cfd
