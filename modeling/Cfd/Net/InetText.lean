import Cfd.Base.Decimal
import Cfd.Net.CidrText

/-!
# A pair of `inet_pton` and `inet_ntop`

The two functions are the C library's, and parameters wherever the sources use them. `Inet.pton` and
`Inet.ntop` are one pair that has what is assumed: dotted quads for IPv4, and for IPv6 eight groups of
one to four hexadecimal digits with a colon between them, where `::` stands for one or more groups of
zero and the last two groups may be a dotted quad.

The writer is glibc's: no leading zeros, the leftmost of the longest runs of two or more zero groups is
elided, and the last two groups are a quad where the run is the first six groups, or the first five and
`ffff` follows.
-/

set_option autoImplicit false

namespace Cfd.Net.Inet

open Cfd.Base

/-! ## Groups -/

/-- The sixteen bits between two colons. -/
abbrev Group := UInt8 × UInt8

/-- The value of a hexadecimal digit. -/
def charVal (c : UInt8) : Option Nat :=
  if 48 ≤ c ∧ c ≤ 57 then some (c - 48).toNat
  else if 97 ≤ c ∧ c ≤ 102 then some (c - 87).toNat
  else if 65 ≤ c ∧ c ≤ 70 then some (c - 55).toNat
  else none

/-- The number that hexadecimal digits continue `n` to. -/
def hexFrom : Nat → Text → Option Nat
  | n, [] => some n
  | n, c :: s => (charVal c).bind fun d => hexFrom (n * 16 + d) s

/-- One to four hexadecimal digits. -/
def readGroup (s : Text) : Option Group :=
  if s = [] ∨ 4 < s.length then none
  else (hexFrom 0 s).map fun n => (UInt8.ofNat (n / 256), UInt8.ofNat n)

/-- The digit `d`. -/
def hexChar (d : Nat) : UInt8 := if d < 10 then UInt8.ofNat (48 + d) else UInt8.ofNat (87 + d)

/-- The digits of a group, without leading zeros. -/
def groupDigits (g : Group) : List Nat :=
  [g.1.toNat / 16, g.1.toNat % 16, g.2.toNat / 16].dropWhile (· = 0) ++ [g.2.toNat % 16]

/-- `%x`. -/
def writeGroup (g : Group) : Text := (groupDigits g).map hexChar

theorem hexChar_spec : ∀ d < 16, charVal (hexChar d) = some d ∧ InetNtop.plain (hexChar d) = true ∧
    hexChar d ≠ 58 := by
  decide

theorem groupDigits_lt (g : Group) : ∀ d ∈ groupDigits g, d < 16 := by
  intro d hd
  have h₁ := g.1.toNat_lt
  have h₂ := g.2.toNat_lt
  rcases List.mem_append.mp hd with hd | hd
  · have hmem := (List.dropWhile_suffix _).subset hd
    simp only [List.mem_cons, List.not_mem_nil, or_false] at hmem
    omega
  · rw [List.mem_singleton.mp hd]
    omega

theorem hexFrom_map_hexChar {ds : List Nat} (h : ∀ d ∈ ds, d < 16) (n : Nat) :
    hexFrom n (ds.map hexChar) = some (ds.foldl (fun n d => n * 16 + d) n) := by
  induction ds generalizing n with
  | nil => rfl
  | cons d ds ih =>
    rw [List.forall_mem_cons] at h
    rw [List.map_cons, hexFrom, (hexChar_spec d h.1).1, Option.bind_some, ih h.2, List.foldl_cons]

/-- Leading zeros do not count. -/
theorem foldl_dropWhile_zero (ds : List Nat) :
    (ds.dropWhile (· = 0)).foldl (fun n d => n * 16 + d) 0 = ds.foldl (fun n d => n * 16 + d) 0 := by
  induction ds with
  | nil => rfl
  | cons d ds ih =>
    by_cases hd : d = 0
    · subst hd
      have hdrop : (0 :: ds).dropWhile (· = 0) = ds.dropWhile (· = 0) := rfl
      rw [hdrop, ih]
      rfl
    · rw [List.dropWhile_cons_of_neg (by simpa using hd)]

theorem groupDigits_value (g : Group) :
    (groupDigits g).foldl (fun n d => n * 16 + d) 0 = g.1.toNat * 256 + g.2.toNat := by
  rw [groupDigits, List.foldl_append, foldl_dropWhile_zero]
  simp only [List.foldl_cons, List.foldl_nil]
  omega

theorem length_writeGroup (g : Group) : 0 < (writeGroup g).length ∧ (writeGroup g).length ≤ 4 := by
  have hle := (List.dropWhile_suffix (l := [g.1.toNat / 16, g.1.toNat % 16, g.2.toNat / 16])
    (fun d => decide (d = 0))).length_le
  simp only [List.length_cons, List.length_nil] at hle
  simp only [writeGroup, groupDigits, List.length_map, List.length_append, List.length_singleton]
  omega

/-- **A group is read back.** -/
theorem readGroup_writeGroup (g : Group) : readGroup (writeGroup g) = some g := by
  obtain ⟨hpos, hle⟩ := length_writeGroup g
  have hne : writeGroup g ≠ [] := List.length_pos_iff.mp hpos
  have h₂ := g.2.toNat_lt
  have hhi : (g.1.toNat * 256 + g.2.toNat) / 256 = g.1.toNat := by omega
  have hlo : UInt8.ofNat (g.1.toNat * 256 + g.2.toNat) = g.2 := by
    rw [← UInt8.toNat_inj, UInt8.toNat_ofNat']
    omega
  rw [readGroup, if_neg (by simp only [hne, false_or]; omega), writeGroup,
    hexFrom_map_hexChar (groupDigits_lt g), groupDigits_value, Option.map_some, hhi, hlo,
    UInt8.ofNat_toNat]

theorem plain_writeGroup (g : Group) {c : UInt8} (hc : c ∈ writeGroup g) :
    InetNtop.plain c = true ∧ c ≠ 58 := by
  obtain ⟨d, hd, rfl⟩ := List.mem_map.mp hc
  exact (hexChar_spec d (groupDigits_lt g d hd)).2

theorem length_of_readGroup {s : Text} {g : Group} (h : readGroup s = some g) : s.length ≤ 4 := by
  unfold readGroup at h
  split at h
  next => cases h
  next hne => omega

/-- What is read as a group has digits only. -/
theorem charVal_of_hexFrom {s : Text} {n v : Nat} (h : hexFrom n s = some v) :
    ∀ c ∈ s, (charVal c).isSome = true := by
  induction s generalizing n with
  | nil => exact List.forall_mem_nil _
  | cons c s ih =>
    obtain ⟨d, hd, hrest⟩ := Option.bind_eq_some_iff.mp h
    rw [List.forall_mem_cons]
    exact ⟨Option.isSome_of_eq_some hd, ih hrest⟩

theorem readGroup_of_dot {s : Text} (h : 46 ∈ s) : readGroup s = none := by
  cases hread : readGroup s with
  | none => rfl
  | some g =>
    unfold readGroup at hread
    split at hread
    next => cases hread
    next =>
      obtain ⟨n, hn, -⟩ := Option.map_eq_some_iff.mp hread
      have hnone : charVal 46 = none := rfl
      have hdot := charVal_of_hexFrom hn 46 h
      rw [hnone] at hdot
      cases hdot

/-! ## Dotted quads -/

/-- Byte `i`, which is there wherever it is used. -/
def nth (b : Vector UInt8 4) (i : Nat) : UInt8 := (b[i]?).getD 0

/-- `"%u.%u.%u.%u"`. -/
def writeV4 (b : Vector UInt8 4) : Text :=
  Text.print (nth b 0).toNat ++ (46 : UInt8) :: (Text.print (nth b 1).toNat ++
    (46 : UInt8) :: (Text.print (nth b 2).toNat ++ (46 : UInt8) :: Text.print (nth b 3).toNat))

theorem dot_notMem_print (n : Nat) : 46 ∉ Text.print n := by
  intro hmem
  have hdigit := Text.print_isDigit hmem
  revert hdigit
  decide

/-- A number is printed without a leading zero. -/
theorem head_print {n : Nat} (h : (Text.print n).head? = some 48) : (Text.print n).length = 1 := by
  unfold Text.print at h ⊢
  split
  next => rfl
  next hn =>
    rw [if_neg hn, List.head?_map, List.head?_reverse, Option.map_eq_some_iff] at h
    obtain ⟨d, hd, hzero⟩ := h
    have hne : Nat.digits 10 n ≠ [] := Nat.digits_ne_nil_iff_ne_zero.mpr hn
    have hlast := Nat.getLast_digit_ne_zero 10 hn
    rw [List.getLast?_eq_some_getLast hne, Option.some_inj] at hd
    rw [hd] at hlast
    have hlt : d < 10 := Nat.digits_lt_base (by decide) (hd ▸ List.getLast_mem hne)
    have hdigit : ∀ d < 10, Text.digit d = 48 → d = 0 := by decide
    exact absurd (hdigit d hlt hzero) hlast

theorem octet_print (n : UInt8) : octet (Text.print n.toNat) = some n := by
  have hlt := n.toNat_lt
  have hlen : (Text.print n.toNat).length ≤ 3 :=
    Text.length_print (by decide) (Nat.lt_trans hlt (by decide))
  have hall : (Text.print n.toNat).all Text.isDigit = true :=
    List.all_eq_true.mpr fun _ hc => Text.print_isDigit hc
  rw [octet, if_pos, Text.decimal_print, UInt8.ofNat_toNat]
  refine ⟨hlen, hall, Text.print_ne_nil _, head_print, ?_⟩
  rw [Text.decimal_print]
  omega

/-- **A quad is read back.** -/
theorem dottedQuad_writeV4 (b : Vector UInt8 4) : dottedQuad (writeV4 b) = some b := by
  have hcut : ∀ (n : Nat) (s : Text), Text.cut 46 (Text.print n ++ 46 :: s) = some (Text.print n, s) :=
    fun n s => Text.cut_eq_some.mpr ⟨rfl, dot_notMem_print n⟩
  simp only [dottedQuad, writeV4, hcut, octet_print, Option.bind_eq_bind, Option.bind_some,
    Option.pure_def, Option.some_inj]
  apply Vector.ext
  intro i hi
  obtain rfl | rfl | rfl | rfl : i = 0 ∨ i = 1 ∨ i = 2 ∨ i = 3 := by omega
  all_goals rfl

theorem dot_mem_writeV4 (b : Vector UInt8 4) : 46 ∈ writeV4 b :=
  List.mem_append_right _ List.mem_cons_self

theorem mem_writeV4 {b : Vector UInt8 4} {c : UInt8} (hc : c ∈ writeV4 b) :
    Text.isDigit c = true ∨ c = 46 := by
  simp only [writeV4, List.mem_append, List.mem_cons] at hc
  rcases hc with h | rfl | h | rfl | h | rfl | h
  · exact Or.inl (Text.print_isDigit h)
  · exact Or.inr rfl
  · exact Or.inl (Text.print_isDigit h)
  · exact Or.inr rfl
  · exact Or.inl (Text.print_isDigit h)
  · exact Or.inr rfl
  · exact Or.inl (Text.print_isDigit h)

theorem plain_writeV4 {b : Vector UInt8 4} {c : UInt8} (hc : c ∈ writeV4 b) :
    InetNtop.plain c = true ∧ c ≠ 58 := by
  rcases mem_writeV4 hc with hdigit | rfl
  · refine ⟨by rw [InetNtop.plain, hdigit]; rfl, ?_⟩
    rintro rfl
    cases hdigit
  · decide

/-- What is read as a quad has no colon. -/
theorem colon_notMem_of_dottedQuad {s : Text} {b : Vector UInt8 4} (h : dottedQuad s = some b) :
    58 ∉ s := by
  simp only [dottedQuad, Option.bind_eq_bind, Option.bind_eq_some_iff, Prod.exists] at h
  obtain ⟨a, r, h1, b, r', h2, c, d, h3, w, ha, x, hb, y, hc, z, hd, -⟩ := h
  obtain ⟨rfl, -⟩ := Text.cut_eq_some.mp h1
  obtain ⟨rfl, -⟩ := Text.cut_eq_some.mp h2
  obtain ⟨rfl, -⟩ := Text.cut_eq_some.mp h3
  have hoctet : ∀ {t : Text} {v : UInt8}, octet t = some v → 58 ∉ t := by
    intro t v ht hmem
    unfold octet at ht
    split at ht
    next hs =>
      have hdigit := List.all_eq_true.mp hs.2.1 58 hmem
      revert hdigit
      decide
    next => cases ht
  simp [hoctet ha, hoctet hb, hoctet hc, hoctet hd]

/-! ## The parts between colons -/

/-- The parts of a text between its colons; an empty text has none. -/
def parts (s : Text) : List Text := if s = [] then [] else s.splitOn 58

/-- The text with these parts. -/
def joined (ts : List Text) : Text := [58].intercalate ts

/-- A part of its own: not empty, without a colon. -/
def Part (t : Text) : Prop := t ≠ [] ∧ 58 ∉ t

/-- The text before and behind the first `::`. -/
def cutDouble : Text → Option (Text × Text)
  | [] => none
  | c :: s =>
    if c = 58 ∧ s.head? = some 58 then some ([], s.drop 1)
    else (cutDouble s).map fun p => (c :: p.1, p.2)

@[simp] theorem joined_nil : joined [] = [] := rfl

@[simp] theorem joined_singleton (t : Text) : joined [t] = t := by
  simp [joined]

theorem joined_cons_cons (t t' : Text) (ts : List Text) :
    joined (t :: t' :: ts) = t ++ 58 :: joined (t' :: ts) := by
  simp [joined]

theorem joined_parts (s : Text) : joined (parts s) = s := by
  unfold parts joined
  split
  next h => rw [h, List.intercalate_nil]
  next => exact List.intercalate_splitOn 58

theorem head_joined {t : Text} (ht : Part t) (ts : List Text) (u : Text) :
    (joined (t :: ts) ++ u).head? ≠ some 58 := by
  obtain ⟨c, s, rfl⟩ := List.exists_cons_of_ne_nil ht.1
  have hc : c ≠ 58 := fun h => ht.2 (h ▸ List.mem_cons_self)
  cases ts with
  | nil => simpa using hc
  | cons t' ts =>
    rw [joined_cons_cons]
    simpa using hc

/-- **A joined text has these parts.** -/
theorem parts_joined {ts : List Text} (h : ∀ t ∈ ts, Part t) : parts (joined ts) = ts := by
  cases ts with
  | nil => rfl
  | cons t ts =>
    have hne : joined (t :: ts) ≠ [] := by
      intro hnil
      have ht := (h t List.mem_cons_self).1
      cases ts with
      | nil => exact ht (by simpa using hnil)
      | cons t' ts =>
        rw [joined_cons_cons, List.append_eq_nil_iff] at hnil
        exact ht hnil.1
    rw [parts, if_neg hne]
    exact List.splitOn_intercalate 58 (fun t ht => (h t ht).2) (List.cons_ne_nil _ _)

theorem cutDouble_append {t : Text} (h : 58 ∉ t) (s : Text) :
    cutDouble (t ++ s) = (cutDouble s).map fun p => (t ++ p.1, p.2) := by
  induction t with
  | nil => simp
  | cons c t ih =>
    rw [List.mem_cons, not_or] at h
    rw [List.cons_append, cutDouble, if_neg fun hc => h.1 hc.1.symm, ih h.2, Option.map_map]
    rfl

/-- **Joined parts hide no `::`**: the first is the one of what follows them. -/
theorem cutDouble_joined {ts : List Text} (h : ∀ t ∈ ts, Part t) (u : Text) :
    cutDouble (joined ts ++ u) = (cutDouble u).map fun p => (joined ts ++ p.1, p.2) := by
  induction ts with
  | nil => simp
  | cons t ts ih =>
    rw [List.forall_mem_cons] at h
    cases ts with
    | nil => rw [joined_singleton, cutDouble_append h.1.2]
    | cons t' ts =>
      have hhead := head_joined (List.forall_mem_cons.mp h.2).1 ts u
      rw [joined_cons_cons, List.append_assoc, cutDouble_append h.1.2, List.cons_append, cutDouble,
        if_neg fun hc => hhead hc.2, ih h.2, Option.map_map, Option.map_map]
      congr 1
      funext p
      simp

theorem cutDouble_eq_some {s l r : Text} (h : cutDouble s = some (l, r)) : s = l ++ 58 :: 58 :: r := by
  induction s generalizing l with
  | nil => cases h
  | cons c s ih =>
    unfold cutDouble at h
    split at h
    next hc =>
      cases h
      obtain ⟨hc, hhead⟩ := hc
      obtain ⟨s', rfl⟩ := List.head?_eq_some_iff.mp hhead
      rw [hc]
      rfl
    next =>
      obtain ⟨⟨l', r'⟩, hrest, heq⟩ := Option.map_eq_some_iff.mp h
      cases heq
      rw [ih hrest]
      rfl

/-! ## Lists of groups -/

/-- Groups from their parts; where `quad` allows it, the last two may be a quad. -/
def readGroups (quad : Bool) : List Text → Option (List Group)
  | [] => some []
  | [t] =>
    match readGroup t with
    | some g => some [g]
    | none => if quad then (dottedQuad t).map fun b => [(nth b 0, nth b 1), (nth b 2, nth b 3)] else none
  | t :: ts => (readGroup t).bind fun g => (readGroups quad ts).map fun gs => g :: gs

/-- The parts of groups of which the last two are a quad. -/
def quadParts : List Group → List Text
  | [] => []
  | [g] => [writeGroup g]
  | [g, g'] => [writeV4 #v[g.1, g.2, g'.1, g'.2]]
  | g :: gs => writeGroup g :: quadParts gs

theorem readGroups_writeGroup (quad : Bool) (gs : List Group) :
    readGroups quad (gs.map writeGroup) = some gs := by
  induction gs with
  | nil => rfl
  | cons g gs ih =>
    cases gs with
    | nil => simp only [List.map_cons, List.map_nil, readGroups, readGroup_writeGroup]
    | cons g' gs =>
      rw [List.map_cons, List.map_cons, readGroups, readGroup_writeGroup, Option.bind_some,
        ← List.map_cons, ih]
      · rfl
      · simp

theorem readGroups_quadParts (gs : List Group) : readGroups true (quadParts gs) = some gs := by
  fun_induction quadParts gs with
  | case1 => rfl
  | case2 g => simp only [readGroups, readGroup_writeGroup]
  | case3 g g' =>
    simp only [readGroups, readGroup_of_dot (dot_mem_writeV4 _), dottedQuad_writeV4, if_true]
    rfl
  | case4 g gs hnil hone ih =>
    have hne : quadParts gs ≠ [] := by
      intro h
      rw [h] at ih
      cases ih
      exact hnil rfl
    obtain ⟨t, ts, hts⟩ := List.exists_cons_of_ne_nil hne
    rw [hts] at ih ⊢
    rw [readGroups, readGroup_writeGroup, Option.bind_some, ih]
    · rfl
    · simp

theorem part_writeGroup (g : Group) : Part (writeGroup g) :=
  ⟨List.length_pos_iff.mp (length_writeGroup g).1, fun h => (plain_writeGroup g h).2 rfl⟩

theorem part_writeV4 (b : Vector UInt8 4) : Part (writeV4 b) :=
  ⟨List.ne_nil_of_mem (dot_mem_writeV4 b), fun h => (plain_writeV4 h).2 rfl⟩

theorem mem_quadParts {gs : List Group} {t : Text} (h : t ∈ quadParts gs) :
    (∃ g, t = writeGroup g) ∨ ∃ b, t = writeV4 b := by
  fun_induction quadParts gs with
  | case1 => cases h
  | case2 g => exact Or.inl ⟨g, List.mem_singleton.mp h⟩
  | case3 g g' => exact Or.inr ⟨_, List.mem_singleton.mp h⟩
  | case4 g gs hnil hone ih =>
    rcases List.mem_cons.mp h with rfl | hrest
    · exact Or.inl ⟨g, rfl⟩
    · exact ih hrest

/-- How long a text of groups is. -/
theorem length_joined_of_readGroups {quad : Bool} {ts : List Text} {gs : List Group}
    (h : readGroups quad ts = some gs) :
    (joined ts).length ≤ 5 * gs.length + if quad then 5 else 0 := by
  fun_induction readGroups quad ts generalizing gs with
  | case1 => simp
  | case2 t g hg =>
    cases h
    have hle := length_of_readGroup hg
    rw [joined_singleton, List.length_singleton]
    omega
  | case3 t hnone hquad =>
    obtain ⟨b, hb, rfl⟩ := Option.map_eq_some_iff.mp h
    have hle := dottedQuad_length hb
    rw [joined_singleton, if_pos hquad]
    simp only [List.length_cons, List.length_nil]
    omega
  | case4 => cases h
  | case5 t ts hone ih =>
    obtain ⟨g, hg, hrest⟩ := Option.bind_eq_some_iff.mp h
    obtain ⟨gs', hgs', rfl⟩ := Option.map_eq_some_iff.mp hrest
    have hle := length_of_readGroup hg
    have hih := ih hgs'
    cases ts with
    | nil => exact absurd rfl hone
    | cons t' ts =>
      rw [joined_cons_cons, List.length_append, List.length_cons, List.length_cons]
      omega

/-! ## IPv6 addresses -/

/-- The address of eight groups. -/
def groupBytes (gs : List Group) : Option (Vector UInt8 16) :=
  if h : (gs.flatMap fun g => [g.1, g.2]).length = 16 then
    some ⟨(gs.flatMap fun g => [g.1, g.2]).toArray, by rw [List.size_toArray, h]⟩
  else none

/-- The groups of an address. -/
def groups (b : Vector UInt8 16) : List Group :=
  [(b[0], b[1]), (b[2], b[3]), (b[4], b[5]), (b[6], b[7]), (b[8], b[9]), (b[10], b[11]),
    (b[12], b[13]), (b[14], b[15])]

/-- `inet_pton` of `AF_INET6`. -/
def readV6 (s : Text) : Option (Vector UInt8 16) :=
  match cutDouble s with
  | none => (readGroups true (parts s)).bind groupBytes
  | some (l, r) =>
    (readGroups false (parts l)).bind fun ls => (readGroups true (parts r)).bind fun rs =>
      if ls.length + rs.length < 8 then
        groupBytes (ls ++ List.replicate (8 - (ls.length + rs.length)) (0, 0) ++ rs)
      else none

/-- How many groups of zero a list starts with. -/
def zeros (gs : List Group) : Nat := (gs.takeWhile (· = (0, 0))).length

/-- Where the leftmost of the longest runs of zeros starts. -/
def runBase (gs : List Group) : Nat :=
  (List.range gs.length).foldl
    (fun best i => if zeros (gs.drop best) < zeros (gs.drop i) then i else best) 0

/-- What is before and behind the run that is elided; `none` where there is none. -/
def elide (gs : List Group) : Option (List Group × List Group) :=
  if zeros (gs.drop (runBase gs)) < 2 then none
  else some (gs.take (runBase gs), (gs.drop (runBase gs)).dropWhile (· = (0, 0)))

/-- The parts behind the run. -/
def tailParts (l r : List Group) : List Text :=
  if l = [] ∧ (r.length = 2 ∨ r.length = 3 ∧ r.head? = some (255, 255)) then quadParts r
  else r.map writeGroup

/-- `inet_ntop` of `AF_INET6`. -/
def writeV6 (b : Vector UInt8 16) : Text :=
  match elide (groups b) with
  | none => joined ((groups b).map writeGroup)
  | some (l, r) => joined (l.map writeGroup) ++ 58 :: 58 :: joined (tailParts l r)

theorem groupBytes_groups (b : Vector UInt8 16) : groupBytes (groups b) = some b := by
  rw [groupBytes, dif_pos (by rfl), Option.some_inj]
  apply Vector.ext
  intro i hi
  match i, hi with
  | 0, _ | 1, _ | 2, _ | 3, _ | 4, _ | 5, _ | 6, _ | 7, _ | 8, _ | 9, _ | 10, _ | 11, _ | 12, _
  | 13, _ | 14, _ | 15, _ => rfl
  | n + 16, hn => exact absurd hn (by omega)

theorem length_flatMap_pair (gs : List Group) :
    (gs.flatMap fun g => [g.1, g.2]).length = 2 * gs.length := by
  induction gs with
  | nil => rfl
  | cons g gs ih =>
    rw [List.flatMap_cons, List.length_append, ih, List.length_cons]
    simp only [List.length_cons, List.length_nil]
    omega

theorem length_of_groupBytes {gs : List Group} {b : Vector UInt8 16} (h : groupBytes gs = some b) :
    gs.length = 8 := by
  unfold groupBytes at h
  split at h
  next hlen =>
    have hflat := length_flatMap_pair gs
    omega
  next => cases h

/-- What is elided is a run of zeros. -/
theorem elide_eq_some {gs l r : List Group} (h : elide gs = some (l, r)) :
    ∃ n, 2 ≤ n ∧ gs = l ++ List.replicate n (0, 0) ++ r := by
  unfold elide at h
  split at h
  next => cases h
  next hlong =>
    cases h
    refine ⟨zeros (gs.drop (runBase gs)), Nat.le_of_not_lt hlong, ?_⟩
    have hrun : List.replicate (zeros (gs.drop (runBase gs))) ((0, 0) : Group) =
        (gs.drop (runBase gs)).takeWhile (· = (0, 0)) := by
      symm
      rw [List.eq_replicate_iff]
      refine ⟨rfl, fun g hg => ?_⟩
      have hzero := List.mem_takeWhile_imp hg
      exact of_decide_eq_true hzero
    rw [hrun, List.append_assoc, List.takeWhile_append_dropWhile, List.take_append_drop]

theorem part_of_mem_tailParts {l r : List Group} : ∀ t ∈ tailParts l r, Part t := by
  intro t ht
  unfold tailParts at ht
  split at ht
  next =>
    rcases mem_quadParts ht with ⟨g, rfl⟩ | ⟨b, rfl⟩
    · exact part_writeGroup g
    · exact part_writeV4 b
  next =>
    obtain ⟨g, -, rfl⟩ := List.mem_map.mp ht
    exact part_writeGroup g

theorem part_of_mem_map {gs : List Group} : ∀ t ∈ gs.map writeGroup, Part t := by
  intro t ht
  obtain ⟨g, -, rfl⟩ := List.mem_map.mp ht
  exact part_writeGroup g

theorem readGroups_tailParts (l r : List Group) : readGroups true (tailParts l r) = some r := by
  unfold tailParts
  split
  next => exact readGroups_quadParts r
  next => exact readGroups_writeGroup true r

/-- **An address is read back.** -/
theorem readV6_writeV6 (b : Vector UInt8 16) : readV6 (writeV6 b) = some b := by
  unfold writeV6
  cases helide : elide (groups b) with
  | none =>
    have hnone : cutDouble (joined ((groups b).map writeGroup)) = none := by
      have hcut := cutDouble_joined (@part_of_mem_map (groups b)) []
      rwa [List.append_nil] at hcut
    simp only [readV6, hnone, parts_joined part_of_mem_map, readGroups_writeGroup, Option.bind_some]
    exact groupBytes_groups b
  | some p =>
    obtain ⟨l, r⟩ := p
    obtain ⟨n, hn, hgroups⟩ := elide_eq_some helide
    have hcut : cutDouble (joined (l.map writeGroup) ++ 58 :: 58 :: joined (tailParts l r)) =
        some (joined (l.map writeGroup), joined (tailParts l r)) := by
      rw [cutDouble_joined part_of_mem_map, cutDouble, if_pos ⟨rfl, rfl⟩]
      simp
    have hlen : l.length + r.length + n = 8 := by
      have hlen := congrArg List.length hgroups
      simp only [List.length_append, List.length_replicate] at hlen
      have height : (groups b).length = 8 := rfl
      omega
    have hzeros : 8 - (l.length + r.length) = n := by omega
    simp only [readV6, hcut, parts_joined part_of_mem_map, parts_joined part_of_mem_tailParts,
      readGroups_writeGroup, readGroups_tailParts, Option.bind_some]
    rw [if_pos (by omega), hzeros, ← hgroups]
    exact groupBytes_groups b

/-- What is read fits `INET6_ADDRSTRLEN`. -/
theorem length_of_readV6 {s : Text} {b : Vector UInt8 16} (h : readV6 s = some b) : s.length < 46 := by
  unfold readV6 at h
  cases hcut : cutDouble s with
  | none =>
    simp only [hcut] at h
    obtain ⟨gs, hgs, hb⟩ := Option.bind_eq_some_iff.mp h
    have hle := length_joined_of_readGroups hgs
    rw [joined_parts, length_of_groupBytes hb] at hle
    simp only [if_true] at hle
    omega
  | some p =>
    obtain ⟨l, r⟩ := p
    simp only [hcut] at h
    obtain ⟨ls, hls, hrest⟩ := Option.bind_eq_some_iff.mp h
    obtain ⟨rs, hrs, hb⟩ := Option.bind_eq_some_iff.mp hrest
    split at hb
    next hfew =>
      have hl := length_joined_of_readGroups hls
      have hr := length_joined_of_readGroups hrs
      rw [joined_parts] at hl hr
      simp only [if_true, Bool.false_eq_true, if_false] at hl hr
      rw [cutDouble_eq_some hcut]
      simp only [List.length_append, List.length_cons]
      omega
    next => cases hb

/-- A quad is no IPv6 address. -/
theorem readV6_of_dottedQuad {s : Text} {b : Vector UInt8 4} (h : dottedQuad s = some b) :
    readV6 s = none := by
  have hcolon := colon_notMem_of_dottedQuad h
  have hne : s ≠ [] := by
    rintro rfl
    cases h
  have hpart : ∀ t ∈ [s], Part t := List.forall_mem_singleton.mpr ⟨hne, hcolon⟩
  have hcut : cutDouble s = none := by
    have hcut := cutDouble_joined hpart []
    rwa [List.append_nil, joined_singleton] at hcut
  have hparts : parts s = [s] := by
    have hparts := parts_joined hpart
    rwa [joined_singleton] at hparts
  simp only [readV6, hcut, hparts]
  cases hread : (readGroups true [s]).bind groupBytes with
  | none => rfl
  | some a =>
    obtain ⟨gs, hgs, ha⟩ := Option.bind_eq_some_iff.mp hread
    have hlen := length_of_groupBytes ha
    simp only [readGroups] at hgs
    split at hgs
    next =>
      cases hgs
      cases hlen
    next =>
      simp only [if_true, h] at hgs
      cases hgs
      cases hlen

theorem plain_of_mem_joined {ts : List Text} (h : ∀ t ∈ ts, ∀ c ∈ t, InetNtop.plain c = true) :
    ∀ c ∈ joined ts, InetNtop.plain c = true := by
  induction ts with
  | nil => exact List.forall_mem_nil _
  | cons t ts ih =>
    rw [List.forall_mem_cons] at h
    cases ts with
    | nil =>
      rw [joined_singleton]
      exact h.1
    | cons t' ts =>
      rw [joined_cons_cons]
      intro c hc
      rcases List.mem_append.mp hc with hc | hc
      · exact h.1 c hc
      · rcases List.mem_cons.mp hc with rfl | hc
        · rfl
        · exact ih h.2 c hc

theorem plain_of_mem_map {gs : List Group} :
    ∀ t ∈ gs.map writeGroup, ∀ c ∈ t, InetNtop.plain c = true := by
  intro t ht c hc
  obtain ⟨g, -, rfl⟩ := List.mem_map.mp ht
  exact (plain_writeGroup g hc).1

theorem plain_writeV6 (b : Vector UInt8 16) : ∀ c ∈ writeV6 b, InetNtop.plain c = true := by
  unfold writeV6
  split
  next => exact plain_of_mem_joined plain_of_mem_map
  next l r helide =>
    intro c hc
    rcases List.mem_append.mp hc with hc | hc
    · exact plain_of_mem_joined plain_of_mem_map c hc
    · rcases List.mem_cons.mp hc with rfl | hc
      · rfl
      rcases List.mem_cons.mp hc with rfl | hc
      · rfl
      refine plain_of_mem_joined (fun t ht c hc => ?_) c hc
      unfold tailParts at ht
      split at ht
      next =>
        rcases mem_quadParts ht with ⟨g, rfl⟩ | ⟨b, rfl⟩
        · exact (plain_writeGroup g hc).1
        · exact (plain_writeV4 hc).1
      next => exact plain_of_mem_map t ht c hc

/-! ## The pair -/

/-- `inet_pton`. -/
def pton : InetPton where
  v4 := dottedQuad
  v6 := readV6
  length_v4 := dottedQuad_length
  length_v6 := length_of_readV6
  disjoint := readV6_of_dottedQuad

/-- `inet_ntop`. -/
def ntop : InetNtop pton where
  v4 := writeV4
  v6 := writeV6
  read_v4 := dottedQuad_writeV4
  read_v6 := readV6_writeV6
  plain_v4 := fun _ _ hc => (plain_writeV4 hc).1
  plain_v6 := plain_writeV6

example : (readV6 (ascii "64:FF9B:0:0:0::192.0.2.33")).map writeV6 = some (ascii "64:ff9b::c000:221") := by
  decide

example : (readV6 (ascii "0::ffff:c000:0221")).map writeV6 = some (ascii "::ffff:192.0.2.33") := by
  decide

end Cfd.Net.Inet
