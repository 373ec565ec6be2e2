import Cfd.Base.Text

/-!
# `parse_uuid`

The parser of the tunnel's id, `parse_uuid` of `src/tunnel/registration.cpp`. It checks the four dashes
and then scans: a dash, wherever it is met, is skipped, and two characters are a byte otherwise. An
access outside the text with its terminating NUL, or outside `out`, is `none` here.

What bounds the indices, and what makes the scan exact, is one equation kept along it: the index is
twice the number of bytes written plus the number of dashes before it (`Scanned.place`). The four
dashes that were checked keep `bi` below 16; a fifth one leaves it below 16 at the end.
-/

set_option autoImplicit false

namespace Cfd.Tunnel

open Cfd.Base

/-! ## The source -/

/-- `s[i]`: the text is followed by a NUL that may be read, and nothing behind that may be. -/
def charAt (s : Text) (i : Nat) : Option UInt8 := if i = s.length then some 0 else s[i]?

/-- `out[bi] = b`. -/
def storeByte (out : Vector UInt8 16) (bi : Nat) (b : UInt8) : Option (Vector UInt8 16) :=
  if h : bi < 16 then some (out.set bi b) else none

/-- `hex`: the value of a digit; `none` where it returns false. -/
def hexVal (c : UInt8) : Option UInt8 :=
  if 48 ≤ c ∧ c ≤ 57 then some (c - 48)
  else if 97 ≤ c ∧ c ≤ 102 then some (c - 97 + 10)
  else if 65 ≤ c ∧ c ≤ 70 then some (c - 65 + 10)
  else none

/-- `dashes`. -/
def dashes : List Nat := [8, 13, 18, 23]

/-- The loop over `dashes`; `some false` is `return false`. -/
def checkDashes (s : Text) : List Nat → Option Bool
  | [] => some true
  | d :: ds =>
    match charAt s d with
    | none => none
    | some c => if c ≠ 45 then some false else checkDashes s ds

/-- The scanning loop, and the test behind it. -/
def scanUuid (s : Text) (i bi : Nat) (out : Vector UInt8 16) : Option (Bool × Vector UInt8 16) :=
  if i < 36 then
    match charAt s i with
    | none => none
    | some c =>
      if c = 45 then scanUuid s (i + 1) bi out
      else
        match hexVal c with
        | none => some (false, out)
        | some hi =>
          match charAt s (i + 1) with
          | none => none
          | some c' =>
            match hexVal c' with
            | none => some (false, out)
            | some lo =>
              match storeByte out bi (hi <<< 4 ||| lo) with
              | none => none
              | some out => scanUuid s (i + 2) (bi + 1) out
  else some (bi == 16, out)
termination_by 36 - i

/-- `parse_uuid`. -/
def parseUuid (s : Text) (out : Vector UInt8 16) : Option (Bool × Vector UInt8 16) :=
  if s.length ≠ 36 then some (false, out)
  else
    match checkDashes s dashes with
    | none => none
    | some false => some (false, out)
    | some true => scanUuid s 0 0 out

/-! ## The canonical form -/

/-- A hexadecimal digit: `0` to `9`, `a` to `f` or `A` to `F`. -/
def IsHex (c : UInt8) : Prop := (48 ≤ c ∧ c ≤ 57) ∨ (97 ≤ c ∧ c ≤ 102) ∨ (65 ≤ c ∧ c ≤ 70)

/-- Thirty-six characters: dashes at the places 8, 13, 18 and 23, hexadecimal digits at all others. -/
def Canonical (s : Text) : Prop :=
  s.length = 36 ∧ ∀ i < 36, ∃ c, s[i]? = some c ∧
    if i = 8 ∨ i = 13 ∨ i = 18 ∨ i = 23 then c = 45 else IsHex c

/-- A hexadecimal digit, in lowercase. -/
def hexDigit (n : UInt8) : UInt8 := if n < 10 then n + 48 else n + 87

/-- Bytes as hexadecimal digits. -/
def hexText (bs : List UInt8) : Text :=
  bs.flatMap fun b : UInt8 => [hexDigit (b >>> 4), hexDigit (b &&& 15)]

/-- The 8-4-4-4-12 rendering. -/
def renderUuid (b : Vector UInt8 16) : Text :=
  hexText (b.toList.take 4) ++ 45 :: hexText ((b.toList.drop 4).take 2) ++
    45 :: hexText ((b.toList.drop 6).take 2) ++ 45 :: hexText ((b.toList.drop 8).take 2) ++
    45 :: hexText (b.toList.drop 10)

/-- `tolower` of an ASCII character. -/
def lowerChar (c : UInt8) : UInt8 := if 65 ≤ c ∧ c ≤ 90 then c + 32 else c

/-- A text in lowercase. -/
def lower (s : Text) : Text := s.map lowerChar

/-! ## Digits -/

/-- What `hex` accepts. -/
theorem hexVal_isSome (c : UInt8) : (hexVal c).isSome = true ↔ IsHex c := by
  unfold hexVal IsHex
  split
  next h => simp [h]
  next h =>
    split
    next h' => simp [h']
    next h' =>
      split
      next h'' => simp [h'']
      next h'' => simp [h, h', h'']

/-- The canonical form in the words of the source. -/
theorem canonical_iff {s : Text} : Canonical s ↔ s.length = 36 ∧ ∀ i < 36, ∃ c, s[i]? = some c ∧
    if i ∈ dashes then c = 45 else (hexVal c).isSome = true := by
  simp only [Canonical, dashes, List.mem_cons, List.not_mem_nil, or_false, hexVal_isSome]

/-- The value of a digit is its place among the lowercase digits. -/
theorem hexVal_eq_some {c v : UInt8} (h : hexVal c = some v) :
    v.toNat < 16 ∧ hexDigit v = lowerChar c ∧ c ≠ 45 := by
  have hall : ∀ n < 256, (hexVal (UInt8.ofNat n)).all fun v =>
      v.toNat < 16 ∧ hexDigit v = lowerChar (UInt8.ofNat n) ∧ UInt8.ofNat n ≠ 45 := by
    decide +kernel
  have hc := hall c.toNat c.toNat_lt
  rw [UInt8.ofNat_toNat, h, Option.all_some] at hc
  exact of_decide_eq_true hc

/-- The nibbles of a byte are the digits it was put together from. -/
theorem hexText_pair {c c' hi lo : UInt8} (hc : hexVal c = some hi) (hc' : hexVal c' = some lo) :
    hexText [hi <<< 4 ||| lo] = lower [c, c'] := by
  have hall : ∀ m < 16, ∀ n < 16,
      (UInt8.ofNat m <<< 4 ||| UInt8.ofNat n) >>> 4 = UInt8.ofNat m ∧
        (UInt8.ofNat m <<< 4 ||| UInt8.ofNat n) &&& 15 = UInt8.ofNat n := by
    decide +kernel
  obtain ⟨hhi, hdigit, -⟩ := hexVal_eq_some hc
  obtain ⟨hlo, hdigit', -⟩ := hexVal_eq_some hc'
  have hnibbles := hall hi.toNat hhi lo.toNat hlo
  rw [UInt8.ofNat_toNat, UInt8.ofNat_toNat] at hnibbles
  simp only [hexText, List.flatMap_cons, List.flatMap_nil, List.append_nil, lower, List.map_cons,
    List.map_nil]
  rw [hnibbles.1, hnibbles.2, hdigit, hdigit']

/-! ## Counting dashes -/

/-- How many of the four places are before `i`. -/
def passed (i : Nat) : Nat := dashes.countP fun d => d < i

/-- A dash at another place. -/
def Extra (s : Text) (i : Nat) : Prop := s[i]? = some 45 ∧ i ∉ dashes

instance (s : Text) (i : Nat) : Decidable (Extra s i) := inferInstanceAs (Decidable (_ ∧ _))

/-- Dashes at the four places. -/
def Dashed (s : Text) : Prop := ∀ d ∈ dashes, s[d]? = some 45

/-- The dashes of a text are the four and the extra ones. -/
theorem count_take {s : Text} (hdashed : Dashed s) {i : Nat} (hi : i ≤ s.length) :
    (s.take i).count 45 = passed i + (List.range i).countP fun j => Extra s j := by
  induction i with
  | zero => rfl
  | succ i ih =>
    have hpassed : passed (i + 1) = passed i + if i ∈ dashes then 1 else 0 := by
      simp only [passed, dashes, List.countP_cons, List.countP_nil, List.mem_cons, List.not_mem_nil]
      grind
    have hget : s[i]? = some s[i] := List.getElem?_eq_getElem hi
    rw [List.take_add_one, hget, Option.toList_some, List.count_append, List.range_succ,
      List.countP_append, ih (Nat.le_of_succ_le hi), hpassed]
    simp only [List.count_singleton, List.countP_singleton, Extra, hget, Option.some.injEq]
    by_cases hmem : i ∈ dashes
    · have h45 := hdashed i hmem
      rw [hget, Option.some.injEq] at h45
      simp [hmem, h45]
      omega
    · simp [hmem]
      omega

/-! ## The scan -/

/-- What the scan has done when it is at `i` with `bi` bytes written. -/
structure Scanned (s : Text) (i bi : Nat) (out : Vector UInt8 16) : Prop where
  le : i ≤ 36
  place : i = 2 * bi + (s.take i).count 45
  chars : ∀ c ∈ s.take i, c = 45 ∨ (hexVal c).isSome = true
  bytes : hexText (out.toList.take bi) = lower ((s.take i).filter (· ≠ 45))

section Scan

variable {s : Text} {i bi : Nat} {out : Vector UInt8 16}

theorem Scanned.start (s : Text) (out : Vector UInt8 16) : Scanned s 0 0 out :=
  ⟨by simp, by simp, by simp, by simp [hexText, lower]⟩

/-- A dash is skipped. -/
theorem Scanned.skip (h : Scanned s i bi out) (hi : i < 36) (hc : s[i]? = some 45) :
    Scanned s (i + 1) bi out := by
  have htake : s.take (i + 1) = s.take i ++ [45] := by
    rw [List.take_add_one, hc, Option.toList_some]
  have hplace := h.place
  refine ⟨hi, ?_, ?_, ?_⟩
  · rw [htake, List.count_append, List.count_singleton_self]
    omega
  · rw [htake]
    intro c hmem
    rcases List.mem_append.mp hmem with hmem | hmem
    · exact h.chars c hmem
    · exact Or.inl (List.mem_singleton.mp hmem)
  · rw [htake, List.filter_append, h.bytes]
    simp

/-- Two digits are a byte. -/
theorem Scanned.pair (h : Scanned s i bi out) {c c' hi lo : UInt8} (hlt : i + 1 < 36)
    (hc : s[i]? = some c) (hhi : hexVal c = some hi) (hc' : s[i + 1]? = some c')
    (hlo : hexVal c' = some lo) (hbi : bi < 16) :
    Scanned s (i + 2) (bi + 1) (out.set bi (hi <<< 4 ||| lo)) := by
  have hne := (hexVal_eq_some hhi).2.2
  have hne' := (hexVal_eq_some hlo).2.2
  have htake : s.take (i + 2) = s.take i ++ [c, c'] := by
    rw [List.take_add_one, hc', List.take_add_one, hc, Option.toList_some, Option.toList_some,
      List.append_assoc, List.singleton_append]
  have hplace := h.place
  refine ⟨hlt, ?_, ?_, ?_⟩
  · rw [htake, List.count_append]
    simp only [List.count_cons, List.count_nil, beq_iff_eq, hne, hne', if_false]
    omega
  · rw [htake]
    intro d hmem
    rcases List.mem_append.mp hmem with hmem | hmem
    · exact h.chars d hmem
    · right
      simp only [List.mem_cons, List.not_mem_nil, or_false] at hmem
      rcases hmem with rfl | rfl
      · simp [hhi]
      · simp [hlo]
  · have hset : (out.set bi (hi <<< 4 ||| lo)).toList.take (bi + 1) =
        out.toList.take bi ++ [hi <<< 4 ||| lo] := by
      rw [List.take_add_one]
      simp [hbi, Vector.toList_set, List.take_set_of_le (Nat.le_refl bi)]
    have hfilter : (s.take i ++ [c, c']).filter (· ≠ 45) =
        (s.take i).filter (· ≠ 45) ++ [c, c'] := by
      rw [List.filter_append]
      simp [hne, hne']
    rw [hset, htake, hfilter, lower, List.map_append, ← lower, ← lower, ← h.bytes,
      ← hexText_pair hhi hlo, hexText, hexText, hexText, List.flatMap_append]

/-- **There is room for every byte**: while there are two digits to read, `bi` is below 16. -/
theorem Scanned.room (h : Scanned s i bi out) (hlen : s.length = 36) (hdashed : Dashed s)
    (hlt : i + 1 < 36) : bi < 16 := by
  have hcount := count_take hdashed (i := i) (by omega)
  have hplace := h.place
  have hpassed : ∀ i < 36, 24 ≤ i → passed i = 4 := by decide
  by_cases h24 : 24 ≤ i
  · have hfour := hpassed i (by omega) h24
    omega
  · omega

theorem Canonical.dashed (h : Canonical s) : Dashed s := by
  intro d hd
  have hlt : ∀ d ∈ dashes, d < 36 := by decide
  obtain ⟨c, hc, hplace⟩ := (canonical_iff.mp h).2 d (hlt d hd)
  rw [if_pos hd] at hplace
  rw [hc, hplace]

/-- A canonical text has no other dash. -/
theorem Canonical.not_extra (h : Canonical s) (j : Nat) : ¬ Extra s j := by
  rintro ⟨h45, hj⟩
  obtain ⟨hlt, -⟩ := List.getElem?_eq_some_iff.mp h45
  obtain ⟨c, hc, hdigit⟩ := (canonical_iff.mp h).2 j (h.1 ▸ hlt)
  rw [if_neg hj] at hdigit
  rw [hc, Option.some.injEq] at h45
  subst h45
  revert hdigit
  decide

/-- On a canonical text, where the scan stands at a digit it stands at two of them: every group is of
even length. -/
theorem Scanned.next (h : Scanned s i bi out) (hcanon : Canonical s) (hi : i < 36)
    (hdigit : i ∉ dashes) : i + 1 < 36 ∧ i + 1 ∉ dashes := by
  have hcount := count_take hcanon.dashed (i := i) (by rw [hcanon.1]; omega)
  have hnone : (List.range i).countP (fun j => Extra s j) = 0 := by
    rw [List.countP_eq_zero]
    exact fun j _ => by simpa using hcanon.not_extra j
  have hplace := h.place
  have heven : ∀ i < 36, (i - passed i) % 2 = 0 → i ∉ dashes → i + 1 < 36 ∧ i + 1 ∉ dashes := by
    decide
  exact heven i hi (by omega) hdigit

/-- A character in the text, or the NUL behind it, is read. -/
theorem charAt_ne_none (hi : i ≤ s.length) : charAt s i ≠ none := by
  unfold charAt
  split
  next => simp
  next hne =>
    rw [List.getElem?_eq_getElem (Nat.lt_of_le_of_ne hi hne)]
    simp

theorem charAt_eq_some {c : UInt8} (hc : charAt s i = some c) (h0 : c ≠ 0) : s[i]? = some c := by
  unfold charAt at hc
  split at hc
  next => exact absurd (Option.some.inj hc).symm h0
  next => exact hc

/-- The NUL behind the text is no digit, so a digit is in the text. -/
theorem digit_in_text {c v : UInt8} (hc : charAt s i = some c) (hv : hexVal c = some v) :
    s[i]? = some c ∧ i < s.length := by
  have h0 : c ≠ 0 := by
    rintro rfl
    have hnone : hexVal 0 = none := rfl
    cases hnone.symm.trans hv
  have hget := charAt_eq_some hc h0
  obtain ⟨hlt, -⟩ := List.getElem?_eq_some_iff.mp hget
  exact ⟨hget, hlt⟩

/-- A canonical text has a digit wherever it is not to have a dash. -/
theorem Canonical.digit (h : Canonical s) (hi : i < 36) (hplace : i ∉ dashes) {c : UInt8}
    (hc : charAt s i = some c) : hexVal c ≠ none := by
  obtain ⟨c', hc', hdigit⟩ := (canonical_iff.mp h).2 i hi
  rw [if_neg hplace] at hdigit
  rw [charAt, if_neg (by rw [h.1]; omega), hc'] at hc
  cases hc
  exact Option.isSome_iff_ne_none.mp hdigit

/-- Where a canonical text has no dash it is not to have one. -/
theorem Canonical.not_dash (h : Canonical s) (hi : i < 36) {c : UInt8} (hc : charAt s i = some c)
    (hne : c ≠ 45) : i ∉ dashes := by
  intro hmem
  rw [charAt, if_neg (by rw [h.1]; omega), h.dashed i hmem] at hc
  exact hne (Option.some.inj hc).symm

/-- **The scan stays in bounds.** It answers true only when all of the text has been scanned and all
bytes are written, and on a canonical text it does. -/
theorem scanUuid_spec (hlen : s.length = 36) (hdashed : Dashed s) (h : Scanned s i bi out) :
    ∃ ok b, scanUuid s i bi out = some (ok, b) ∧ (ok = true → Scanned s 36 16 b) ∧
      (Canonical s → ok = true) := by
  fun_induction scanUuid s i bi out with
  | case1 i bi out hi hc => exact absurd hc (charAt_ne_none (by omega))
  | case2 i bi out hi hc ih => exact ih (h.skip hi (charAt_eq_some hc (by decide)))
  | case3 i bi out hi c hc hne hnone =>
    refine ⟨false, out, rfl, by simp, fun hcanon => ?_⟩
    exact absurd hnone (hcanon.digit hi (hcanon.not_dash hi hc hne) hc)
  | case4 i bi out hi c hc hne hi' hv hc' => exact absurd hc' (charAt_ne_none (by omega))
  | case5 i bi out hi c hc hne hi' hv c' hc' hnone =>
    refine ⟨false, out, rfl, by simp, fun hcanon => ?_⟩
    obtain ⟨hlt, hplace⟩ := h.next hcanon hi (hcanon.not_dash hi hc hne)
    exact absurd hnone (hcanon.digit hlt hplace hc')
  | case6 i bi out hi c hc hne hi' hv c' hc' lo hlo hfull =>
    obtain ⟨-, hlt⟩ := digit_in_text hc' hlo
    have hbi := h.room hlen hdashed (by omega)
    rw [storeByte, dif_pos hbi] at hfull
    cases hfull
  | case7 i bi out hi c hc hne hi' hv c' hc' lo hlo out' hstore ih =>
    obtain ⟨hget, -⟩ := digit_in_text hc hv
    obtain ⟨hget', hlt⟩ := digit_in_text hc' hlo
    have hbi := h.room hlen hdashed (by omega)
    rw [storeByte, dif_pos hbi, Option.some.injEq] at hstore
    subst hstore
    exact ih (h.pair (by omega) hget hv hget' hlo hbi)
  | case8 i bi out hi =>
    have hend : i = 36 := by
      have hle := h.le
      omega
    subst hend
    refine ⟨_, out, rfl, fun hok => ?_, fun hcanon => ?_⟩
    · rwa [← eq_of_beq hok]
    · have hcount := count_take hcanon.dashed (i := 36) (by omega)
      have hnone : (List.range 36).countP (fun j => Extra s j) = 0 := by
        rw [List.countP_eq_zero]
        exact fun j _ => by simpa using hcanon.not_extra j
      have hplace := h.place
      have hpassed : passed 36 = 4 := by decide
      exact beq_iff_eq.mpr (by omega)

end Scan

/-! ## What is accepted, and what is written -/

/-- A scan that has written all bytes has met no other dash. -/
theorem Scanned.canonical {s : Text} {b : Vector UInt8 16} (h : Scanned s 36 16 b)
    (hlen : s.length = 36) (hdashed : Dashed s) : Canonical s := by
  have hcount := count_take hdashed (i := 36) (by omega)
  have hpassed : passed 36 = 4 := by decide
  have hplace := h.place
  have hnone : (List.range 36).countP (fun j => Extra s j) = 0 := by omega
  rw [List.countP_eq_zero] at hnone
  refine canonical_iff.mpr ⟨hlen, fun i hi => ?_⟩
  have hget : s[i]? = some s[i] := List.getElem?_eq_getElem (by omega)
  refine ⟨s[i], hget, ?_⟩
  split
  next hmem =>
    have h45 := hdashed i hmem
    rwa [hget, Option.some.injEq] at h45
  next hmem =>
    have hin : s[i] ∈ s.take 36 := by
      rw [List.take_of_length_le (by omega)]
      exact List.getElem_mem _
    rcases h.chars _ hin with h45 | hdigit
    · have hextra : Extra s i := ⟨by rw [hget, h45], hmem⟩
      exact absurd (decide_eq_true hextra) (hnone i (List.mem_range.mpr hi))
    · exact hdigit

theorem hexText_take (bs : List UInt8) (n : Nat) : hexText (bs.take n) = (hexText bs).take (2 * n) := by
  induction bs generalizing n with
  | nil => simp [hexText]
  | cons b bs ih =>
    cases n with
    | zero => rfl
    | succ n =>
      have hrest := ih n
      simp only [hexText] at hrest
      rw [show 2 * (n + 1) = 2 * n + 2 by omega]
      simp [hexText, hrest]

theorem hexText_drop (bs : List UInt8) (n : Nat) : hexText (bs.drop n) = (hexText bs).drop (2 * n) := by
  induction bs generalizing n with
  | nil => simp [hexText]
  | cons b bs ih =>
    cases n with
    | zero => rfl
    | succ n =>
      have hrest := ih n
      simp only [hexText] at hrest
      rw [show 2 * (n + 1) = 2 * n + 2 by omega]
      simp [hexText, hrest]

/-- A group and the dash behind it. -/
theorem drop_eq_group {s : Text} {n m : Nat} (h45 : s[n + m]? = some 45) :
    s.drop n = (s.drop n).take m ++ 45 :: s.drop (n + m + 1) := by
  obtain ⟨hlt, hget⟩ := List.getElem?_eq_some_iff.mp h45
  have hrest : s.drop (n + m) = 45 :: s.drop (n + m + 1) := by
    rw [List.drop_eq_getElem_cons hlt, hget]
  rw [← hrest, ← List.drop_drop, List.take_append_drop]

/-- A group of a canonical text has no dash. -/
theorem Canonical.filter_group {s : Text} (h : Canonical s) {n m : Nat}
    (hgroup : ∀ i < n + m, n ≤ i → i ∉ dashes) :
    ((s.drop n).take m).filter (· ≠ 45) = (s.drop n).take m := by
  rw [List.filter_eq_self]
  intro c hc
  obtain ⟨j, hj, rfl⟩ := List.getElem_of_mem hc
  rw [List.length_take, List.length_drop] at hj
  have hextra := h.not_extra (n + j)
  rw [Extra, not_and_or, not_not] at hextra
  rcases hextra with hne | hmem
  · rw [List.getElem?_eq_getElem (by omega), Option.some.injEq] at hne
    simpa using hne
  · exact absurd hmem (hgroup (n + j) (by omega) (by omega))

/-- A canonical text is five groups with a dash between them. -/
theorem Canonical.groups {s : Text} (h : Canonical s) :
    ∃ g₁ g₂ g₃ g₄ g₅, s = g₁ ++ 45 :: (g₂ ++ 45 :: (g₃ ++ 45 :: (g₄ ++ 45 :: g₅))) ∧
      g₁.length = 8 ∧ g₂.length = 4 ∧ g₃.length = 4 ∧ g₄.length = 4 ∧
      s.filter (· ≠ 45) = g₁ ++ (g₂ ++ (g₃ ++ (g₄ ++ g₅))) := by
  have hlen := h.1
  have h1 := drop_eq_group (n := 0) (m := 8) (h.dashed 8 (by decide))
  have h2 := drop_eq_group (n := 9) (m := 4) (h.dashed 13 (by decide))
  have h3 := drop_eq_group (n := 14) (m := 4) (h.dashed 18 (by decide))
  have h4 := drop_eq_group (n := 19) (m := 4) (h.dashed 23 (by decide))
  have h5 : (s.drop 24).take 12 = s.drop 24 := List.take_of_length_le (by simp [hlen])
  have f1 := h.filter_group (n := 0) (m := 8) (by decide)
  have f2 := h.filter_group (n := 9) (m := 4) (by decide)
  have f3 := h.filter_group (n := 14) (m := 4) (by decide)
  have f4 := h.filter_group (n := 19) (m := 4) (by decide)
  have f5 := h.filter_group (n := 24) (m := 12) (by decide)
  rw [h5] at f5
  have hs : s = (s.drop 0).take 8 ++ 45 :: ((s.drop 9).take 4 ++ 45 :: ((s.drop 14).take 4 ++
      45 :: ((s.drop 19).take 4 ++ 45 :: s.drop 24))) := by
    rw [← h4, ← h3, ← h2, ← h1]
    rfl
  refine ⟨_, _, _, _, _, hs, by simp [hlen], by simp [hlen], by simp [hlen], by simp [hlen], ?_⟩
  have hskip : ∀ t : Text, (45 :: t).filter (· ≠ 45) = t.filter (· ≠ 45) := fun t => by simp
  conv => lhs; rw [hs]
  rw [List.filter_append, hskip, List.filter_append, hskip, List.filter_append, hskip,
    List.filter_append, hskip, f1, f2, f3, f4, f5]

/-- The rendering puts the digits in five groups. -/
theorem renderUuid_eq {b : Vector UInt8 16} {g₁ g₂ g₃ g₄ g₅ : Text} (h₁ : g₁.length = 8)
    (h₂ : g₂.length = 4) (h₃ : g₃.length = 4) (h₄ : g₄.length = 4)
    (h : hexText b.toList = g₁ ++ (g₂ ++ (g₃ ++ (g₄ ++ g₅)))) :
    renderUuid b = g₁ ++ 45 :: (g₂ ++ 45 :: (g₃ ++ 45 :: (g₄ ++ 45 :: g₅))) := by
  rw [renderUuid, hexText_take, hexText_take, hexText_take, hexText_take, hexText_drop, hexText_drop,
    hexText_drop, hexText_drop, h]
  -- what is dropped of a group is all of it, or nothing
  simp (disch := omega) [List.drop_append, List.drop_eq_nil_of_le, h₁, h₂, h₃]

/-- **The bytes that were written render as the text, in lowercase.** -/
theorem Scanned.render {s : Text} {b : Vector UInt8 16} (h : Scanned s 36 16 b)
    (hcanon : Canonical s) : renderUuid b = lower s := by
  obtain ⟨g₁, g₂, g₃, g₄, g₅, hs, h₁, h₂, h₃, h₄, hfilter⟩ := hcanon.groups
  have hbytes := h.bytes
  rw [List.take_of_length_le (by simp), List.take_of_length_le (Nat.le_of_eq hcanon.1), hfilter]
    at hbytes
  simp only [lower, List.map_append] at hbytes
  rw [renderUuid_eq (by simpa) (by simpa) (by simpa) (by simpa) hbytes, hs]
  simp [lower, lowerChar]

/-- The loop over `dashes` reads inside the text. -/
theorem checkDashes_spec {s : Text} : ∀ {ds : List Nat}, (∀ d ∈ ds, d < s.length) →
    ∃ ok, checkDashes s ds = some ok ∧ (ok = true ↔ ∀ d ∈ ds, s[d]? = some 45) := by
  intro ds hds
  induction ds with
  | nil => exact ⟨true, rfl, by simp⟩
  | cons d ds ih =>
    have hd := hds d List.mem_cons_self
    obtain ⟨ok, hok, hiff⟩ := ih fun d' hd' => hds d' (List.mem_cons_of_mem d hd')
    have hget : s[d]? = some s[d] := List.getElem?_eq_getElem hd
    have hread : charAt s d = some s[d] := by rw [charAt, if_neg (Nat.ne_of_lt hd), hget]
    simp only [checkDashes, hread, List.mem_cons, forall_eq_or_imp, hget, Option.some.injEq]
    by_cases h45 : s[d] = 45
    · rw [if_neg (by simpa using h45)]
      exact ⟨ok, hok, by rw [hiff, and_iff_right h45]⟩
    · rw [if_pos h45]
      exact ⟨false, rfl, by simp [h45]⟩

/-- **`parse_uuid` accepts exactly the canonical form**, on every text without an access out of bounds;
what it then writes renders as the text in lowercase. -/
theorem parseUuid_exact (s : Text) (out : Vector UInt8 16) :
    ∃ ok b, parseUuid s out = some (ok, b) ∧ (ok = true ↔ Canonical s) ∧
      (ok = true → renderUuid b = lower s) := by
  unfold parseUuid
  by_cases hlen : s.length = 36
  · have hin : ∀ d ∈ dashes, d < s.length := by
      rw [hlen]
      decide
    obtain ⟨ok, hcheck, hiff⟩ := checkDashes_spec hin
    rw [if_neg (not_not_intro hlen), hcheck]
    cases ok with
    | false =>
      refine ⟨false, out, rfl, ?_, by simp⟩
      have hnot : ¬ Canonical s := fun hcanon => absurd (hiff.mpr hcanon.dashed) (by decide)
      simpa using hnot
    | true =>
      have hdashed : Dashed s := hiff.mp rfl
      obtain ⟨ok, b, hscan, hdone, hcomplete⟩ := scanUuid_spec hlen hdashed (.start s out)
      refine ⟨ok, b, hscan, ⟨fun hok => ?_, hcomplete⟩, fun hok => ?_⟩
      · exact (hdone hok).canonical hlen hdashed
      · exact (hdone hok).render ((hdone hok).canonical hlen hdashed)
  · rw [if_pos hlen]
    refine ⟨false, out, rfl, ?_, by simp⟩
    have hnot : ¬ Canonical s := fun hcanon => hlen hcanon.1
    simpa using hnot

end Cfd.Tunnel
