import Cfd.Base.Base64
import Mathlib.Algebra.Group.Nat.Defs

/-!
# `base64_decode`

The decoder of the tunnel secret, `base64_decode` of `src/tunnel/registration.cpp`: a table of sextets,
and a loop over groups of four characters. Each group is first read into `v`, where a pad is the marker
-2, and then written to `out` as one, two or three bytes.

`base64Decode_eq` relates the loop to the strict reference decoder of RFC 4648. `out` keeps the bytes of
the groups before the one that is refused. `entered` is not in the source: it lists the values that
went into the bit arithmetic, so that it can be said which ones do.
-/

set_option autoImplicit false

namespace Cfd.Tunnel

open Cfd.Base

/-! ## The source -/

/-- `alpha`. -/
def alpha : Text := ascii "ABCDEFGHIJKLMNOPQRSTUVWXYZabcdefghijklmnopqrstuvwxyz0123456789+/"

/-- `tab`: filled with -1, then each letter's place is set to its index. -/
def tab : UInt8 → Int8 :=
  (List.range 64).foldl (fun t i => Function.update t (alpha.getD i 0) (Int8.ofNat i)) fun _ => -1

/-- One pass of the inner loop; `none` is `return false`. -/
def readSextet (last : Bool) (quartet : Text) (v : List Int32) (k : Nat) : Option (List Int32) :=
  let c := quartet.getD k 0
  if c = 61 then
    if ¬ last ∨ k < 2 then none else some (v.set k (-2))
  else
    let dec := (tab c).toInt32
    if dec < 0 then none
    else if k > 0 ∧ v.getD (k - 1) 0 = -2 then none
    else some (v.set k dec)

/-- The inner loop: the values of one group. -/
def readQuartet (last : Bool) (quartet : Text) : Option (List Int32) :=
  (List.range 4).foldlM (readSextet last quartet) [-1, -1, -1, -1]

/-- `out`, and the values that have entered the bit arithmetic. -/
structure Decoding where
  ok : Bool
  out : List UInt8
  entered : List Int32
  deriving DecidableEq

/-- `out.push_back` of a byte that is computed from `v[j]` and `v[k]`. -/
def Decoding.push (d : Decoding) (v : List Int32) (j k : Nat) (byte : UInt32 → UInt32 → UInt32) :
    Decoding :=
  { d with
    out := d.out ++ [(byte (v.getD j 0).toUInt32 (v.getD k 0).toUInt32).toUInt8]
    entered := d.entered ++ [v.getD j 0, v.getD k 0] }

/-- The end of the outer loop's body: the bytes of one group. -/
def Decoding.pushQuartet (d : Decoding) (v : List Int32) : Decoding :=
  let d := d.push v 0 1 fun x y => x <<< 2 ||| y >>> 4
  let d := if v.getD 2 0 ≠ -2 then d.push v 1 2 fun x y => (x &&& 0x0F) <<< 4 ||| y >>> 2 else d
  if v.getD 3 0 ≠ -2 then d.push v 2 3 fun x y => (x &&& 0x03) <<< 6 ||| y else d

/-- The outer loop. -/
def decodeFrom (d : Decoding) : Text → Decoding
  | c₀ :: c₁ :: c₂ :: c₃ :: rest =>
    match readQuartet rest.isEmpty [c₀, c₁, c₂, c₃] with
    | none => { d with ok := false }
    | some v => decodeFrom (d.pushQuartet v) rest
  | _ => { d with ok := true }

/-- `base64_decode`. -/
def base64Decode (input : Text) (out : List UInt8) : Decoding :=
  if input.length % 4 ≠ 0 then ⟨false, out, []⟩ else decodeFrom ⟨true, out, []⟩ input

/-! ## The table -/

/-- The alphabet of RFC 4648. -/
def stdAlphabet : Base64.Alphabet UInt8 where
  letters := alpha
  pad := 61
  length_letters := by decide
  nodup := by decide
  pad_notMem := by decide

/-- `tab` holds the sextet of every letter, and -1 elsewhere. -/
theorem tab_eq (c : UInt8) : tab c = ((stdAlphabet.value? c).map Int8.ofNat).getD (-1) := by
  have hlen : stdAlphabet.letters.length = 64 := stdAlphabet.length_letters
  have htab := Base64.foldl_update_idxOf stdAlphabet.nodup 0 Int8.ofNat (fun _ => -1) c 64
    (Nat.le_of_eq hlen.symm)
  refine htab.trans ?_
  have hmem : stdAlphabet.letters.idxOf c < 64 ↔ c ∈ stdAlphabet.letters := by
    rw [← hlen, List.idxOf_lt_length_iff]
  simp only [hmem, Base64.Alphabet.value?]
  split <;> rfl

/-- What the loop finds in the table for a letter. -/
theorem dec_letter : ∀ n < 64, (Int8.ofNat n).toInt32 = Int32.ofNat n ∧
    ¬ Int32.ofNat n < 0 ∧ Int32.ofNat n ≠ -2 := by decide +kernel

/-! ## One group -/

variable {last : Bool} {q : Text} {v : List Int32} {k : Nat}

theorem readSextet_pad (hc : q.getD k 0 = 61) :
    readSextet last q v k = if last ∧ 2 ≤ k then some (v.set k (-2)) else none := by
  rw [readSextet, if_pos hc]
  by_cases h : last = true ∧ 2 ≤ k
  · have hbad : ¬(¬(last = true) ∨ k < 2) := by
      rintro (hlast | hk)
      · exact hlast h.1
      · exact Nat.not_lt_of_le h.2 hk
    rw [if_pos h, if_neg hbad]
  · rw [if_neg h, if_pos (by simpa [Classical.or_iff_not_imp_left] using h)]

theorem readSextet_letter {n : Nat} (hc : stdAlphabet.value? (q.getD k 0) = some n) :
    readSextet last q v k =
      if 0 < k ∧ v.getD (k - 1) 0 = -2 then none else some (v.set k (Int32.ofNat n)) := by
  have hn := stdAlphabet.lt_of_value? hc
  obtain ⟨hdec, hpos, -⟩ := dec_letter n hn
  have hne : q.getD k 0 ≠ 61 := stdAlphabet.ne_pad_of_value? hc
  rw [readSextet, if_neg hne, tab_eq, hc, Option.map_some, Option.getD_some, hdec, if_neg hpos]

theorem readSextet_other (hc : stdAlphabet.value? (q.getD k 0) = none) (hne : q.getD k 0 ≠ 61) :
    readSextet last q v k = none := by
  rw [readSextet, if_neg hne, tab_eq, hc]
  rfl

/-- A character is the pad, a letter, or neither. -/
theorem char_cases (c : UInt8) :
    c = 61 ∨ (∃ n, stdAlphabet.value? c = some n) ∨ (stdAlphabet.value? c = none ∧ c ≠ 61) := by
  by_cases hpad : c = 61
  · exact Or.inl hpad
  · match h : stdAlphabet.value? c with
    | some n => exact Or.inr (Or.inl ⟨n, rfl⟩)
    | none => exact Or.inr (Or.inr ⟨rfl, hpad⟩)

/-- The inner loop, one character after the other. -/
theorem readQuartet_eq (last : Bool) (q : Text) :
    readQuartet last q = (readSextet last q [-1, -1, -1, -1] 0).bind fun v =>
      (readSextet last q v 1).bind fun v => (readSextet last q v 2).bind fun v =>
        readSextet last q v 3 := by
  simp [readQuartet, List.range_succ, List.foldlM]

/-- The values of a group and their bytes. -/
inductive Sextets : List Int32 → List UInt8 → Prop
  | one {w x : Nat} (hw : w < 64) (hx : x < 64) :
    Sextets [.ofNat w, .ofNat x, -2, -2] (Base64.one w x)
  | two {w x y : Nat} (hw : w < 64) (hx : x < 64) (hy : y < 64) :
    Sextets [.ofNat w, .ofNat x, .ofNat y, -2] (Base64.two w x y)
  | three {w x y z : Nat} (hw : w < 64) (hx : x < 64) (hy : y < 64) (hz : z < 64) :
    Sextets [.ofNat w, .ofNat x, .ofNat y, .ofNat z] (Base64.three w x y z)

/-- **The inner loop refuses the groups the reference decoder refuses**, and reads the others as
their sextets, with the marker for a pad. -/
theorem readQuartet_cases (last : Bool) (a b c d : UInt8) :
    (readQuartet last [a, b, c, d] = none ∧ stdAlphabet.quartet? last a b c d = none) ∨
      ∃ v g, readQuartet last [a, b, c, d] = some v ∧
        stdAlphabet.quartet? last a b c d = some g ∧ Sextets v g := by
  have hpad : stdAlphabet.value? 61 = none := stdAlphabet.value?_pad
  have h61 : stdAlphabet.pad = 61 := rfl
  rw [readQuartet_eq]
  unfold Base64.Alphabet.quartet? Base64.Alphabet.final? Base64.Alphabet.group?
  rcases char_cases a with rfl | ⟨w, ha⟩ | ⟨ha, hna⟩
  · left
    simp [readSextet_pad, hpad]
  · rw [readSextet_letter (q := [a, b, c, d]) (k := 0) ha]
    rcases char_cases b with rfl | ⟨x, hb⟩ | ⟨hb, hnb⟩
    · left
      simp [readSextet_pad, hpad]
    · have hw := stdAlphabet.lt_of_value? ha
      have hx := stdAlphabet.lt_of_value? hb
      have hw2 := (dec_letter w hw).2.2
      have hx2 := (dec_letter x hx).2.2
      rw [if_neg (by simp), Option.bind_some, readSextet_letter (q := [a, b, c, d]) (k := 1) hb,
        if_neg (by simp [hw2]), Option.bind_some]
      rcases char_cases c with rfl | ⟨y, hc⟩ | ⟨hc, hnc⟩
      · rw [readSextet_pad (q := [a, b, 61, d]) (k := 2) rfl]
        cases last with
        | false =>
          left
          simp [hpad]
        | true =>
          rw [if_pos (by simp), Option.bind_some]
          rcases char_cases d with rfl | ⟨z, hd⟩ | ⟨hd, hnd⟩
          · right
            rw [readSextet_pad (q := [a, b, 61, 61]) (k := 3) rfl]
            simpa [ha, hb, h61] using Sextets.one hw hx
          · -- behind a pad only a pad may follow
            left
            rw [readSextet_letter (q := [a, b, 61, d]) (k := 3) hd]
            simp [stdAlphabet.ne_pad_of_value? hd, hpad]
          · left
            rw [readSextet_other (q := [a, b, 61, d]) (k := 3) hd hnd]
            simp [h61, hnd, hpad]
      · have hy := stdAlphabet.lt_of_value? hc
        have hy2 := (dec_letter y hy).2.2
        have hc61 : c ≠ 61 := stdAlphabet.ne_pad_of_value? hc
        rw [readSextet_letter (q := [a, b, c, d]) (k := 2) hc, if_neg (by simp [hx2]),
          Option.bind_some]
        rcases char_cases d with rfl | ⟨z, hd⟩ | ⟨hd, hnd⟩
        · rw [readSextet_pad (q := [a, b, c, 61]) (k := 3) rfl]
          cases last with
          | false =>
            left
            simp [hpad]
          | true =>
            right
            simpa [ha, hb, hc, h61, hc61] using Sextets.two hw hx hy
        · right
          rw [readSextet_letter (q := [a, b, c, d]) (k := 3) hd, if_neg (by simp [hy2])]
          have hz := stdAlphabet.lt_of_value? hd
          simpa [ha, hb, hc, hd, stdAlphabet.ne_pad_of_value? hd] using Sextets.three hw hx hy hz
        · left
          rw [readSextet_other (q := [a, b, c, d]) (k := 3) hd hnd]
          simp [h61, hnd, hd]
      · left
        rw [readSextet_other (q := [a, b, c, d]) (k := 2) hc hnc]
        simp [h61, hnc, hc]
    · left
      simp [readSextet_other (q := [a, b, c, d]) (k := 1) hb hnb, hb]
  · left
    simp [readSextet_other (q := [a, b, c, d]) (k := 0) ha hna, ha]

/-! ## The bytes of a group -/

/-- A sextet passes through the casts. -/
theorem toNat_sextet : ∀ n < 64, (Int32.ofNat n).toUInt32.toNat = n := by decide +kernel

/-- Two bit fields side by side, cut down to a byte. -/
theorem splice {hi lo k : Nat} (hlo : lo < 2 ^ k) (hhi : hi * 2 ^ k < 2 ^ 32) :
    (hi <<< k % 2 ^ 32 ||| lo) % 2 ^ 8 = (UInt8.ofNat (hi * 2 ^ k + lo)).toNat := by
  have hshift : hi <<< k < 2 ^ 32 := by rwa [Nat.shiftLeft_eq]
  rw [Nat.mod_eq_of_lt hshift, ← Nat.shiftLeft_add_eq_or_of_lt hlo, Nat.shiftLeft_eq,
    UInt8.toNat_ofNat']

theorem byte_first {w x : Nat} (hw : w < 64) (hx : x < 64) :
    ((Int32.ofNat w).toUInt32 <<< 2 ||| (Int32.ofNat x).toUInt32 >>> 4).toUInt8 =
      UInt8.ofNat (w * 4 + x / 16) := by
  have hdiv : x >>> 4 = x / 16 := Nat.shiftRight_eq_div_pow x 4
  rw [← UInt8.toNat_inj, UInt32.toNat_toUInt8, UInt32.toNat_or, UInt32.toNat_shiftLeft,
    UInt32.toNat_shiftRight, toNat_sextet w hw, toNat_sextet x hx]
  change (w <<< 2 % 2 ^ 32 ||| x >>> 4) % 2 ^ 8 = _
  rw [hdiv]
  exact splice (k := 2) (by omega) (by omega)

theorem byte_second {x y : Nat} (hx : x < 64) (hy : y < 64) :
    (((Int32.ofNat x).toUInt32 &&& 0x0F) <<< 4 ||| (Int32.ofNat y).toUInt32 >>> 2).toUInt8 =
      UInt8.ofNat (x % 16 * 16 + y / 4) := by
  have hmod : x &&& 15 = x % 16 := Nat.and_two_pow_sub_one_eq_mod x 4
  have hdiv : y >>> 2 = y / 4 := Nat.shiftRight_eq_div_pow y 2
  rw [← UInt8.toNat_inj, UInt32.toNat_toUInt8, UInt32.toNat_or, UInt32.toNat_shiftLeft,
    UInt32.toNat_shiftRight, UInt32.toNat_and, toNat_sextet x hx, toNat_sextet y hy]
  change ((x &&& 15) <<< 4 % 2 ^ 32 ||| y >>> 2) % 2 ^ 8 = _
  rw [hmod, hdiv]
  exact splice (k := 4) (by omega) (by omega)

theorem byte_third {y z : Nat} (hy : y < 64) (hz : z < 64) :
    (((Int32.ofNat y).toUInt32 &&& 0x03) <<< 6 ||| (Int32.ofNat z).toUInt32).toUInt8 =
      UInt8.ofNat (y % 4 * 64 + z) := by
  have hmod : y &&& 3 = y % 4 := Nat.and_two_pow_sub_one_eq_mod y 2
  rw [← UInt8.toNat_inj, UInt32.toNat_toUInt8, UInt32.toNat_or, UInt32.toNat_shiftLeft,
    UInt32.toNat_and, toNat_sextet y hy, toNat_sextet z hz]
  change ((y &&& 3) <<< 6 % 2 ^ 32 ||| z) % 2 ^ 8 = _
  rw [hmod]
  exact splice (k := 6) (by omega) (by omega)

/-- A sextet, as opposed to a marker. -/
def IsSextet (x : Int32) : Prop := 0 ≤ x ∧ x < 64

theorem isSextet_ofNat : ∀ n < 64, IsSextet (Int32.ofNat n) := by
  unfold IsSextet
  decide +kernel

/-- **The group's bytes are written**, and only sextets enter the arithmetic. -/
theorem Decoding.pushQuartet_eq (D : Decoding) {v : List Int32} {g : List UInt8}
    (h : Sextets v g) :
    (D.pushQuartet v).out = D.out ++ g ∧
      ∃ xs, (D.pushQuartet v).entered = D.entered ++ xs ∧ ∀ x ∈ xs, IsSextet x := by
  cases h with
  | @one w x hw hx =>
    simp only [pushQuartet, push, List.getD_cons_zero, List.getD_cons_succ, ne_eq, not_true_eq_false,
      if_false, byte_first hw hx]
    refine ⟨rfl, _, rfl, ?_⟩
    simp [isSextet_ofNat w hw, isSextet_ofNat x hx]
  | @two w x y hw hx hy =>
    have hy2 := (dec_letter y hy).2.2
    simp only [pushQuartet, push, List.getD_cons_zero, List.getD_cons_succ, ne_eq, not_true_eq_false,
      if_false, hy2, not_false_eq_true, if_true, byte_first hw hx, byte_second hx hy,
      List.append_assoc]
    refine ⟨rfl, _, rfl, ?_⟩
    simp [isSextet_ofNat w hw, isSextet_ofNat x hx, isSextet_ofNat y hy]
  | @three w x y z hw hx hy hz =>
    have hy2 := (dec_letter y hy).2.2
    have hz2 := (dec_letter z hz).2.2
    simp only [pushQuartet, push, List.getD_cons_zero, List.getD_cons_succ, ne_eq, hy2, hz2,
      not_false_eq_true, if_true, byte_first hw hx, byte_second hx hy, byte_third hy hz,
      List.append_assoc]
    refine ⟨rfl, _, rfl, ?_⟩
    simp [isSextet_ofNat w hw, isSextet_ofNat x hx, isSextet_ofNat y hy, isSextet_ofNat z hz]

/-! ## The whole text -/

/-- **The loop follows the reference decoder.** It accepts what the reference decoder accepts, and
then appends its bytes. -/
theorem decodeFrom_eq (s : Text) (hlen : 4 ∣ s.length) (D : Decoding) :
    match stdAlphabet.decode? s with
    | some bs => (decodeFrom D s).ok = true ∧ (decodeFrom D s).out = D.out ++ bs
    | none => (decodeFrom D s).ok = false := by
  fun_induction decodeFrom D s with
  | case1 D a b c d rest hread =>
    rcases readQuartet_cases rest.isEmpty a b c d with ⟨-, href⟩ | ⟨v, g, hv, -⟩
    · rw [Base64.Alphabet.decode?, href]
      rfl
    · rw [hread] at hv
      cases hv
  | case2 D a b c d rest v hread ih =>
    rcases readQuartet_cases rest.isEmpty a b c d with ⟨hnone, -⟩ | ⟨v', g, hv, href, hsextets⟩
    · rw [hread] at hnone
      cases hnone
    · rw [hread] at hv
      cases hv
      have hrest := ih (by simpa only [List.length_cons, Nat.dvd_add_self_right] using hlen)
      rw [(D.pushQuartet_eq hsextets).1] at hrest
      rw [Base64.Alphabet.decode?, href, Option.bind_some]
      cases hdec : stdAlphabet.decode? rest with
      | none =>
        rw [hdec] at hrest
        exact hrest
      | some bs =>
        rw [hdec] at hrest
        obtain ⟨hok, hout⟩ := hrest
        exact ⟨hok, by rw [hout, List.append_assoc]⟩
  | case3 s D hshort =>
    rcases s with _ | ⟨a, _ | ⟨b, _ | ⟨c, _ | ⟨d, rest⟩⟩⟩⟩
    · exact ⟨rfl, (List.append_nil _).symm⟩
    · simp at hlen
    · simp at hlen
    · simp at hlen
    · exact absurd rfl (hshort a b c d rest)

/-- Whether a text is accepted or not, only sextets enter the arithmetic. -/
theorem decodeFrom_entered (s : Text) (D : Decoding) (hD : ∀ x ∈ D.entered, IsSextet x) :
    ∀ x ∈ (decodeFrom D s).entered, IsSextet x := by
  fun_induction decodeFrom D s with
  | case1 D a b c d rest hread => exact hD
  | case2 D a b c d rest v hread ih =>
    apply ih
    rcases readQuartet_cases rest.isEmpty a b c d with ⟨hnone, -⟩ | ⟨v', g, hv, -, hsextets⟩
    · rw [hread] at hnone
      cases hnone
    · rw [hread] at hv
      cases hv
      obtain ⟨-, xs, hxs, hall⟩ := D.pushQuartet_eq hsextets
      rw [hxs]
      intro x hx
      rcases List.mem_append.mp hx with hx | hx
      · exact hD x hx
      · exact hall x hx
  | case3 => exact hD

/-- **`base64_decode` follows the reference decoder** on texts of any length. -/
theorem base64Decode_eq (s : Text) (out : List UInt8) :
    match stdAlphabet.decode? s with
    | some bs => (base64Decode s out).ok = true ∧ (base64Decode s out).out = out ++ bs
    | none => (base64Decode s out).ok = false := by
  unfold base64Decode
  by_cases hlen : 4 ∣ s.length
  · rw [if_neg (by omega)]
    exact decodeFrom_eq s hlen _
  · have hnone : stdAlphabet.decode? s = none := by
      rw [← Option.not_isSome_iff_eq_none, Base64.Alphabet.decode?_isSome]
      exact fun hpadded => hlen hpadded.1
    rw [hnone, if_pos (by omega)]

/-- **`base64_decode` is a strict decoder of RFC 4648.** Decoding an encoding appends what was encoded
to `out`, whatever `out` held. A text is accepted exactly when it is whole groups of letters with at
most two pads at the end; it then appends three bytes for each group, less one for each pad. The marker
of a pad never enters the bit arithmetic. -/
theorem base64_strict :
    (∀ bs out, (base64Decode (stdAlphabet.encode bs) out).ok = true ∧
      (base64Decode (stdAlphabet.encode bs) out).out = out ++ bs) ∧
    ∀ s out,
      ((base64Decode s out).ok = true ↔ stdAlphabet.Padded s) ∧
      ((base64Decode s out).ok = true → ∃ bs, (base64Decode s out).out = out ++ bs ∧
        bs.length = 3 * s.length / 4 - s.count 61) ∧
      ∀ x ∈ (base64Decode s out).entered, IsSextet x := by
  constructor
  · intro bs out
    have h := base64Decode_eq (stdAlphabet.encode bs) out
    rwa [stdAlphabet.decode?_encode] at h
  · intro s out
    have h := base64Decode_eq s out
    refine ⟨?_, ?_, ?_⟩
    · rw [← Base64.Alphabet.decode?_isSome]
      cases hdec : stdAlphabet.decode? s with
      | none =>
        rw [hdec] at h
        simp [h]
      | some bs =>
        rw [hdec] at h
        simp [h.1]
    · intro hok
      cases hdec : stdAlphabet.decode? s with
      | none =>
        rw [hdec] at h
        rw [h] at hok
        cases hok
      | some bs =>
        rw [hdec] at h
        have hlength : bs.length + s.count 61 = 3 * s.length / 4 :=
          Base64.Alphabet.length_of_decode? hdec
        exact ⟨bs, h.2, by omega⟩
    · unfold base64Decode
      split
      next => simp
      next => exact decodeFrom_entered s _ (by simp)

end Cfd.Tunnel
