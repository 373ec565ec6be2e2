import Cfd.Base.Text
import Mathlib.Data.List.Basic
import Mathlib.Logic.Function.Basic

/-!
# Base 64

The padded encoding of RFC 4648 over any alphabet of sixty-four characters, and its strict reference
decoder. Three bytes are four characters; the last group may be short, and is then filled with one or
two pads.

* `decode?_encode`: decoding what was encoded gives it back;
* `decode?_isSome`: the decoder accepts the padded texts and no others;
* `length_of_decode?`: how many bytes an accepted text has.

The decoder does not ask for zero in the bits a short group leaves over, so it accepts texts that
encode nothing; RFC 4648 leaves that to the implementation.
-/

set_option autoImplicit false

namespace Cfd.Base.Base64

/-- Sixty-four characters in the order of their values, and the character that pads. -/
structure Alphabet (α : Type) [DecidableEq α] where
  letters : List α
  pad : α
  length_letters : letters.length = 64
  nodup : letters.Nodup
  pad_notMem : pad ∉ letters

/-! ## Groups of bytes -/

/-- The three bytes of four sextets. -/
def three (w x y z : Nat) : List UInt8 :=
  [.ofNat (w * 4 + x / 16), .ofNat (x % 16 * 16 + y / 4), .ofNat (y % 4 * 64 + z)]

/-- The two bytes of three sextets; the last two bits are left over. -/
def two (w x y : Nat) : List UInt8 := [.ofNat (w * 4 + x / 16), .ofNat (x % 16 * 16 + y / 4)]

/-- The byte of two sextets; the last four bits are left over. -/
def one (w x : Nat) : List UInt8 := [.ofNat (w * 4 + x / 16)]

theorem one_of_byte (a : UInt8) : one (a.toNat / 4) (a.toNat % 4 * 16) = [a] := by
  have ha : a.toNat / 4 * 4 + a.toNat % 4 * 16 / 16 = a.toNat := by omega
  rw [one, ha, UInt8.ofNat_toNat]

theorem two_of_bytes (a b : UInt8) :
    two (a.toNat / 4) (a.toNat % 4 * 16 + b.toNat / 16) (b.toNat % 16 * 4) = [a, b] := by
  have hb := b.toNat_lt
  have h1 : a.toNat / 4 * 4 + (a.toNat % 4 * 16 + b.toNat / 16) / 16 = a.toNat := by omega
  have h2 : (a.toNat % 4 * 16 + b.toNat / 16) % 16 * 16 + b.toNat % 16 * 4 / 4 = b.toNat := by omega
  rw [two, h1, h2, UInt8.ofNat_toNat, UInt8.ofNat_toNat]

theorem three_of_bytes (a b c : UInt8) :
    three (a.toNat / 4) (a.toNat % 4 * 16 + b.toNat / 16) (b.toNat % 16 * 4 + c.toNat / 64)
      (c.toNat % 64) = [a, b, c] := by
  have hb := b.toNat_lt
  have hc := c.toNat_lt
  have h1 : a.toNat / 4 * 4 + (a.toNat % 4 * 16 + b.toNat / 16) / 16 = a.toNat := by omega
  have h2 : (a.toNat % 4 * 16 + b.toNat / 16) % 16 * 16 + (b.toNat % 16 * 4 + c.toNat / 64) / 4 =
      b.toNat := by omega
  have h3 : (b.toNat % 16 * 4 + c.toNat / 64) % 4 * 64 + c.toNat % 64 = c.toNat := by omega
  rw [three, h1, h2, h3, UInt8.ofNat_toNat, UInt8.ofNat_toNat, UInt8.ofNat_toNat]

/-- **A table filled from a list** holds at each of the first `n` elements the value of its index. -/
theorem foldl_update_idxOf {α β : Type} [DecidableEq α] {l : List α} (hnodup : l.Nodup) (d : α)
    (f : Nat → β) (t : α → β) (c : α) : ∀ n ≤ l.length,
      (List.range n).foldl (fun t i => Function.update t (l.getD i d) (f i)) t c =
        if l.idxOf c < n then f (l.idxOf c) else t c := by
  intro n hn
  induction n with
  | zero => rfl
  | succ n ih =>
    have hget : l.getD n d = l[n] := by
      rw [List.getD_eq_getElem?_getD, List.getElem?_eq_getElem hn, Option.getD_some]
    rw [List.range_succ, List.foldl_append, List.foldl_cons, List.foldl_nil, hget]
    by_cases hc : c = l[n]
    · subst hc
      rw [Function.update_self, hnodup.idxOf_getElem n hn, if_pos (Nat.lt_succ_self n)]
    · have hne : l.idxOf c ≠ n := by
        rintro hidx
        refine hc ?_
        have hlt : l.idxOf c < l.length := by omega
        rw [← List.getElem_idxOf hlt]
        simp only [hidx]
      rw [Function.update_of_ne hc, ih (Nat.le_of_succ_le hn)]
      simp only [show l.idxOf c < n + 1 ↔ l.idxOf c < n by omega]

namespace Alphabet

variable {α : Type} [DecidableEq α] (A : Alphabet α)

/-- The character of a sextet. -/
def letter (n : Nat) : α := A.letters.getD n A.pad

/-- The sextet of a character; a character outside the alphabet has none. -/
def value? (c : α) : Option Nat := if c ∈ A.letters then some (A.letters.idxOf c) else none

theorem value?_letter {n : Nat} (hn : n < 64) : A.value? (A.letter n) = some n := by
  have hlt : n < A.letters.length := by rwa [A.length_letters]
  have hget : A.letter n = A.letters[n] := by
    rw [letter, List.getD_eq_getElem?_getD, List.getElem?_eq_getElem hlt, Option.getD_some]
  rw [hget, value?, if_pos (List.getElem_mem hlt), A.nodup.idxOf_getElem n hlt]

theorem value?_isSome {c : α} : (A.value? c).isSome = true ↔ c ∈ A.letters := by
  unfold value?
  split <;> simpa

/-- A sextet is less than sixty-four. -/
theorem lt_of_value? {c : α} {n : Nat} (h : A.value? c = some n) : n < 64 := by
  unfold value? at h
  split at h
  next hmem =>
    cases h
    rw [← A.length_letters]
    exact List.idxOf_lt_length_of_mem hmem
  next => cases h

@[simp] theorem value?_pad : A.value? A.pad = none := if_neg A.pad_notMem

theorem ne_pad_of_value? {c : α} {n : Nat} (h : A.value? c = some n) : c ≠ A.pad := by
  rintro rfl
  rw [value?_pad] at h
  cases h

theorem letter_ne_pad {n : Nat} (hn : n < 64) : A.letter n ≠ A.pad :=
  A.ne_pad_of_value? (A.value?_letter hn)

/-! ## Encoding and decoding -/

/-- The padded encoding. -/
def encode : List UInt8 → List α
  | [] => []
  | [a] => [A.letter (a.toNat / 4), A.letter (a.toNat % 4 * 16), A.pad, A.pad]
  | [a, b] =>
    [A.letter (a.toNat / 4), A.letter (a.toNat % 4 * 16 + b.toNat / 16),
      A.letter (b.toNat % 16 * 4), A.pad]
  | a :: b :: c :: bs =>
    A.letter (a.toNat / 4) :: A.letter (a.toNat % 4 * 16 + b.toNat / 16) ::
      A.letter (b.toNat % 16 * 4 + c.toNat / 64) :: A.letter (c.toNat % 64) :: encode bs

/-- The bytes of a full group. -/
def group? (a b c d : α) : Option (List UInt8) := do
  let w ← A.value? a
  let x ← A.value? b
  let y ← A.value? c
  let z ← A.value? d
  some (three w x y z)

/-- The bytes of the last group, which may be short. -/
def final? (a b c d : α) : Option (List UInt8) :=
  if d = A.pad then
    if c = A.pad then do
      let w ← A.value? a
      let x ← A.value? b
      some (one w x)
    else do
      let w ← A.value? a
      let x ← A.value? b
      let y ← A.value? c
      some (two w x y)
  else A.group? a b c d

/-- The bytes of four characters, by whether they are the last. -/
def quartet? (last : Bool) (a b c d : α) : Option (List UInt8) :=
  if last then A.final? a b c d else A.group? a b c d

/-- The strict decoder. -/
def decode? : List α → Option (List UInt8)
  | [] => some []
  | a :: b :: c :: d :: rest =>
    (A.quartet? rest.isEmpty a b c d).bind fun g => (decode? rest).map fun gs => g ++ gs
  | _ => none

/-- **Decoding what was encoded gives it back.** -/
theorem decode?_encode (bs : List UInt8) : A.decode? (A.encode bs) = some bs := by
  fun_induction encode A bs with
  | case1 => rfl
  | case2 a =>
    have ha := a.toNat_lt
    have h1 := A.value?_letter (show a.toNat / 4 < 64 by omega)
    have h2 := A.value?_letter (show a.toNat % 4 * 16 < 64 by omega)
    simp [decode?, quartet?, final?, h1, h2, one_of_byte]
  | case3 a b =>
    have ha := a.toNat_lt
    have hb := b.toNat_lt
    have h1 := A.value?_letter (show a.toNat / 4 < 64 by omega)
    have h2 := A.value?_letter (show a.toNat % 4 * 16 + b.toNat / 16 < 64 by omega)
    have hc : b.toNat % 16 * 4 < 64 := by omega
    simp [decode?, quartet?, final?, h1, h2, A.value?_letter hc, A.letter_ne_pad hc, two_of_bytes]
  | case4 a b c bs ih =>
    have ha := a.toNat_lt
    have hb := b.toNat_lt
    have hc := c.toNat_lt
    have h1 := A.value?_letter (show a.toNat / 4 < 64 by omega)
    have h2 := A.value?_letter (show a.toNat % 4 * 16 + b.toNat / 16 < 64 by omega)
    have h3 := A.value?_letter (show b.toNat % 16 * 4 + c.toNat / 64 < 64 by omega)
    have hd : c.toNat % 64 < 64 := by omega
    have hgroup : A.group? (A.letter (a.toNat / 4)) (A.letter (a.toNat % 4 * 16 + b.toNat / 16))
        (A.letter (b.toNat % 16 * 4 + c.toNat / 64)) (A.letter (c.toNat % 64)) =
          some [a, b, c] := by
      simp [group?, h1, h2, h3, A.value?_letter hd, three_of_bytes]
    simp [decode?, quartet?, final?, A.letter_ne_pad hd, hgroup, ih]

/-! ## What is accepted -/

/-- Whole groups; letters, and behind them at most two pads. -/
def Padded (s : List α) : Prop :=
  4 ∣ s.length ∧ ∃ body p, p ≤ 2 ∧ s = body ++ List.replicate p A.pad ∧ ∀ c ∈ body, c ∈ A.letters

variable {A}

theorem padded_nil : A.Padded [] := ⟨by simp, [], 0, by simp⟩

/-- A group that is not the last consists of letters. -/
theorem padded_cons {a b c d : α} {rest : List α} (hrest : rest ≠ []) :
    A.Padded (a :: b :: c :: d :: rest) ↔
      (a ∈ A.letters ∧ b ∈ A.letters ∧ c ∈ A.letters ∧ d ∈ A.letters) ∧ A.Padded rest := by
  have hpos := List.length_pos_of_ne_nil hrest
  constructor
  · rintro ⟨hlen, body, p, hp, hs, hbody⟩
    have hsize := congrArg List.length hs
    simp only [List.length_cons, List.length_append, List.length_replicate] at hlen hsize
    -- two pads cannot reach back over a whole group
    match body with
    | w :: x :: y :: z :: body =>
      simp only [List.cons_append, List.cons.injEq] at hs
      obtain ⟨rfl, rfl, rfl, rfl, rfl⟩ := hs
      simp only [List.mem_cons, forall_eq_or_imp] at hbody
      obtain ⟨ha, hb, hc, hd, hbody⟩ := hbody
      exact ⟨⟨ha, hb, hc, hd⟩, by omega, body, p, hp, rfl, hbody⟩
    | [] | [_] | [_, _] | [_, _, _] =>
      simp only [List.length_cons, List.length_nil] at hsize
      omega
  · rintro ⟨⟨ha, hb, hc, hd⟩, hlen, body, p, hp, rfl, hbody⟩
    refine ⟨?_, a :: b :: c :: d :: body, p, hp, rfl, ?_⟩
    · simp only [List.length_cons]
      omega
    · simpa only [List.mem_cons, forall_eq_or_imp] using ⟨ha, hb, hc, hd, hbody⟩

/-- The last group begins with two letters; the other two places are letters, or a letter and a pad,
or pads. -/
theorem padded_final {a b c d : α} :
    A.Padded [a, b, c, d] ↔ a ∈ A.letters ∧ b ∈ A.letters ∧
      (c ∈ A.letters ∧ d ∈ A.letters ∨ c ∈ A.letters ∧ d = A.pad ∨ c = A.pad ∧ d = A.pad) := by
  constructor
  · rintro ⟨-, body, p, hp, hs, hbody⟩
    match p, hp with
    | 0, _ =>
      rw [List.replicate_zero, List.append_nil] at hs
      subst hs
      simp only [List.mem_cons, List.not_mem_nil, or_false, forall_eq_or_imp, forall_eq] at hbody
      obtain ⟨ha, hb, hc, hd⟩ := hbody
      exact ⟨ha, hb, Or.inl ⟨hc, hd⟩⟩
    | 1, _ =>
      have hsplit : [a, b, c] ++ [d] = body ++ [A.pad] := hs
      obtain ⟨rfl, hd⟩ := List.append_inj' hsplit rfl
      simp only [List.mem_cons, List.not_mem_nil, or_false, forall_eq_or_imp, forall_eq] at hbody
      obtain ⟨ha, hb, hc⟩ := hbody
      exact ⟨ha, hb, Or.inr (Or.inl ⟨hc, List.singleton_inj.mp hd⟩)⟩
    | 2, _ =>
      have hsplit : [a, b] ++ [c, d] = body ++ [A.pad, A.pad] := hs
      obtain ⟨rfl, hpads⟩ := List.append_inj' hsplit rfl
      simp only [List.mem_cons, List.not_mem_nil, or_false, forall_eq_or_imp, forall_eq] at hbody
      obtain ⟨ha, hb⟩ := hbody
      simp only [List.cons.injEq, and_true] at hpads
      exact ⟨ha, hb, Or.inr (Or.inr hpads)⟩
  · rintro ⟨ha, hb, ⟨hc, hd⟩ | ⟨hc, rfl⟩ | ⟨rfl, rfl⟩⟩
    · exact ⟨by simp, [a, b, c, d], 0, by decide, rfl, by simp [ha, hb, hc, hd]⟩
    · exact ⟨by simp, [a, b, c], 1, by decide, rfl, by simp [ha, hb, hc]⟩
    · exact ⟨by simp, [a, b], 2, by decide, rfl, by simp [ha, hb]⟩

theorem group?_isSome {a b c d : α} :
    (A.group? a b c d).isSome = true ↔
      a ∈ A.letters ∧ b ∈ A.letters ∧ c ∈ A.letters ∧ d ∈ A.letters := by
  simp only [← value?_isSome, group?]
  cases A.value? a <;> cases A.value? b <;> cases A.value? c <;> cases A.value? d <;> simp

theorem final?_isSome {a b c d : α} :
    (A.final? a b c d).isSome = true ↔ A.Padded [a, b, c, d] := by
  rw [padded_final, final?]
  by_cases hd : d = A.pad
  · subst hd
    by_cases hc : c = A.pad
    · subst hc
      simp only [if_true, ← value?_isSome, value?_pad]
      cases A.value? a <;> cases A.value? b <;> simp
    · simp only [if_true, hc, if_false, ← value?_isSome, value?_pad]
      cases A.value? a <;> cases A.value? b <;> cases A.value? c <;> simp
  · rw [if_neg hd, group?_isSome]
    simp only [hd, and_false, or_false]

/-- One group more at the front. -/
theorem quartet?_isSome {a b c d : α} {rest : List α} :
    (A.quartet? rest.isEmpty a b c d).isSome = true ∧ A.Padded rest ↔
      A.Padded (a :: b :: c :: d :: rest) := by
  by_cases hrest : rest = []
  · subst hrest
    rw [quartet?, List.isEmpty_nil, if_pos rfl, final?_isSome, and_iff_left padded_nil]
  · rw [padded_cons hrest, quartet?, if_neg (by simpa using hrest), group?_isSome]

/-- **The decoder accepts the padded texts.** -/
theorem decode?_isSome (s : List α) : (A.decode? s).isSome = true ↔ A.Padded s := by
  fun_induction decode? A s with
  | case1 => simp [padded_nil]
  | case2 a b c d rest ih =>
    rw [← quartet?_isSome, ← ih]
    cases A.quartet? rest.isEmpty a b c d <;> cases A.decode? rest <;> simp
  | case3 s hnil hcons =>
    -- one, two or three characters are no whole group
    match s with
    | [] => exact absurd rfl hnil
    | [_] | [_, _] | [_, _, _] => simp [Padded]
    | a :: b :: c :: d :: rest => exact absurd rfl (hcons a b c d rest)

/-- Each group is three bytes, less one for each pad in it. -/
theorem length_of_quartet? {last : Bool} {a b c d : α} {g : List UInt8}
    (h : A.quartet? last a b c d = some g) : g.length + [a, b, c, d].count A.pad = 3 := by
  have hgroup : A.group? a b c d = some g → g.length + [a, b, c, d].count A.pad = 3 := by
    intro hg
    simp only [group?, Option.bind_eq_bind, Option.bind_eq_some_iff, Option.some.injEq] at hg
    obtain ⟨w, ha, x, hb, y, hc, z, hd, rfl⟩ := hg
    simp [three, ne_pad_of_value? A ha, ne_pad_of_value? A hb, ne_pad_of_value? A hc,
      ne_pad_of_value? A hd]
  unfold quartet? final? at h
  split at h
  next =>
    split at h
    next hd =>
      split at h
      next hc =>
        simp only [Option.bind_eq_bind, Option.bind_eq_some_iff, Option.some.injEq] at h
        obtain ⟨w, ha, x, hb, rfl⟩ := h
        simp [one, hc, hd, ne_pad_of_value? A ha, ne_pad_of_value? A hb]
      next hc =>
        simp only [Option.bind_eq_bind, Option.bind_eq_some_iff, Option.some.injEq] at h
        obtain ⟨w, ha, x, hb, y, -, rfl⟩ := h
        simp [two, hc, hd, ne_pad_of_value? A ha, ne_pad_of_value? A hb]
    next => exact hgroup h
  next => exact hgroup h

/-- **The length of an accepted text**: three bytes for four characters, less one for each pad. -/
theorem length_of_decode? {s : List α} {bs : List UInt8} (h : A.decode? s = some bs) :
    bs.length + s.count A.pad = 3 * s.length / 4 := by
  fun_induction decode? A s generalizing bs with
  | case1 =>
    cases h
    simp
  | case2 a b c d rest ih =>
    simp only [Option.bind_eq_some_iff, Option.map_eq_some_iff] at h
    obtain ⟨g, hg, gs, hgs, rfl⟩ := h
    have hfirst := length_of_quartet? hg
    have hrest := ih hgs
    have hcount : (a :: b :: c :: d :: rest).count A.pad =
        [a, b, c, d].count A.pad + rest.count A.pad := by
      rw [← List.count_append]
      rfl
    rw [List.length_append, hcount]
    simp only [List.length_cons]
    omega
  | case3 => cases h

end Alphabet

end Cfd.Base.Base64
