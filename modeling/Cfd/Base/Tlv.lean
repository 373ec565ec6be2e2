import Cfd.Base.Text

/-!
# Aligned attribute sequences

An attribute is a head that holds its length and its type, and then its data. In a sequence every
head begins at a multiple of a unit, so zeros stand between one attribute and the next; none stand
behind the last one, and the length of the whole is not rounded up. A `Format` says how a head is
written and read.

`layout` is such a sequence, and `walk` is how a receiver goes through one: it stops where what is
left does not hold a head, or not the attribute that the head announces. **`walk_layout`** says that
the walk finds what was laid out, and `layout_snoc` that a sequence is extended at its end, by the
zeros that its length asks for and the new attribute.
-/

set_option autoImplicit false

namespace Cfd.Base.Tlv

/-- An attribute: its type and its data. -/
structure Attr (τ : Type) where
  type : τ
  data : Text
  deriving DecidableEq

/-- How heads are written: their length, the unit that they are aligned to, and the lengths of
attributes that they can hold. -/
structure Format (τ : Type) where
  headLen : Nat
  unit : Nat
  limit : Nat
  head : Nat → τ → Text
  readHead : Text → Nat × τ
  headLen_pos : 0 < headLen
  unit_pos : 0 < unit
  length_head : ∀ n t, (head n t).length = headLen
  readHead_head : ∀ {n : Nat} (t : τ) (s : Text), n < limit → readHead (head n t ++ s) = (n, t)

namespace Format

variable {τ : Type} (f : Format τ)

/-! ## Alignment -/

/-- The zeros that `n` bytes need behind them. -/
def pad (n : Nat) : Nat := (f.unit - n % f.unit) % f.unit

/-- The next multiple of the unit. -/
def align (n : Nat) : Nat := n + f.pad n

theorem le_align (n : Nat) : n ≤ f.align n := Nat.le_add_right n _

theorem dvd_align (n : Nat) : f.unit ∣ f.align n := by
  apply Nat.dvd_of_mod_eq_zero
  have hlt : n % f.unit < f.unit := Nat.mod_lt n f.unit_pos
  have hsum : n % f.unit + (f.unit - n % f.unit) = f.unit := by omega
  rw [align, pad, Nat.add_mod, Nat.mod_mod, ← Nat.add_mod, ← Nat.mod_add_mod, hsum, Nat.mod_self]

/-- What is aligned does not count for the padding behind it. -/
theorem pad_add {k : Nat} (hk : f.unit ∣ k) (n : Nat) : f.pad (k + n) = f.pad n := by
  obtain ⟨m, rfl⟩ := hk
  rw [pad, pad, Nat.mul_add_mod]

@[simp] theorem pad_zero : f.pad 0 = 0 := by
  rw [pad, Nat.zero_mod, Nat.sub_zero, Nat.mod_self]

/-! ## Laying out -/

/-- One attribute. -/
def encode (a : Attr τ) : Text := f.head (f.headLen + a.data.length) a.type ++ a.data

@[simp] theorem length_encode (a : Attr τ) : (f.encode a).length = f.headLen + a.data.length := by
  rw [encode, List.length_append, f.length_head]

/-- An attribute whose length its head can hold. -/
def Fits (a : Attr τ) : Prop := f.headLen + a.data.length < f.limit

/-- A sequence of attributes. -/
def layout : List (Attr τ) → Text
  | [] => []
  | [a] => f.encode a
  | a :: b :: as => f.encode a ++ List.replicate (f.pad (f.encode a).length) 0 ++ layout (b :: as)

/-- **A sequence is extended at its end.** -/
theorem layout_snoc (as : List (Attr τ)) (a : Attr τ) :
    f.layout (as ++ [a]) =
      f.layout as ++ List.replicate (f.pad (f.layout as).length) 0 ++ f.encode a := by
  induction as with
  | nil => simp [layout]
  | cons b as ih =>
    cases as with
    | nil => simp [layout]
    | cons c as =>
      -- the attribute in front takes up a multiple of the unit
      have hfront : f.unit ∣ (f.encode b ++ List.replicate (f.pad (f.encode b).length) 0).length := by
        rw [List.length_append, List.length_replicate]
        exact f.dvd_align _
      have hlen : f.pad (f.layout (b :: c :: as)).length = f.pad (f.layout (c :: as)).length := by
        rw [layout, List.length_append]
        exact f.pad_add hfront _
      rw [hlen, layout, List.cons_append, List.cons_append, layout, ← List.cons_append, ih]
      simp only [List.append_assoc]

/-! ## Walking -/

/-- Go through the first `len` bytes of `s`. -/
def walk (s : Text) (len : Nat) : List (Attr τ) :=
  if _h : f.headLen ≤ len ∧ f.headLen ≤ (f.readHead s).1 ∧ (f.readHead s).1 ≤ len then
    ⟨(f.readHead s).2, (s.drop f.headLen).take ((f.readHead s).1 - f.headLen)⟩ ::
      walk (s.drop (f.align (f.readHead s).1)) (len - f.align (f.readHead s).1)
  else []
termination_by len
decreasing_by
  have hpos := f.headLen_pos
  have hle := f.le_align (f.readHead s).1
  omega

/-- No walk where no head fits. -/
theorem walk_short (s : Text) {len : Nat} (h : len < f.headLen) : f.walk s len = [] := by
  rw [walk, dif_neg]
  intro hok
  exact Nat.not_le_of_lt h hok.1

/-- The walk over one attribute, and what is behind it. -/
theorem walk_encode {a : Attr τ} (ha : f.Fits a) (s : Text) {len : Nat}
    (hlen : (f.encode a).length ≤ len) :
    f.walk (f.encode a ++ s) len =
      a :: f.walk ((f.encode a ++ s).drop (f.align (f.encode a).length))
        (len - f.align (f.encode a).length) := by
  have hread : f.readHead (f.encode a ++ s) = (f.headLen + a.data.length, a.type) := by
    rw [encode, List.append_assoc, f.readHead_head _ _ ha]
  rw [length_encode] at hlen
  have hdata : ((f.encode a ++ s).drop f.headLen).take (f.headLen + a.data.length - f.headLen) =
      a.data := by
    rw [encode, List.append_assoc, List.drop_left' (f.length_head _ _),
      Nat.add_sub_cancel_left, List.take_left]
  rw [walk, hread, dif_pos ⟨by omega, Nat.le_add_right _ _, hlen⟩, hdata, length_encode]

/-- **The walk finds what was laid out**, whatever is behind it. -/
theorem walk_layout {as : List (Attr τ)} (has : ∀ a ∈ as, f.Fits a) (s : Text) :
    f.walk (f.layout as ++ s) (f.layout as).length = as := by
  induction as with
  | nil => exact f.walk_short _ f.headLen_pos
  | cons a as ih =>
    have ha : f.Fits a := has a List.mem_cons_self
    cases as with
    | nil =>
      have hdone : (f.encode a).length - f.align (f.encode a).length < f.headLen := by
        have hle := f.le_align (f.encode a).length
        have hpos := f.headLen_pos
        omega
      rw [layout, f.walk_encode ha s (Nat.le_refl _), f.walk_short _ hdone]
    | cons b as =>
      have hfront : (f.encode a ++ List.replicate (f.pad (f.encode a).length) 0).length =
          f.align (f.encode a).length := by
        rw [List.length_append, List.length_replicate, align]
      have hrest := ih fun c hc => has c (List.mem_cons_of_mem a hc)
      have hlen : (f.encode a).length ≤ (f.layout (a :: b :: as)).length := by
        rw [layout, List.length_append, List.length_append]
        omega
      have hsplit : f.layout (a :: b :: as) ++ s =
          f.encode a ++ (List.replicate (f.pad (f.encode a).length) 0 ++ (f.layout (b :: as) ++ s)) := by
        simp only [layout, List.append_assoc]
      rw [hsplit, f.walk_encode ha _ hlen, ← List.append_assoc (f.encode a), ← hfront, List.drop_left,
        layout, List.length_append, Nat.add_sub_cancel_left, hrest]

end Format

end Cfd.Base.Tlv
