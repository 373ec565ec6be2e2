import Cfd.Base.Text

/-!
# Memory

Bytes by their addresses, with no end: a buffer is a range of them, and what stands behind it is
memory as well. So that a writer stays inside its buffer is a statement about the bytes outside.
-/

set_option autoImplicit false

namespace Cfd.Base

/-- The byte at each address. -/
abbrev Mem := Nat → UInt8

namespace Mem

/-- The `n` bytes from `off` on. -/
def load (mem : Mem) (off n : Nat) : Text := (List.range n).map fun i => mem (off + i)

/-- Write these bytes from `off` on. -/
def store (mem : Mem) (off : Nat) (s : Text) : Mem := fun i =>
  if off ≤ i then (s[i - off]?).getD (mem i) else mem i

variable (mem : Mem)

@[simp] theorem length_load (off n : Nat) : (mem.load off n).length = n := by
  rw [load, List.length_map, List.length_range]

theorem getElem?_load {off n i : Nat} (h : i < n) : (mem.load off n)[i]? = some (mem (off + i)) := by
  rw [load, List.getElem?_map, List.getElem?_range h, Option.map_some]

/-- A write leaves what is before it. -/
theorem store_of_lt {off i : Nat} (s : Text) (h : i < off) : mem.store off s i = mem i :=
  if_neg (Nat.not_le_of_lt h)

/-- A write leaves what is behind it. -/
theorem store_of_ge {off i : Nat} {s : Text} (h : off + s.length ≤ i) :
    mem.store off s i = mem i := by
  have hnone : s[i - off]? = none := List.getElem?_eq_none (by omega)
  rw [store, if_pos (by omega), hnone, Option.getD_none]

/-- What a range holds, byte by byte. -/
theorem load_eq_iff {off : Nat} {s : Text} :
    mem.load off s.length = s ↔ ∀ i (h : i < s.length), mem (off + i) = s[i] := by
  constructor
  · intro h i hi
    have hget : (mem.load off s.length)[i]? = some (mem (off + i)) := mem.getElem?_load hi
    rw [h, List.getElem?_eq_getElem hi, Option.some.injEq] at hget
    exact hget.symm
  · intro h
    apply List.ext_getElem?
    intro i
    by_cases hi : i < s.length
    · rw [mem.getElem?_load hi, List.getElem?_eq_getElem hi, h i hi]
    · rw [List.getElem?_eq_none (by rw [length_load]; omega), List.getElem?_eq_none (by omega)]

/-- Two writes one behind the other. -/
theorem store_append (off : Nat) (s t : Text) :
    mem.store off (s ++ t) = (mem.store off s).store (off + s.length) t := by
  funext i
  by_cases hbefore : i < off + s.length
  · rw [store_of_lt _ t hbefore]
    by_cases hoff : off ≤ i
    · rw [store, store, if_pos hoff, if_pos hoff, List.getElem?_append_left (by omega)]
    · rw [store, store, if_neg hoff, if_neg hoff]
  · have hskip : i - (off + s.length) = i - off - s.length := by omega
    rw [store, store, if_pos (by omega), if_pos (by omega), List.getElem?_append_right (by omega),
      hskip, store_of_ge mem (by omega)]

/-- Two writes of separate ranges can be exchanged. -/
theorem store_comm {off off' : Nat} {s t : Text} (h : off + s.length ≤ off') :
    (mem.store off' t).store off s = (mem.store off s).store off' t := by
  funext i
  by_cases hbehind : off + s.length ≤ i
  · rw [store_of_ge _ hbehind]
    change _ = (if off' ≤ i then (t[i - off']?).getD (mem.store off s i) else mem.store off s i)
    rw [store_of_ge mem hbehind]
    rfl
  · rw [store_of_lt (mem.store off s) t (by omega)]
    change (if off ≤ i then (s[i - off]?).getD (mem.store off' t i) else mem.store off' t i) = _
    rw [store_of_lt mem t (by omega)]
    rfl

/-! ## Buffers -/

/-- A zeroed buffer of `cap` bytes that begins with `s`, and the memory behind it. -/
def buffer (cap : Nat) (s : Text) (outside : Mem) : Mem := fun i =>
  if i < cap then (s[i]?).getD 0 else outside i

variable {cap : Nat} {outside : Mem}

/-- What the buffer begins with. -/
theorem load_buffer_front (outside : Mem) {s t : Text} (h : (s ++ t).length ≤ cap) :
    (buffer cap (s ++ t) outside).load 0 s.length = s := by
  rw [load_eq_iff]
  intro i hi
  rw [List.length_append] at h
  rw [buffer, Nat.zero_add, if_pos (by omega), List.getElem?_append_left hi,
    List.getElem?_eq_getElem hi, Option.getD_some]

/-- A write over the beginning. -/
theorem store_buffer_front {s s' : Text} (t : Text) (hlen : s'.length = s.length)
    (h : s.length ≤ cap) :
    (buffer cap (s ++ t) outside).store 0 s' = buffer cap (s' ++ t) outside := by
  funext i
  by_cases hi : i < s'.length
  · rw [store, if_pos (Nat.zero_le i), Nat.sub_zero, buffer, buffer, if_pos (by omega),
      if_pos (by omega), List.getElem?_append_left hi, List.getElem?_eq_getElem hi]
    rfl
  · rw [store_of_ge _ (by omega), buffer, buffer, List.getElem?_append_right (by omega),
      List.getElem?_append_right (by omega), hlen]

/-- A write behind what the buffer begins with: the bytes skipped are zero. -/
theorem store_buffer_back {s t : Text} {off : Nat} (hoff : s.length ≤ off)
    (h : off + t.length ≤ cap) :
    (buffer cap s outside).store off t =
      buffer cap (s ++ List.replicate (off - s.length) 0 ++ t) outside := by
  have hlen : (s ++ List.replicate (off - s.length) 0).length = off := by
    rw [List.length_append, List.length_replicate]
    omega
  funext i
  by_cases hfront : i < off
  · rw [store_of_lt _ _ hfront, buffer, buffer, List.getElem?_append_left (by omega)]
    by_cases hs : i < s.length
    · rw [List.getElem?_append_left hs]
    · rw [List.getElem?_append_right (by omega), List.getElem?_eq_none (by omega),
        List.getElem?_replicate_of_lt (by omega)]
      rfl
  · by_cases hback : i < off + t.length
    · rw [store, if_pos (by omega), buffer, buffer, if_pos (by omega), if_pos (by omega),
        List.getElem?_append_right (by omega), hlen, List.getElem?_eq_getElem (by omega)]
      rfl
    · rw [store_of_ge _ (by omega), buffer, buffer, List.getElem?_append_right (by omega), hlen,
        List.getElem?_eq_none (by omega), List.getElem?_eq_none (by omega)]

end Mem

end Cfd.Base
