import Mathlib.Data.List.Basic
import Mathlib.Data.List.Infix

/-!
# Binary prefix trees and longest-prefix match

`LastLongest` says which entry of a list a last-wins longest match selects. A prefix tree over bit
strings denotes a partial map from prefixes to values: `find` walks a prefix and reads the value at
its end. Two laws give it its purpose:

* `find_insert`: inserting at a prefix changes the map at that prefix and nowhere else, so what
  a list of insertions leaves at a prefix is the value inserted there last (`find_ofEntries`);
* `longest_eq_some`: `longest`, the walk along a whole key that keeps the last value it passes,
  answers the value at the longest prefix of the key that carries one.

`longest_ofEntries` and `longest_ofEntries_eq_none` compose the two: over a list of insertions,
longest-prefix match is decided by the entries that match the key, the longest of them, and the
last inserted of those.
-/

set_option autoImplicit false

namespace Cfd.Base

/-! ## The last of the longest -/

/-- `e` is the entry a last-wins longest match selects from a list: it matches, no entry before it
matches at a greater length, and every entry after it that matches is shorter. -/
def LastLongest {ι : Type} (es : List ι) (hits : ι → Prop) (len : ι → Nat) (e : ι) : Prop :=
  ∃ pre post, es = pre ++ e :: post ∧ hits e ∧
    (∀ e' ∈ pre, hits e' → len e' ≤ len e) ∧ (∀ e' ∈ post, hits e' → len e' < len e)

section LastLongest

variable {ι κ : Type} {hits : ι → Prop} {len : ι → Nat}

/-- Only the predicate on the list and the order of the lengths matter. -/
theorem lastLongest_congr {hits' : ι → Prop} {len' : ι → Nat} {es : List ι}
    (hhits : ∀ e ∈ es, hits e ↔ hits' e) (hlen : ∀ e e', len e ≤ len e' ↔ len' e ≤ len' e')
    (x : ι) : LastLongest es hits len x ↔ LastLongest es hits' len' x := by
  refine exists₂_congr fun pre post => and_congr_right ?_
  rintro rfl
  refine and_congr (hhits x (by simp)) (and_congr ?_ ?_)
  · refine forall₂_congr fun e he => ?_
    rw [hhits e (by simp [he]), hlen]
  · refine forall₂_congr fun e he => ?_
    rw [hhits e (by simp [he]), ← not_le, hlen, not_le]

/-- Selecting from an image is selecting from the list, with the predicate and the length pulled
back. -/
theorem lastLongest_map (f : κ → ι) (es : List κ) (x : ι) :
    LastLongest (es.map f) hits len x ↔
      ∃ e, f e = x ∧ LastLongest es (fun e => hits (f e)) (fun e => len (f e)) e := by
  constructor
  · rintro ⟨pre, post, heq, hm, hpre, hpost⟩
    obtain ⟨pre', tail, rfl, rfl, htail⟩ := List.map_eq_append_iff.mp heq
    obtain ⟨e, post', rfl, rfl, rfl⟩ := List.map_eq_cons_iff.mp htail
    refine ⟨e, rfl, pre', post', rfl, hm, fun e' he' => ?_, fun e' he' => ?_⟩
    · exact hpre (f e') (List.mem_map_of_mem he')
    · exact hpost (f e') (List.mem_map_of_mem he')
  · rintro ⟨e, rfl, pre, post, rfl, hm, hpre, hpost⟩
    refine ⟨pre.map f, post.map f, by simp, hm, fun e' he' => ?_, fun e' he' => ?_⟩
    · obtain ⟨e'', h, rfl⟩ := List.mem_map.mp he'
      exact hpre e'' h
    · obtain ⟨e'', h, rfl⟩ := List.mem_map.mp he'
      exact hpost e'' h

/-- Entries that cannot match have no influence on the selection. -/
theorem lastLongest_filter (keep : ι → Bool) (hkeep : ∀ e, hits e → keep e = true)
    (es : List ι) (x : ι) :
    LastLongest (es.filter keep) hits len x ↔ LastLongest es hits len x := by
  constructor
  · rintro ⟨pre, post, heq, hm, hpre, hpost⟩
    obtain ⟨pre', tail, rfl, rfl, htail⟩ := List.filter_eq_append_iff.mp heq
    obtain ⟨skip, post', rfl, hskip, -, rfl⟩ := List.filter_eq_cons_iff.mp htail
    refine ⟨pre' ++ skip, post', by simp, hm, fun e' he' hm' => ?_, fun e' he' hm' => ?_⟩
    · rcases List.mem_append.mp he' with h | h
      · exact hpre e' (List.mem_filter.mpr ⟨h, hkeep e' hm'⟩) hm'
      · exact absurd (hkeep e' hm') (hskip e' h)
    · exact hpost e' (List.mem_filter.mpr ⟨he', hkeep e' hm'⟩) hm'
  · rintro ⟨pre, post, rfl, hm, hpre, hpost⟩
    refine ⟨pre.filter keep, post.filter keep, ?_, hm, fun e' he' => ?_, fun e' he' => ?_⟩
    · rw [List.filter_append, List.filter_cons_of_pos (hkeep x hm)]
    · exact hpre e' (List.mem_filter.mp he').1
    · exact hpost e' (List.mem_filter.mp he').1

end LastLongest

/-! ## Prefix trees -/

/-- A binary tree that may carry a value at every node. -/
inductive PrefixTree (α : Type) : Type
  | leaf
  | node (zero one : PrefixTree α) (value : Option α)

namespace PrefixTree

variable {α : Type}

/-- The value at the root. -/
def root : PrefixTree α → Option α
  | leaf => none
  | node _ _ v => v

/-- The subtree one bit further on. -/
def child : Bool → PrefixTree α → PrefixTree α
  | _, leaf => leaf
  | false, node z _ _ => z
  | true, node _ o _ => o

/-- Put a value at the end of a prefix, building the path to it. -/
def insert : List Bool → α → PrefixTree α → PrefixTree α
  | [], v, t => node (t.child false) (t.child true) (some v)
  | false :: p, v, t => node ((t.child false).insert p v) (t.child true) t.root
  | true :: p, v, t => node (t.child false) ((t.child true).insert p v) t.root

/-- The value at the end of a prefix: the partial map the tree denotes. -/
def find : List Bool → PrefixTree α → Option α
  | [], t => t.root
  | b :: p, t => (t.child b).find p

/-- Walk a key to its end or to a leaf, keeping the last value passed. -/
def longestFrom : List Bool → PrefixTree α → Option α → Option α
  | [], t, best => t.root.or best
  | b :: key, t, best => (t.child b).longestFrom key (t.root.or best)

/-- Longest-prefix match. -/
def longest (key : List Bool) (t : PrefixTree α) : Option α := t.longestFrom key none

@[simp] theorem root_insert_nil (v : α) (t : PrefixTree α) : (t.insert [] v).root = some v := rfl

@[simp] theorem root_insert_cons (b : Bool) (p : List Bool) (v : α) (t : PrefixTree α) :
    (t.insert (b :: p) v).root = t.root := by
  cases b <;> rfl

@[simp] theorem child_insert_nil (b : Bool) (v : α) (t : PrefixTree α) :
    (t.insert [] v).child b = t.child b := by
  cases b <;> rfl

theorem child_insert_cons (b c : Bool) (p : List Bool) (v : α) (t : PrefixTree α) :
    (t.insert (b :: p) v).child c = if c = b then (t.child c).insert p v else t.child c := by
  cases b <;> cases c <;> rfl

@[simp] theorem find_leaf : ∀ p : List Bool, (leaf : PrefixTree α).find p = none
  | [] => rfl
  | _ :: p => find_leaf p

/-- **Insertion is an update of the denoted map.** -/
theorem find_insert (v : α) :
    ∀ (p q : List Bool) (t : PrefixTree α),
      (t.insert p v).find q = if q = p then some v else t.find q
  | [], [], _ => rfl
  | [], b :: q, t => by simp only [find, child_insert_nil, reduceCtorEq, if_false]
  | b :: p, [], t => by simp only [find, root_insert_cons, reduceCtorEq, if_false]
  | b :: p, c :: q, t => by
    simp only [find, child_insert_cons, List.cons.injEq]
    by_cases hc : c = b
    · simp only [hc, if_true, true_and, find_insert v p q]
    · simp only [hc, if_false, false_and]

/-! ## The walk -/

/-- The walk falls back on what it was given exactly when it passes no value. -/
theorem longestFrom_eq_or : ∀ (key : List Bool) (t : PrefixTree α) (best : Option α),
    t.longestFrom key best = (t.longest key).or best
  | [], t, best => by simp only [longest, longestFrom, Option.or_none]
  | b :: key, t, best => by
    simp only [longest, longestFrom, Option.or_none]
    rw [longestFrom_eq_or key, longestFrom_eq_or key (t.child b) t.root]
    exact (Option.or_assoc).symm

/-- One bit of the walk: a value further on wins over the value here. -/
theorem longest_cons (b : Bool) (key : List Bool) (t : PrefixTree α) :
    t.longest (b :: key) = ((t.child b).longest key).or t.root := by
  conv_lhs => simp only [longest, longestFrom, Option.or_none]
  exact longestFrom_eq_or key (t.child b) t.root

theorem longest_nil (t : PrefixTree α) : t.longest [] = t.root := by
  simp only [longest, longestFrom, Option.or_none]

/-- No prefix of the key carries a value exactly when the match fails. -/
theorem longest_eq_none : ∀ (key : List Bool) (t : PrefixTree α),
    t.longest key = none ↔ ∀ p, p <+: key → t.find p = none
  | [], t => by
    simp only [longest_nil, List.prefix_nil, forall_eq, find]
  | b :: key, t => by
    rw [longest_cons, Option.or_eq_none_iff, longest_eq_none key]
    constructor
    · rintro ⟨hchild, hroot⟩ p hp
      cases p with
      | nil => exact hroot
      | cons c p =>
        obtain ⟨rfl, htail⟩ := List.cons_prefix_cons.mp hp
        exact hchild p htail
    · intro h
      refine ⟨fun p hp => ?_, h [] List.nil_prefix⟩
      exact h (b :: p) (List.cons_prefix_cons.mpr ⟨rfl, hp⟩)

/-- **Longest-prefix match.** The answer is the value of the longest prefix of the key that
carries one. -/
theorem longest_eq_some (v : α) : ∀ (key : List Bool) (t : PrefixTree α),
    t.longest key = some v ↔
      ∃ p, p <+: key ∧ t.find p = some v ∧
        ∀ q, q <+: key → (t.find q).isSome → q.length ≤ p.length
  | [], t => by
    simp only [longest_nil, List.prefix_nil]
    constructor
    · intro h
      exact ⟨[], rfl, h, fun q hq _ => by rw [hq]⟩
    · rintro ⟨p, rfl, h, -⟩
      exact h
  | b :: key, t => by
    rw [longest_cons, Option.or_eq_some_iff, longest_eq_some v key, longest_eq_none]
    constructor
    · rintro (⟨p, hp, hv, hmax⟩ | ⟨hnone, hroot⟩)
      · refine ⟨b :: p, List.cons_prefix_cons.mpr ⟨rfl, hp⟩, hv, fun q hq hs => ?_⟩
        cases q with
        | nil => exact Nat.zero_le _
        | cons c q =>
          obtain ⟨rfl, htail⟩ := List.cons_prefix_cons.mp hq
          exact Nat.succ_le_succ (hmax q htail hs)
      · refine ⟨[], List.nil_prefix, hroot, fun q hq hs => ?_⟩
        cases q with
        | nil => exact Nat.le_refl _
        | cons c q =>
          obtain ⟨rfl, htail⟩ := List.cons_prefix_cons.mp hq
          rw [find, hnone q htail] at hs
          cases hs
    · rintro ⟨p, hp, hv, hmax⟩
      cases p with
      | nil =>
        refine Or.inr ⟨fun q hq => ?_, hv⟩
        cases hf : (t.child b).find q with
        | none => rfl
        | some w =>
          have := hmax (b :: q) (List.cons_prefix_cons.mpr ⟨rfl, hq⟩) (by rw [find, hf]; rfl)
          simp at this
      | cons c p =>
        obtain ⟨rfl, htail⟩ := List.cons_prefix_cons.mp hp
        refine Or.inl ⟨p, htail, hv, fun q hq hs => ?_⟩
        exact Nat.le_of_succ_le_succ
          (hmax (c :: q) (List.cons_prefix_cons.mpr ⟨rfl, hq⟩) hs)

/-- Trees that denote the same map answer alike. -/
theorem longest_congr : ∀ (key : List Bool) {t t' : PrefixTree α},
    (∀ p, t.find p = t'.find p) → t.longest key = t'.longest key
  | [], t, t', h => by rw [longest_nil, longest_nil]; exact h []
  | b :: key, t, t', h => by
    rw [longest_cons, longest_cons, longest_congr key fun p => h (b :: p)]
    exact congrArg _ (h [])

/-! ## A list of insertions -/

/-- The tree after inserting the entries in order into `t`. -/
def insertAll (es : List (List Bool × α)) (t : PrefixTree α) : PrefixTree α :=
  es.foldl (fun t e => t.insert e.1 e.2) t

/-- The same insertions keep the denoted maps equal. -/
theorem find_insertAll_congr : ∀ (es : List (List Bool × α)) {t t' : PrefixTree α},
    (∀ p, t.find p = t'.find p) → ∀ p, (t.insertAll es).find p = (t'.insertAll es).find p
  | [], _, _, h => h
  | e :: es, t, t', h => find_insertAll_congr es fun p => by rw [find_insert, find_insert, h p]

/-- The tree after inserting the entries in order into an empty tree. -/
def ofEntries (es : List (List Bool × α)) : PrefixTree α := leaf.insertAll es

theorem ofEntries_concat (es : List (List Bool × α)) (e : List Bool × α) :
    ofEntries (es ++ [e]) = (ofEntries es).insert e.1 e.2 := by
  simp only [ofEntries, insertAll, List.foldl_append, List.foldl_cons, List.foldl_nil]

/-- A prefix carries no value exactly when no entry has it. -/
theorem find_ofEntries_eq_none (es : List (List Bool × α)) (p : List Bool) :
    (ofEntries es).find p = none ↔ ∀ e ∈ es, e.1 ≠ p := by
  induction es using List.reverseRecOn with
  | nil => simp [ofEntries, insertAll]
  | append_singleton es e ih =>
    rw [ofEntries_concat, find_insert]
    by_cases hp : p = e.1
    · simp only [hp, if_true, reduceCtorEq, false_iff, not_forall]
      exact ⟨e, by simp, by simp⟩
    · simp only [hp, if_false, ih, List.mem_append, List.mem_singleton]
      constructor
      · rintro h e' (he' | rfl)
        · exact h e' he'
        · exact fun heq => hp heq.symm
      · exact fun h e' he' => h e' (Or.inl he')

/-- **The last insertion at a prefix is the one that stands.** -/
theorem find_ofEntries (es : List (List Bool × α)) (p : List Bool) (v : α) :
    (ofEntries es).find p = some v ↔
      ∃ pre post, es = pre ++ (p, v) :: post ∧ ∀ e ∈ post, e.1 ≠ p := by
  induction es using List.reverseRecOn with
  | nil => simp [ofEntries, insertAll]
  | append_singleton es e ih =>
    rw [ofEntries_concat, find_insert]
    by_cases hp : p = e.1
    · simp only [hp, if_true, Option.some.injEq]
      constructor
      · rintro rfl
        exact ⟨es, [], rfl, by simp⟩
      · rintro ⟨pre, post, heq, hpost⟩
        rcases List.eq_nil_or_concat post with rfl | ⟨post', last, rfl⟩
        · have := (List.append_inj' heq rfl).2
          simp only [List.cons.injEq, and_true] at this
          rw [this]
        · have heq' : es ++ [e] = (pre ++ (e.1, v) :: post') ++ [last] := by
            rw [heq]; simp [List.concat_eq_append]
          have hlast := (List.append_inj' heq' rfl).2
          simp only [List.cons.injEq, and_true] at hlast
          exact absurd (congrArg Prod.fst hlast.symm) (hpost last (by simp))
    · simp only [hp, if_false, ih]
      constructor
      · rintro ⟨pre, post, rfl, hpost⟩
        refine ⟨pre, post ++ [e], by simp, fun e' he' => ?_⟩
        rcases List.mem_append.mp he' with h | h
        · exact hpost e' h
        · rw [List.mem_singleton.mp h]
          exact fun heq => hp heq.symm
      · rintro ⟨pre, post, heq, hpost⟩
        rcases List.eq_nil_or_concat post with rfl | ⟨post', last, rfl⟩
        · have := (List.append_inj' heq rfl).2
          simp only [List.cons.injEq, and_true] at this
          exact absurd (by rw [this]) hp
        · have heq' : es ++ [e] = (pre ++ (p, v) :: post') ++ [last] := by
            rw [heq]; simp [List.concat_eq_append]
          obtain ⟨rfl, -⟩ := List.append_inj' heq' rfl
          exact ⟨pre, post', rfl, fun e' he' => hpost e' (by simp [he'])⟩

/-- Longest-prefix match over a list of insertions fails exactly when no entry matches. -/
theorem longest_ofEntries_eq_none (es : List (List Bool × α)) (key : List Bool) :
    (ofEntries es).longest key = none ↔ ∀ e ∈ es, ¬ e.1 <+: key := by
  simp only [longest_eq_none, find_ofEntries_eq_none]
  constructor
  · exact fun h e he hp => h e.1 hp e he rfl
  · rintro h p hp e he rfl
    exact h e he hp

/-- **Longest-prefix match over a list of insertions**: the answer is the value of the matching
entry of greatest length, and of the last inserted one among those of that length. -/
theorem longest_ofEntries (es : List (List Bool × α)) (key : List Bool) (v : α) :
    (ofEntries es).longest key = some v ↔
      ∃ p, LastLongest es (fun e => e.1 <+: key) (fun e => e.1.length) (p, v) := by
  rw [longest_eq_some]
  constructor
  · rintro ⟨p, hp, hfind, hmax⟩
    obtain ⟨pre, post, rfl, hpost⟩ := (find_ofEntries es p v).mp hfind
    -- an entry that matches the key carries a value at its prefix, so `hmax` bounds its length
    have hle : ∀ e ∈ pre ++ (p, v) :: post, e.1 <+: key → e.1.length ≤ p.length := by
      intro e he hek
      refine hmax e.1 hek (Option.ne_none_iff_isSome.mp fun hnone => ?_)
      exact (find_ofEntries_eq_none _ _).mp hnone e he rfl
    refine ⟨p, pre, post, rfl, hp, fun e he => hle e (by simp [he]), fun e he hek => ?_⟩
    refine lt_of_le_of_ne (hle e (by simp [he]) hek) fun hlen => hpost e he ?_
    exact (List.prefix_of_prefix_length_le hek hp hlen.le).eq_of_length hlen
  · rintro ⟨p, pre, post, rfl, hp, hpre, hpost⟩
    refine ⟨p, hp, (find_ofEntries _ _ _).mpr ⟨pre, post, rfl, fun e he heq => ?_⟩, ?_⟩
    · have hlt : e.1.length < p.length := hpost e he (heq.symm ▸ hp :)
      rw [heq] at hlt
      exact lt_irrefl _ hlt
    · intro q hq hs
      obtain ⟨w, hw⟩ := Option.isSome_iff_exists.mp hs
      obtain ⟨pre', post', heq, -⟩ := (find_ofEntries _ _ _).mp hw
      have hmem : (q, w) ∈ pre ++ (p, v) :: post := by rw [heq]; simp
      rcases List.mem_append.mp hmem with h | h
      · exact hpre _ h hq
      · rcases List.mem_cons.mp h with h | h
        · rw [(Prod.mk.inj h).1]
        · exact (hpost _ h hq).le

end PrefixTree

end Cfd.Base
