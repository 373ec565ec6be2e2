import Cfd.Util.UniqueFd

/-!
# Descriptors are closed once

What holds in the runs of `Cfd.Util.UniqueFd`.

`Sound` ties what the objects hold to what they keep. The parts that the operations are made of (an
object closes what it holds, takes something, hands over, gives back) keep it one by one, and a step
is made of them.

* `closed_once`: an open descriptor with a keeper is held by exactly one object; `close` is called
  on numbers that stand for what the caller is the keeper of; and when no object is left, each
  descriptor that was given and not released has been closed exactly once.
* `keeper_given`, `keeper_lost`: who is a keeper. What an object is given, it keeps, and nothing but
  a release of its number leaves a descriptor without a keeper.
-/

set_option autoImplicit false

namespace Cfd.Util.Descriptors

open Cfd.Base

variable {ι : Type} [DecidableEq ι]

/-! ## What holds between the operations -/

/-- An object that holds a number is the keeper of what the number stands for, and a keeper holds
the number of what it keeps. -/
structure Sound (s : State ι) : Prop where
  nonneg : ∀ k d, s.table.lookup k = some d → 0 ≤ k
  held : ∀ o u, s.objs o = some u →
    u.fd < 0 ∨ ∃ d, s.table.lookup u.fd = some d ∧ s.keeper d = some o
  kept : ∀ k d o, s.table.lookup k = some d → s.keeper d = some o → s.objs o = some ⟨k⟩
  fresh : ∀ d, s.table.next ≤ d → s.keeper d = none

/-- The object is gone, or holds none. -/
def State.Idle (s : State ι) (o : ι) : Prop := ∀ u, s.objs o = some u → u.fd < 0

namespace Sound

variable {s : State ι} {o src : ι}

omit [DecidableEq ι] in
/-- What an idle object keeps has been closed. -/
theorem not_kept (hs : Sound s) (ho : s.Idle o) {k : Int} {d : Nat}
    (hlook : s.table.lookup k = some d) : s.keeper d ≠ some o := by
  intro hkeep
  have hneg : k < 0 := ho ⟨k⟩ (hs.kept k d o hlook hkeep)
  exact absurd (hs.nonneg k d hlook) (Int.not_le.mpr hneg)

omit [DecidableEq ι] in
theorem osOpen (hs : Sound s) {k : Int} (hk : 0 ≤ k) (hfree : s.table.lookup k = none) :
    Sound { s with table := s.table.bind k } := by
  refine ⟨?_, ?_, ?_, ?_⟩
  · intro k' d hlook
    rcases NameTable.lookup_bind.mp hlook with ⟨rfl, -⟩ | ⟨-, hold⟩
    · exact hk
    · exact hs.nonneg k' d hold
  · intro o u hu
    refine (hs.held o u hu).imp_right fun ⟨d, hlook, hkeep⟩ => ⟨d, ?_, hkeep⟩
    refine NameTable.lookup_bind.mpr (Or.inr ⟨?_, hlook⟩)
    intro heq
    subst heq
    exact nomatch hfree.symm.trans hlook
  · intro k' d o hlook hkeep
    rcases NameTable.lookup_bind.mp hlook with ⟨-, rfl⟩ | ⟨-, hold⟩
    · exact nomatch (hs.fresh _ (Nat.le_refl _)).symm.trans hkeep
    · exact hs.kept k' d o hold hkeep
  · intro d hd
    exact hs.fresh d (Nat.le_of_succ_le hd)

omit [DecidableEq ι] in
theorem osClose (hs : Sound s) {k : Int} {d : Nat} (hlook : s.table.lookup k = some d)
    (hnone : s.keeper d = none) : Sound (s.close (some k)) := by
  refine ⟨?_, ?_, ?_, hs.fresh⟩
  · intro k' d' hlook'
    exact hs.nonneg k' d' (NameTable.lookup_unbind.mp hlook').2
  · intro o u hu
    refine (hs.held o u hu).imp_right fun ⟨d', hlook', hkeep⟩ => ⟨d', ?_, hkeep⟩
    refine NameTable.lookup_unbind.mpr ⟨?_, hlook'⟩
    intro heq
    subst heq
    cases hlook.symm.trans hlook'
    exact nomatch hnone.symm.trans hkeep
  · intro k' d' o hlook' hkeep
    exact hs.kept k' d' o (NameTable.lookup_unbind.mp hlook').2 hkeep

/-- An idle object is replaced by another, by a new one, or by none. -/
theorem put_idle (hs : Sound s) (ho : s.Idle o) {x : Option UniqueFd}
    (hx : ∀ u, x = some u → u.fd < 0) : Sound (s.put o x) := by
  refine ⟨hs.nonneg, ?_, ?_, hs.fresh⟩
  · intro o' u hu
    rcases State.objs_put hu with ⟨-, hnew⟩ | ⟨-, hold⟩
    · exact Or.inl (hx u hnew)
    · exact hs.held o' u hold
  · intro k d o' hlook hkeep
    have hne : o' ≠ o := by
      intro heq
      subst heq
      exact hs.not_kept ho hlook hkeep
    exact (State.objs_put_of_ne hne x).trans (hs.kept k d o' hlook hkeep)

/-- An object closes what it holds. -/
theorem shut (hs : Sound s) {u : UniqueFd} (ho : s.objs o = some u) :
    Sound ((s.close (u.reset (-1)).1).put o (some ⟨-1⟩)) := by
  have hnone : (⟨-1⟩ : UniqueFd).fd < 0 := by decide
  rcases hs.held o u ho with hneg | ⟨d, hlook, hkeep⟩
  · have hclose : (u.reset (-1)).1 = none := if_neg fun h => absurd h.1 (Int.not_le.mpr hneg)
    rw [hclose]
    refine hs.put_idle (fun v hv => ?_) fun v hv => ?_
    · cases ho.symm.trans hv
      exact hneg
    · cases hv
      exact hnone
  · have hpos := hs.nonneg _ _ hlook
    have hclose : (u.reset (-1)).1 = some u.fd := if_pos ⟨hpos, by omega⟩
    rw [hclose]
    refine ⟨?_, ?_, ?_, hs.fresh⟩
    · intro k d' hlook'
      exact hs.nonneg k d' (NameTable.lookup_unbind.mp hlook').2
    · intro o' v hv
      rcases State.objs_put hv with ⟨-, hnew⟩ | ⟨hne, hold⟩
      · cases hnew
        exact Or.inl hnone
      · refine (hs.held o' v hold).imp_right fun ⟨d', hlook', hkeep'⟩ => ⟨d', ?_, hkeep'⟩
        refine NameTable.lookup_unbind.mpr ⟨fun heq => ?_, hlook'⟩
        rw [heq] at hlook'
        cases hlook.symm.trans hlook'
        exact hne (Option.some.inj (hkeep'.symm.trans hkeep))
    · intro k d' o' hlook' hkeep'
      obtain ⟨hne, hlook'⟩ := NameTable.lookup_unbind.mp hlook'
      have hobj := hs.kept k d' o' hlook' hkeep'
      have hneo : o' ≠ o := by
        intro heq
        subst heq
        cases ho.symm.trans hobj
        exact hne rfl
      exact (State.objs_put_of_ne hneo _).trans hobj

/-- An idle object comes to hold a descriptor that no object keeps. -/
theorem take (hs : Sound s) (ho : s.Idle o) {k : Int} (hk : s.offered k = true) :
    Sound ((s.put o (some ⟨k⟩)).give o k) := by
  rcases State.offered_iff.mp hk with hneg | ⟨d, hlook, hnone⟩
  · have hfree : (s.put o (some ⟨k⟩)).table.lookup k = none := by
      apply Option.eq_none_iff_forall_ne_some.mpr
      intro d hlook
      exact absurd (hs.nonneg k d hlook) (Int.not_le.mpr hneg)
    have hgive : (s.put o (some ⟨k⟩)).give o k = s.put o (some ⟨k⟩) := by
      unfold State.give
      rw [hfree]
    rw [hgive]
    apply hs.put_idle ho
    intro u hu
    cases hu
    exact hneg
  · have hnew : ((s.put o (some ⟨k⟩)).give o k).keeper d = some o := State.keeper_give_self hlook
    have hsame : ∀ d', d' ≠ d → ((s.put o (some ⟨k⟩)).give o k).keeper d' = s.keeper d' := by
      intro d' hne
      refine State.keeper_give_of_ne fun hlook' => hne ?_
      exact Option.some.inj (hlook'.symm.trans hlook)
    refine ⟨?_, ?_, ?_, ?_⟩
    · rw [State.table_give]
      exact hs.nonneg
    · intro o' u hu
      rw [State.objs_give] at hu
      rw [State.table_give]
      rcases State.objs_put hu with ⟨rfl, heq⟩ | ⟨hne, hold⟩
      · cases heq
        exact Or.inr ⟨d, hlook, hnew⟩
      · refine (hs.held o' u hold).imp_right fun ⟨d', hlook', hkeep'⟩ => ⟨d', hlook', ?_⟩
        rw [hsame d' ?_]
        · exact hkeep'
        · intro heq
          subst heq
          exact nomatch hnone.symm.trans hkeep'
    · intro k' d' o' hlook' hkeep'
      rw [State.table_give] at hlook'
      rw [State.objs_give]
      by_cases hd : d' = d
      · subst hd
        cases hnew.symm.trans hkeep'
        rw [State.objs_put_self, s.table.inj _ _ _ hlook' hlook]
      · rw [hsame d' hd] at hkeep'
        have hne : o' ≠ o := by
          intro heq
          subst heq
          exact hs.not_kept ho hlook' hkeep'
        exact (State.objs_put_of_ne hne _).trans (hs.kept k' d' o' hlook' hkeep')
    · intro d' hd'
      rw [State.table_give] at hd'
      rw [hsame d' ?_]
      · exact hs.fresh d' hd'
      · intro heq
        subst heq
        exact absurd (s.table.lt k d' hlook) (Nat.not_lt.mpr hd')

/-- An idle object gets what another one holds, which is idle afterwards. -/
theorem pass (hs : Sound s) (ho : s.Idle o) (hne : o ≠ src) {v : UniqueFd}
    (hsrc : s.objs src = some v) :
    Sound (((s.put o (some ⟨v.fd⟩)).put src (some ⟨-1⟩)).pass src o) := by
  have hobjs : ∀ o' u, ((s.put o (some ⟨v.fd⟩)).put src (some ⟨-1⟩)).objs o' = some u →
      (o' = src ∧ u = ⟨-1⟩) ∨ (o' = o ∧ u = ⟨v.fd⟩) ∨ (o' ≠ src ∧ o' ≠ o ∧ s.objs o' = some u) := by
    intro o' u hu
    rcases State.objs_put hu with ⟨rfl, heq⟩ | ⟨hne', hu⟩
    · exact Or.inl ⟨rfl, (Option.some.inj heq).symm⟩
    · rcases State.objs_put hu with ⟨rfl, heq⟩ | ⟨hne'', hold⟩
      · exact Or.inr (Or.inl ⟨rfl, (Option.some.inj heq).symm⟩)
      · exact Or.inr (Or.inr ⟨hne', hne'', hold⟩)
  refine ⟨hs.nonneg, ?_, ?_, ?_⟩
  · intro o' u hu
    change u.fd < 0 ∨ ∃ d, s.table.lookup u.fd = some d ∧
      (if s.keeper d = some src then some o else s.keeper d) = some o'
    rcases hobjs o' u hu with ⟨-, rfl⟩ | ⟨rfl, rfl⟩ | ⟨hnsrc, -, hold⟩
    · exact Or.inl (by decide)
    · refine (hs.held src v hsrc).imp_right fun ⟨d, hlook, hkeep⟩ => ⟨d, hlook, ?_⟩
      rw [if_pos hkeep]
    · refine (hs.held o' u hold).imp_right fun ⟨d, hlook, hkeep⟩ => ⟨d, hlook, ?_⟩
      rw [if_neg, hkeep]
      intro hkeep'
      exact hnsrc (Option.some.inj (hkeep.symm.trans hkeep'))
  · intro k d o' hlook hkeep
    change (if s.keeper d = some src then some o else s.keeper d) = some o' at hkeep
    change ((s.put o (some ⟨v.fd⟩)).put src (some ⟨-1⟩)).objs o' = some ⟨k⟩
    split at hkeep
    next hkept =>
      cases hkeep
      cases hsrc.symm.trans (hs.kept k d src hlook hkept)
      rw [State.objs_put_of_ne hne, State.objs_put_self]
    next hnot =>
      have hno : o' ≠ o := by
        intro heq
        subst heq
        exact hs.not_kept ho hlook hkeep
      have hnsrc : o' ≠ src := by
        intro heq
        subst heq
        exact hnot hkeep
      rw [State.objs_put_of_ne hnsrc, State.objs_put_of_ne hno]
      exact hs.kept k d o' hlook hkeep
  · intro d hd
    change (if s.keeper d = some src then some o else s.keeper d) = none
    rw [hs.fresh d hd]
    rfl

/-- An object gives back what it holds. -/
theorem release (hs : Sound s) {u : UniqueFd} (ho : s.objs o = some u) :
    Sound ((s.put o (some ⟨-1⟩)).letGo u.fd) := by
  have hsame : ∀ d, s.table.lookup u.fd ≠ some d →
      ((s.put o (some ⟨-1⟩)).letGo u.fd).keeper d = s.keeper d :=
    fun d hne => State.keeper_letGo_of_ne hne
  have hself : ∀ d, s.table.lookup u.fd = some d →
      ((s.put o (some ⟨-1⟩)).letGo u.fd).keeper d = none :=
    fun d hlook => State.keeper_letGo_self hlook
  refine ⟨?_, ?_, ?_, ?_⟩
  · rw [State.table_letGo]
    exact hs.nonneg
  · intro o' v hv
    rw [State.objs_letGo] at hv
    rw [State.table_letGo]
    rcases State.objs_put hv with ⟨-, heq⟩ | ⟨hne, hold⟩
    · cases heq
      exact Or.inl (by decide)
    · refine (hs.held o' v hold).imp_right fun ⟨d, hlook, hkeep⟩ => ⟨d, hlook, ?_⟩
      rw [hsame d ?_]
      · exact hkeep
      · intro hlook'
        have hobj := hs.kept _ _ _ hlook' hkeep
        rcases hs.held o u ho with hneg | ⟨d', hheld, hkeep'⟩
        · exact absurd (hs.nonneg _ _ hlook') (Int.not_le.mpr hneg)
        · cases hlook'.symm.trans hheld
          exact hne (Option.some.inj (hkeep.symm.trans hkeep'))
  · intro k d o' hlook hkeep
    rw [State.table_letGo] at hlook
    rw [State.objs_letGo]
    by_cases hlet : s.table.lookup u.fd = some d
    · rw [hself d hlet] at hkeep
      cases hkeep
    · rw [hsame d hlet] at hkeep
      have hne : o' ≠ o := by
        intro heq
        subst heq
        cases ho.symm.trans (hs.kept k d o' hlook hkeep)
        exact hlet hlook
      exact (State.objs_put_of_ne hne _).trans (hs.kept k d o' hlook hkeep)
  · intro d hd
    rw [State.table_letGo] at hd
    rw [hsame d fun hlook => absurd (s.table.lt _ d hlook) (Nat.not_lt.mpr hd)]
    exact hs.fresh d hd

end Sound

/-! ## A step is made of them -/

/-- To reset an object to the number it holds changes nothing. -/
theorem Sound.reset_held {s : State ι} (hs : Sound s) {o : ι} {u : UniqueFd}
    (ho : s.objs o = some u) :
    (((s.close (u.reset u.fd).1).put o (some ⟨u.fd⟩)).give o u.fd) = s := by
  have hclose : (u.reset u.fd).1 = none := if_neg fun h => h.2 rfl
  have hput : s.put o (some ⟨u.fd⟩) = s := by
    rw [State.put, ← ho, Function.update_eq_self]
  rw [hclose, State.close, hput]
  unfold State.give
  split
  next d hlook =>
    rcases hs.held o u ho with hneg | ⟨d', hlook', hkeep⟩
    · exact absurd (hs.nonneg _ _ hlook) (Int.not_le.mpr hneg)
    · cases hlook.symm.trans hlook'
      rw [← hkeep, Function.update_eq_self]
  next => rfl

/-- What was there to be given is so after an object has closed another number. -/
theorem State.offered_shut {s : State ι} {o : ι} {u : UniqueFd} {fd : Int} (hne : u.fd ≠ fd)
    (hfd : s.offered fd = true) :
    ((s.close (u.reset (-1)).1).put o (some ⟨-1⟩)).offered fd = true := by
  refine offered_iff.mpr ((offered_iff.mp hfd).imp_right fun ⟨d, hlook, hnone⟩ => ⟨d, ?_, ?_⟩)
  · unfold UniqueFd.reset
    split
    next => exact NameTable.lookup_unbind.mpr ⟨hne.symm, hlook⟩
    next => exact hlook
  · change (s.close (u.reset (-1)).1).keeper d = none
    rw [State.keeper_close]
    exact hnone

theorem Sound.step {s s' : State ι} {a : Act ι} (hs : Sound s) (hmove : Moves s a s') :
    Sound s' := by
  cases hmove with
  | osOpen hk hfree => exact hs.osOpen hk hfree
  | osClose hlook hnone => exact hs.osClose hlook hnone
  | construct ho hfd =>
    refine hs.take (fun u hu => ?_) hfd
    cases ho.symm.trans hu
  | @moveConstruct o src v ho hsrc =>
    refine hs.pass (fun u hu => ?_) ?_ hsrc
    · cases ho.symm.trans hu
    · intro heq
      subst heq
      cases ho.symm.trans hsrc
  | selfAssign => exact hs
  | @moveAssign o src u v hne ho hsrc =>
    have hdiff : u.fd ≠ v.fd ∨ u.fd < 0 := by
      rcases hs.held o u ho with hneg | ⟨d, hlook, hkeep⟩
      · exact Or.inr hneg
      · refine Or.inl fun heq => hne ?_
        rcases hs.held src v hsrc with hneg | ⟨d', hlook', hkeep'⟩
        · exact absurd (hs.nonneg _ _ hlook) (by omega)
        · rw [heq] at hlook
          cases hlook.symm.trans hlook'
          exact Option.some.inj (hkeep.symm.trans hkeep')
    rw [UniqueFd.reset_fst hdiff, ← State.put_put (o := o) (some ⟨-1⟩) (some ⟨v.fd⟩)]
    refine (hs.shut ho).pass (fun w hw => ?_) hne ?_
    · rw [State.objs_put_self] at hw
      cases hw
      decide
    · rw [State.objs_put_of_ne hne.symm, State.objs_close]
      exact hsrc
  | @reset o fd u ho hfd =>
    by_cases hsame : u.fd = fd
    · subst hsame
      rw [hs.reset_held ho]
      exact hs
    · have hoffered := hfd.resolve_left (Ne.symm hsame)
      rw [UniqueFd.reset_fst (Or.inl hsame), ← State.put_put (some ⟨-1⟩)]
      refine (hs.shut ho).take (fun w hw => ?_) (State.offered_shut hsame hoffered)
      rw [State.objs_put_self] at hw
      cases hw
      decide
  | release ho => exact hs.release ho
  | @destroy o u ho =>
    rw [← State.put_put (some ⟨-1⟩)]
    refine (hs.shut ho).put_idle (fun w hw => ?_) fun w hw => ?_
    · rw [State.objs_put_self] at hw
      cases hw
      decide
    · cases hw

theorem sound {guard : State ι → Act ι → Prop} {s : State ι} (h : (process ι).Reach guard s) :
    Sound s := by
  refine h.invariant ⟨?_, ?_, ?_, ?_⟩ fun _ _ _ _ _ hstep hs => hs.step (step_moves hstep)
  · intro k d hlook
    cases hlook
  · intro o u hu
    cases hu
  · intro k d o hlook
    cases hlook
  · intro d _
    rfl

/-! ## What is closed, and how often -/

/-- `close` is called by an object with the number it holds. -/
theorem closes_held {s : State ι} {a : Act ι} {x : ι × Int} (h : closes s a = some x) :
    ∃ u, s.objs x.1 = some u ∧ x.2 = u.fd ∧ 0 ≤ u.fd := by
  have hreset : ∀ (o : ι) (u : UniqueFd) (fd : Int), s.objs o = some u →
      (u.reset fd).1.map (Prod.mk o) = some x →
        ∃ u, s.objs x.1 = some u ∧ x.2 = u.fd ∧ 0 ≤ u.fd := by
    intro o u fd hu hmap
    obtain ⟨k, hk, rfl⟩ := Option.map_eq_some_iff.mp hmap
    obtain ⟨hpos, heq⟩ := Option.ite_none_right_eq_some.mp hk
    exact ⟨u, hu, (Option.some.inj heq).symm, hpos.1⟩
  cases a with
  | moveAssign o src =>
    simp only [closes] at h
    split at h
    next u v hu _ =>
      split at h
      next => cases h
      next => exact hreset o u v.fd hu h
    next => cases h
  | reset o fd =>
    obtain ⟨u, hu, hmap⟩ := Option.bind_eq_some_iff.mp h
    exact hreset o u fd hu hmap
  | destroy o =>
    obtain ⟨u, hu, hmap⟩ := Option.bind_eq_some_iff.mp h
    exact hreset o u (-1) hu hmap
  | _ => cases h

/-- Its number stands for what it is the keeper of. -/
theorem Sound.closes {s : State ι} (hs : Sound s) {a : Act ι} {x : ι × Int}
    (h : closes s a = some x) : ∃ d, s.table.lookup x.2 = some d ∧ s.keeper d = some x.1 := by
  obtain ⟨u, hu, hfd, hpos⟩ := closes_held h
  rw [hfd]
  exact (hs.held x.1 u hu).resolve_left (Int.not_lt.mpr hpos)

/-- What becomes of the table: what is closed is what `closes` says, unless the rest of the process
opens or closes a descriptor. -/
theorem Moves.table {s s' : State ι} {a : Act ι} (h : Moves s a s') :
    s'.table = (s.close ((closes s a).map Prod.snd)).table ∨
    (closes s a = none ∧ ∃ k, s.table.lookup k = none ∧ s'.table = s.table.bind k) ∨
    (closes s a = none ∧ ∃ k d, s.table.lookup k = some d ∧ s.keeper d = none ∧
      s' = s.close (some k)) := by
  have hsnd : ∀ (o : ι) (c : Option Int), (c.map (Prod.mk o)).map Prod.snd = c := by
    intro o c
    cases c <;> rfl
  cases h with
  | osOpen _ hfree => exact Or.inr (Or.inl ⟨rfl, _, hfree, rfl⟩)
  | osClose hlook hnone => exact Or.inr (Or.inr ⟨rfl, _, _, hlook, hnone, rfl⟩)
  | construct => exact Or.inl State.table_give
  | moveConstruct => exact Or.inl rfl
  | @selfAssign o =>
    apply Or.inl
    cases ho : s.objs o with
    | none => simp only [closes, ho, Option.map_none, State.close]
    | some u => simp only [closes, ho, if_true, Option.map_none, State.close]
  | @moveAssign o src u v hne ho hsrc =>
    apply Or.inl
    simp only [closes, ho, hsrc, if_neg hne, UniqueFd.moveAssign, hsnd]
    rfl
  | reset ho =>
    refine Or.inl (State.table_give.trans ?_)
    simp only [closes, ho, Option.bind_some, hsnd]
    rfl
  | release => exact Or.inl State.table_letGo
  | destroy ho =>
    apply Or.inl
    simp only [closes, ho, Option.bind_some, hsnd]
    rfl

/-- What has a keeper after a step and is not open had one before. -/
theorem Moves.keeper {s s' : State ι} {a : Act ι} (h : Moves s a s') {d : Nat}
    (hkeep : s'.keeper d ≠ none) (hbound : ¬ s'.table.Bound d) : s.keeper d ≠ none := by
  intro hnone
  have hgive : ∀ (t : State ι) (o : ι) (k : Int), t.keeper = s.keeper →
      (t.give o k).keeper d ≠ none → (t.give o k).table.Bound d := by
    intro t o k ht hgiven
    by_cases hlook : t.table.lookup k = some d
    · rw [State.table_give]
      exact ⟨k, hlook⟩
    · rw [State.keeper_give_of_ne hlook, ht] at hgiven
      exact absurd hnone hgiven
  cases h with
  | osOpen | selfAssign => exact hkeep hnone
  | osClose => exact hkeep hnone
  | construct => exact hbound (hgive _ _ _ rfl hkeep)
  | @moveConstruct o src =>
    apply hkeep
    change (if s.keeper d = some src then some o else s.keeper d) = none
    rw [hnone]
    rfl
  | @moveAssign o src u v =>
    apply hkeep
    change (if (s.close (u.reset v.fd).1).keeper d = some src then some o
      else (s.close (u.reset v.fd).1).keeper d) = none
    rw [State.keeper_close, hnone]
    rfl
  | @reset o fd u => exact hbound (hgive _ _ _ (State.keeper_close _) hkeep)
  | @release o u =>
    apply hkeep
    by_cases hlook : s.table.lookup u.fd = some d
    · exact State.keeper_letGo_self hlook
    · have hsame : ((s.put o (some ⟨-1⟩)).letGo u.fd).keeper d = s.keeper d :=
        State.keeper_letGo_of_ne hlook
      exact hsame.trans hnone
  | destroy => exact hkeep ((congrFun (State.keeper_close _) d).trans hnone)

/-! ## Who is a keeper -/

omit [DecidableEq ι] in
/-- To give something takes nothing from its keeper. -/
theorem State.keeper_give_ne_none {s : State ι} {o : ι} {k : Int} {d : Nat}
    (h : s.keeper d ≠ none) : (s.give o k).keeper d ≠ none := by
  by_cases hlook : s.table.lookup k = some d
  · rw [State.keeper_give_self hlook]
    exact Option.some_ne_none o
  · rwa [State.keeper_give_of_ne hlook]

theorem State.keeper_pass_ne_none {s : State ι} {src o : ι} {d : Nat} (h : s.keeper d ≠ none) :
    (s.pass src o).keeper d ≠ none := by
  change (if s.keeper d = some src then some o else s.keeper d) ≠ none
  split
  next => exact Option.some_ne_none o
  next => exact h

/-- **What an object is given, it keeps.** -/
theorem keeper_given {s s' : State ι} {a : Act ι} (h : Moves s a s') {o : ι} {fd : Int} {d : Nat}
    (ha : a = .construct o fd ∨ a = .reset o fd) (hlook : s.table.lookup fd = some d) :
    s'.keeper d = some o := by
  rcases ha with rfl | rfl
  · cases h with
    | construct => exact State.keeper_give_self hlook
  · cases h with
    | @reset _ _ u =>
      apply State.keeper_give_self
      change (s.close (u.reset fd).1).table.lookup fd = some d
      unfold UniqueFd.reset
      split
      next hne => exact NameTable.lookup_unbind.mpr ⟨hne.2.symm, hlook⟩
      next => exact hlook

/-- **Only a release leaves a descriptor without a keeper**, the one whose number is released. -/
theorem keeper_lost {s s' : State ι} {a : Act ι} (h : Moves s a s') {d : Nat}
    (hkeep : s.keeper d ≠ none) (hlost : s'.keeper d = none) :
    ∃ o u, a = .release o ∧ s.objs o = some u ∧ s.table.lookup u.fd = some d := by
  have hclose : ∀ c : Option Int, (s.close c).keeper d ≠ none := by
    intro c
    rwa [State.keeper_close]
  cases h with
  | osOpen | osClose | selfAssign => exact absurd hlost hkeep
  | construct => exact absurd hlost (State.keeper_give_ne_none hkeep)
  | moveConstruct => exact absurd hlost (State.keeper_pass_ne_none hkeep)
  | moveAssign => exact absurd hlost (State.keeper_pass_ne_none (hclose _))
  | reset => exact absurd hlost (State.keeper_give_ne_none (hclose _))
  | destroy => exact absurd hlost (hclose _)
  | @release o u ho =>
    refine ⟨o, u, rfl, ho, ?_⟩
    by_contra hlook
    have hsame : ((s.put o (some ⟨-1⟩)).letGo u.fd).keeper d = s.keeper d :=
      State.keeper_letGo_of_ne hlook
    exact hkeep (hsame.symm.trans hlost)

/-! ## The count -/

/-- How often each opening has been closed on behalf of an object: not yet while it is open, and
once if it has a keeper and is not open. -/
structure Tally (n : Nat → Nat) (s : State ι) : Prop where
  bound : ∀ d, s.table.Bound d → n d = 0
  ended : ∀ d, s.keeper d ≠ none → ¬ s.table.Bound d → n d = 1
  fresh : ∀ d, s.table.next ≤ d → n d = 0

namespace Tally

variable {n : Nat → Nat} {s s' : State ι} {a : Act ι}

/-- The same descriptors are open. -/
theorem same (hn : Tally n s) (hmove : Moves s a s') (htable : s'.table = s.table) :
    Tally n s' := by
  refine ⟨?_, ?_, ?_⟩
  · intro d hd
    rw [htable] at hd
    exact hn.bound d hd
  · intro d hkeep hd
    have hold := hmove.keeper hkeep hd
    rw [htable] at hd
    exact hn.ended d hold hd
  · intro d hd
    rw [htable] at hd
    exact hn.fresh d hd

/-- An object closes one of them. -/
theorem shut (hn : Tally n s) (hmove : Moves s a s') {k : Int} {x : Nat}
    (hlook : s.table.lookup k = some x) (htable : s'.table = s.table.unbind k) :
    Tally (fun d => n d + [x].count d) s' := by
  have hother : ∀ d, d ≠ x → n d + [x].count d = n d := by
    intro d hd
    rw [List.count_cons_of_ne hd.symm]
    rfl
  have hbound : ∀ d, s'.table.Bound d ↔ d ≠ x ∧ s.table.Bound d := by
    rw [htable]
    exact NameTable.bound_unbind hlook
  refine ⟨?_, ?_, ?_⟩
  · intro d hd
    obtain ⟨hne, hold⟩ := (hbound d).mp hd
    exact (hother d hne).trans (hn.bound d hold)
  · intro d hkeep hd
    by_cases hdx : d = x
    · subst hdx
      rw [List.count_singleton_self, hn.bound d ⟨k, hlook⟩]
    · have hold := hmove.keeper hkeep hd
      exact (hother d hdx).trans (hn.ended d hold fun h => hd ((hbound d).mpr ⟨hdx, h⟩))
  · intro d hd
    rw [htable] at hd
    refine (hother d ?_).trans (hn.fresh d hd)
    intro heq
    subst heq
    exact absurd (s.table.lt _ _ hlook) (Nat.not_lt.mpr hd)

/-- The system opens one. -/
theorem osOpen (hn : Tally n s) (hmove : Moves s a s') {k : Int}
    (hfree : s.table.lookup k = none) (htable : s'.table = s.table.bind k) : Tally n s' := by
  have hbound := NameTable.bound_bind hfree
  rw [← htable] at hbound
  refine ⟨?_, ?_, ?_⟩
  · intro d hd
    rcases (hbound d).mp hd with rfl | hold
    · exact hn.fresh _ (Nat.le_refl _)
    · exact hn.bound d hold
  · intro d hkeep hd
    exact hn.ended d (hmove.keeper hkeep hd) fun h => hd ((hbound d).mpr (Or.inr h))
  · intro d hd
    rw [htable] at hd
    exact hn.fresh d (Nat.le_of_succ_le hd)

omit [DecidableEq ι] in
/-- One that has no keeper is closed by the rest of the process. -/
theorem osClose (hn : Tally n s) {k : Int} {x : Nat} (hlook : s.table.lookup k = some x)
    (hnone : s.keeper x = none) : Tally n (s.close (some k)) := by
  have hbound := NameTable.bound_unbind hlook
  refine ⟨?_, ?_, hn.fresh⟩
  · intro d hd
    exact hn.bound d ((hbound d).mp hd).2
  · intro d hkeep hd
    refine hn.ended d hkeep fun h => hd ((hbound d).mpr ⟨?_, h⟩)
    intro heq
    subst heq
    exact hkeep hnone

/-- **One step** counts what it closes. -/
theorem step (hn : Tally n s) (hs : Sound s) (hmove : Moves s a s') :
    Tally (fun d => n d + (closed s a).count d) s' := by
  have hquiet : closes s a = none → closed s a = [] := by
    intro hcloses
    rw [closed, hcloses]
    rfl
  rcases hmove.table with htable | ⟨hcloses, k, hfree, htable⟩ | ⟨hcloses, k, x, hlook, hnone, rfl⟩
  · cases hcloses : closes s a with
    | none =>
      rw [hcloses] at htable
      rw [hquiet hcloses]
      exact hn.same hmove htable
    | some y =>
      obtain ⟨x, hlook, -⟩ := hs.closes hcloses
      have hclosed : closed s a = [x] := by
        rw [closed, hcloses, Option.bind_some, hlook]
        rfl
      rw [hcloses] at htable
      rw [hclosed]
      exact hn.shut hmove hlook htable
  · rw [hquiet hcloses]
    exact hn.osOpen hmove hfree htable
  · rw [hquiet hcloses]
    exact hn.osClose hlook hnone

end Tally

theorem tally {guard : State ι → Act ι → Prop} {history : List (State ι × Act ι)} {s : State ι}
    (h : (process ι).Run guard history s) :
    Tally (fun d => (Machine.emitted closed history).count d) s := by
  refine h.invariant (I := fun history s =>
    Tally (fun d => (Machine.emitted closed history).count d) s) ?_ ?_
  · exact ⟨fun _ _ => rfl, fun d hkeep => absurd rfl hkeep, fun _ _ => rfl⟩
  intro history s a s' hrun _ hstep hn
  have hnext := hn.step (sound hrun.reach) (step_moves hstep)
  simp only [Machine.emitted_snoc, List.count_append]
  exact hnext

/-- Each call of `close` in a run is with a number that stands for what the object is the keeper of.
-/
theorem closes_kept {guard : State ι → Act ι → Prop} {history : List (State ι × Act ι)}
    {s : State ι} (h : (process ι).Run guard history s) :
    ∀ x ∈ history, ∀ o k, closes x.1 x.2 = some (o, k) →
      ∃ d, x.1.table.lookup k = some d ∧ x.1.keeper d = some o := by
  refine h.invariant (I := fun history _ => ∀ x ∈ history, ∀ o k, closes x.1 x.2 = some (o, k) →
    ∃ d, x.1.table.lookup k = some d ∧ x.1.keeper d = some o) ?_ ?_
  · intro x hx
    cases hx
  · intro history s a s' hrun _ _ ih x hx o k hcloses
    rcases List.mem_append.mp hx with hold | hnew
    · exact ih x hold o k hcloses
    · cases List.mem_singleton.mp hnew
      exact (sound hrun.reach).closes hcloses

/-- **Descriptors are closed exactly once.** In every run of the process, whichever numbers the
system hands out: an open descriptor that was given to an object and not released is held by exactly
one object; an object calls `close` only with a number that stands for a descriptor it is the keeper
of; and when all objects have been destroyed, every descriptor that was given and not released has
been closed exactly once. -/
theorem closed_once {history : List (State ι × Act ι)} {s : State ι}
    (h : (process ι).Run (fun _ _ => True) history s) :
    (∀ k d, s.table.lookup k = some d → s.keeper d ≠ none → ∃! o, s.objs o = some ⟨k⟩) ∧
    (∀ x ∈ history, ∀ o k, closes x.1 x.2 = some (o, k) →
      ∃ d, x.1.table.lookup k = some d ∧ x.1.keeper d = some o) ∧
    ((∀ o, s.objs o = none) → ∀ d, s.keeper d ≠ none →
      (Machine.emitted closed history).count d = 1) := by
  have hs := sound h.reach
  refine ⟨?_, closes_kept h, ?_⟩
  · intro k d hlook hkeep
    obtain ⟨o, ho⟩ := Option.ne_none_iff_exists'.mp hkeep
    refine ⟨o, hs.kept k d o hlook ho, fun o' ho' => ?_⟩
    rcases hs.held o' ⟨k⟩ ho' with hneg | ⟨d', hlook', hkeep'⟩
    · exact absurd (hs.nonneg k d hlook) (Int.not_le.mpr hneg)
    · cases hlook.symm.trans hlook'
      exact Option.some.inj (hkeep'.symm.trans ho)
  · intro hgone d hkeep
    apply (tally h).ended d hkeep
    intro h
    obtain ⟨k, hlook⟩ := h
    obtain ⟨o, ho⟩ := Option.ne_none_iff_exists'.mp hkeep
    exact nomatch (hgone o).symm.trans (hs.kept k d o hlook ho)

/-- A router that is started and stopped, and started again with the numbers the other way. -/
def wakeTwice : List (Act Bool) :=
  [.construct false (-1), .construct true (-1)] ++ wakeStart false true 3 4 ++
    wakeStop false true ++ wakeStart false true 4 3 ++ [.destroy true, .destroy false]

theorem closed_once_wake : ∃ history s, (process Bool).Run (fun _ _ => True) history s ∧
    (∀ o, s.objs o = none) ∧ s.keeper 0 = some false ∧
    (Machine.emitted closed history).count 0 = 1 := by
  have hexec : (process Bool).exec (fun _ _ => True) (process Bool).init wakeTwice = some _ := rfl
  obtain ⟨history, hrun⟩ := (Machine.reach_of_exec hexec).exists_run
  have hgone : ∀ o, ((process Bool).exec (fun _ _ => True) (process Bool).init wakeTwice).bind
      (fun s => s.objs o) = none := by decide
  exact ⟨history, _, hrun, hgone, rfl, (closed_once hrun).2.2 hgone 0 (Option.some_ne_none false)⟩

end Cfd.Util.Descriptors
