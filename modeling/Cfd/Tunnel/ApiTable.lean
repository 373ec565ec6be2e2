import Cfd.Base.Census
import Cfd.Tunnel.Object
import Mathlib.Data.List.Chain

/-!
# The API table outlives the handles

`g_refcount` numbers the objects that owe a release, and the table is there as long as one does
(`Clients.Sound`). An object with an open handle owes a release, so no deleter finds the table null,
and with that every step of every object keeps what holds of it.
-/

set_option autoImplicit false

namespace Cfd.Tunnel.Session

open Cfd.Base

/-! ## The table -/

/-- The openings and closings of the library alternate, the first of them an opening. -/
def Alternate (calls : List LibraryCall) : Prop :=
  calls.IsChain (· ≠ ·) ∧ calls.head? ≠ some .close

/-- The globals by themselves. -/
structure Api.Sound (g : Api) : Prop where
  nonneg : 0 ≤ g.gRefcount
  table : g.gMsquic = true ↔ 0 < g.gRefcount
  alternate : Alternate g.calls
  last : g.calls.getLast? = some .open ↔ g.gMsquic = true

/-- A call after one of the other kind. -/
theorem Alternate.snoc {calls : List LibraryCall} {x : LibraryCall} (h : Alternate calls)
    (hlast : calls.getLast? ≠ some x) (hfirst : calls = [] → x = .open) :
    Alternate (calls ++ [x]) := by
  constructor
  · refine List.isChain_append.mpr ⟨h.1, List.isChain_singleton x, fun y hy z hz => ?_⟩
    obtain rfl : x = z := Option.some.inj hz
    rintro rfl
    exact hlast hy
  · cases calls with
    | nil =>
      rw [hfirst rfl]
      nofun
    | cons y ys => exact h.2

/-- `api_table_init` counts its successes. -/
theorem Api.Sound.init {g : Api} (hg : g.Sound) (ok : Bool) : (apiTableInit g ok).1.Sound ∧
    (apiTableInit g ok).1.gRefcount = g.gRefcount + if (apiTableInit g ok).2 then 1 else 0 := by
  have hnonneg := hg.nonneg
  by_cases hzero : g.gRefcount = 0
  · have hclosed : g.gMsquic ≠ true := fun htable => by
      have hpos := hg.table.mp htable
      omega
    cases ok with
    | true =>
      have heq : apiTableInit g true = (⟨true, g.gRefcount + 1, g.calls ++ [.open]⟩, true) :=
        if_pos hzero
      rw [heq]
      refine ⟨⟨?_, ?_, hg.alternate.snoc ?_ fun _ => rfl, ?_⟩, rfl⟩
      · change 0 ≤ g.gRefcount + 1
        omega
      · change true = true ↔ 0 < g.gRefcount + 1
        exact ⟨fun _ => by omega, fun _ => rfl⟩
      · exact fun h => hclosed (hg.last.mp h)
      · exact ⟨fun _ => rfl, fun _ => List.getLast?_concat⟩
    | false =>
      have heq : apiTableInit g false = (⟨false, g.gRefcount + 1 - 1, g.calls⟩, false) :=
        if_pos hzero
      rw [heq]
      refine ⟨⟨?_, ?_, hg.alternate, ?_⟩, ?_⟩
      · change 0 ≤ g.gRefcount + 1 - 1
        omega
      · change false = true ↔ 0 < g.gRefcount + 1 - 1
        exact ⟨nofun, fun h => by omega⟩
      · exact ⟨fun h => absurd (hg.last.mp h) hclosed, nofun⟩
      · change g.gRefcount + 1 - 1 = g.gRefcount + 0
        omega
  · have heq : apiTableInit g ok = (⟨g.gMsquic, g.gRefcount + 1, g.calls⟩, true) := if_neg hzero
    rw [heq]
    refine ⟨⟨?_, ?_, hg.alternate, hg.last⟩, rfl⟩
    · change 0 ≤ g.gRefcount + 1
      omega
    · change g.gMsquic = true ↔ 0 < g.gRefcount + 1
      exact ⟨fun _ => by omega, fun _ => hg.table.mpr (by omega)⟩

/-- `api_table_release` counts down. -/
theorem Api.Sound.release {g : Api} (hg : g.Sound) (hpos : 0 < g.gRefcount) :
    (apiTableRelease g).Sound ∧ (apiTableRelease g).gRefcount = g.gRefcount - 1 := by
  have hopen := hg.table.mpr hpos
  by_cases hone : g.gRefcount = 1
  · have heq : apiTableRelease g = ⟨false, g.gRefcount - 1, g.calls ++ [.close]⟩ := if_pos hone
    have hlast := hg.last.mpr hopen
    rw [heq]
    refine ⟨⟨?_, ?_, hg.alternate.snoc ?_ ?_, ?_⟩, rfl⟩
    · change 0 ≤ g.gRefcount - 1
      omega
    · change false = true ↔ 0 < g.gRefcount - 1
      exact ⟨nofun, fun h => by omega⟩
    · rw [hlast]
      nofun
    · intro hnil
      rw [hnil] at hlast
      cases hlast
    · rw [List.getLast?_concat]
      exact ⟨nofun, nofun⟩
  · have heq : apiTableRelease g = ⟨g.gMsquic, g.gRefcount - 1, g.calls⟩ := if_neg hone
    rw [heq]
    refine ⟨⟨?_, ?_, hg.alternate, hg.last⟩, rfl⟩
    · change 0 ≤ g.gRefcount - 1
      omega
    · change g.gMsquic = true ↔ 0 < g.gRefcount - 1
      exact ⟨fun _ => by omega, fun _ => hopen⟩

/-! ## All objects -/

variable {ι : Type} [DecidableEq ι]

/-- The globals and the objects: `g_refcount` numbers the objects that owe a release. -/
structure Clients.Sound (c : Clients ι) : Prop where
  api : c.api.Sound
  obj : ∀ i, (c.obj i).Sound
  owed : Numbers c.api.gRefcount fun i => (c.obj i).owes = true

omit [DecidableEq ι] in
/-- The table is there for an object that owes a release. -/
theorem Clients.Sound.table {c : Clients ι} (hc : c.Sound) {i : ι} (h : (c.obj i).owes = true) :
    c.api.gMsquic = true :=
  hc.api.table.mpr (hc.owed.pos h)

/-- **Every step keeps it.** -/
theorem Clients.Sound.step {c c' : Clients ι} (hc : c.Sound) {x : ι × ObjAction}
    (h : c.step x = some c') : c'.Sound := by
  obtain ⟨i, a⟩ := x
  obtain ⟨⟨g', o'⟩, hact, rfl⟩ := Option.map_eq_some_iff.mp h
  have htable : ∀ y ∈ (c.obj i).pc.closeCall, c.api.gMsquic = true := fun y hy =>
    hc.table ((hc.obj i).owes ((hc.obj i).closeCall hy).1 ((hc.obj i).closeCall hy).2)
  obtain ⟨hsound, heffect⟩ := (hc.obj i).act htable hact
  have hobj : ∀ j, (Function.update c.obj i o' j).Sound := by
    intro j
    by_cases hji : j = i
    · subst hji
      rwa [Function.update_self]
    · rw [Function.update_of_ne hji]
      exact hc.obj j
  obtain ⟨henter, hleave, hstay⟩ := Numbers.update (fun o : Obj => o.owes = true) hc.owed i o'
  generalize howes : o'.owes = owes at heffect
  cases heffect with
  | same => exact ⟨hc.api, hobj, hstay (by rw [howes])⟩
  | init ok hfree =>
    obtain ⟨hapi, hcount⟩ := hc.api.init ok
    refine ⟨hapi, hobj, ?_⟩
    change Numbers (apiTableInit c.api ok).1.gRefcount _
    have hold : ¬(c.obj i).owes = true := Bool.eq_false_iff.mp hfree
    cases hok : (apiTableInit c.api ok).2 with
    | true =>
      rw [hok] at hcount howes
      rw [hcount]
      exact henter hold howes
    | false =>
      rw [hok] at hcount howes
      rw [hcount]
      have hnew : ¬o'.owes = true := Bool.eq_false_iff.mp howes
      exact (Int.add_zero _).symm ▸ hstay ⟨fun h => absurd h hold, fun h => absurd h hnew⟩
  | release hold =>
    obtain ⟨hapi, hcount⟩ := hc.api.release (hc.owed.pos hold)
    refine ⟨hapi, hobj, ?_⟩
    change Numbers (apiTableRelease c.api).gRefcount _
    rw [hcount]
    exact hleave hold (Bool.eq_false_iff.mp howes)

theorem clients_sound {c : Clients ι} (h : (clients ι).Reachable c) : c.Sound := by
  refine h.invariant ?_ fun _ _ _ _ _ hstep hc => hc.step hstep
  refine ⟨⟨Int.le_refl 0, ⟨nofun, nofun⟩, ⟨.nil, nofun⟩, ⟨nofun, nofun⟩⟩,
    fun _ => Obj.Sound.absent_initial, Numbers.none fun i => ?_⟩
  nofun

/-! ## The result -/

/-- **The table outlives the handles.** In every state that the objects of a process reach: the table
is there while a handle is open; the openings and closings of the library alternate; between
`connect` and destruction `g_refcount` is the number of objects that hold the table; a deleter that
is about to run finds the table; and a handle is closed at most once, and has been once its object is
destroyed. -/
theorem table_outlives_handles {c : Clients ι} (h : (clients ι).Reachable c) :
    (∀ i k x, x < (c.obj i).shared.next k → ((c.obj i).shared.handles k x).closed = false →
        c.api.gMsquic = true) ∧
      Alternate c.api.calls ∧
      ((∀ i, (c.obj i).pc.quiet = true) → Numbers c.api.gRefcount fun i => (c.obj i).Holds) ∧
      (∀ i x, x ∈ (c.obj i).pc.closeCall → c.api.gMsquic = true) ∧
      ∀ i k x, (c.obj i).closes.count (k, x) ≤ 1 ∧
        ((c.obj i).pc = .gone → x < (c.obj i).shared.next k →
          (c.obj i).closes.count (k, x) = 1) := by
  have hc := clients_sound h
  refine ⟨fun i k x hlt hopen => hc.table ((hc.obj i).owes hlt hopen), hc.api.alternate,
    fun hquiet => hc.owed.congr fun i => (hc.obj i).owes_quiet (hquiet i), fun i x hx => ?_,
    fun i k x => ⟨?_, fun hgone hlt => ?_⟩⟩
  · obtain ⟨hlt, hopen⟩ := (hc.obj i).closeCall hx
    exact hc.table ((hc.obj i).owes hlt hopen)
  · rw [(hc.obj i).kept.counted]
    split
    · exact Nat.le_refl 1
    · exact Nat.zero_le 1
  · have hclosed := (hc.obj i).all_closed (hgone ▸ rfl) (hgone ▸ rfl) hlt
    have hclosing := ((hc.obj i).kept.custody k).begun x hlt hclosed
    rw [(hc.obj i).kept.counted]
    exact if_pos ⟨hlt, hclosing⟩

/-- So does every call that `connect` makes through the table. -/
theorem connect_finds_table {c : Clients ι} (h : (clients ι).Reachable c) {i : ι} {p : ConnectPc}
    (hpc : (c.obj i).pc = .connecting p) (hlate : p.early = false) : c.api.gMsquic = true := by
  have hc := clients_sound h
  refine hc.table (i := i) ?_
  rw [Obj.owes, hpc]
  exact (hc.obj i).late p hpc hlate

/-- Steps of an object inside its functions, with the calls that it makes successful. -/
def objSteps (i : ι) (n : Nat) : List (ι × ObjAction) := List.replicate n (i, .step true)

/-- Two objects connect, and one of them is destroyed while the other keeps the table. -/
theorem table_outlives_handles_two : ∃ c : Clients Bool, (c.obj true).pc = .gone ∧
    (c.obj true).closes.count (.connection, 0) = 1 ∧ c.api.gMsquic = true := by
  have hrun : ((clients Bool).exec (fun _ _ => True) (clients Bool).init
      ([(true, .construct), (false, .construct), (true, .connect)] ++ objSteps true 22 ++
        [(false, .connect)] ++ objSteps false 5 ++ [(true, .destroy)] ++ objSteps true 23)).any
      (fun c => decide ((c.obj true).pc = .gone ∧ 0 < (c.obj true).shared.next .connection ∧
        0 < (c.obj false).shared.next .registration ∧
        ((c.obj false).shared.handles .registration 0).closed = false)) = true := by
    decide
  obtain ⟨c, hreach, hgone, hnext, hother, hopen⟩ := Machine.exists_reach_of_exec hrun
  obtain ⟨htable, -, -, -, hcloses⟩ := table_outlives_handles hreach
  exact ⟨c, hgone, (hcloses true .connection 0).2 hgone hnext,
    htable false .registration 0 hother hopen⟩

end Cfd.Tunnel.Session
