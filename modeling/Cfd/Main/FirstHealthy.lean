import Cfd.Base.Census
import Cfd.Base.Machine
import Mathlib.Tactic.Common

/-!
# Waiting for the first healthy connection

The end of `main` in `src/main.cpp` before the packet pump, and the connection threads as far as they
move `ok_count`. `main` waits until `ok_count` is positive, for 60 seconds at most; then it tests
`g_stop`, and then `ok_count` once more, and where it finds `0` it gives up with "no connections
established after 60 s". Each load of a shared variable is one step.

Between the load that ends the wait and the second one, a connection thread may lower `ok_count`
again. `aborted_never_rose` is that the abort is right in every run in which this does not happen,
and in which the wait does not run out just when the connections that had come up are down.

What brings a connection up or down is left to chance. A thread stands here for its loop: `dialing` is
every place of it where the thread is not counted.
-/

set_option autoImplicit false

namespace Cfd.Main.FirstHealthy

open Cfd.Base

/-! ## The parties -/

/-- Where a connection thread stands. -/
inductive ThreadPc where
  | dialing
  /-- Has raised `ok_count`; about to call `g_wakeup_cv.notify_all()`. -/
  | announcing
  /-- Waits for the disconnect or for `g_stop`. -/
  | up
  deriving DecidableEq

/-- Where `main` stands. -/
inductive MainPc where
  /-- In the predicate of `wait_for`, about to load `ok_count`. -/
  | testCount
  /-- In the predicate, about to load `g_stop`. -/
  | testStop
  /-- Blocked in `wait_for`. -/
  | blocked
  /-- The 60 seconds are over: the predicate is evaluated once more, and its value ignored. -/
  | expired
  /-- Past the wait, about to load `g_stop`. -/
  | checkStop
  /-- About to load `ok_count` for the test against `0`. -/
  | checkCount
  /-- In `shutdown_all`, for `g_stop`. -/
  | stopped
  /-- In `shutdown_all`, for want of connections. -/
  | aborted
  | pumping
  deriving DecidableEq

/-- In `wait_for`. -/
def MainPc.waiting : MainPc → Bool
  | .testCount | .testStop | .blocked | .expired => true
  | _ => false

/-- The shared variables and the parties. `rose` records that some thread has raised `ok_count`
before the wait of `main` ended. -/
structure State (ι : Type) where
  threads : ι → ThreadPc
  okCount : Int
  gStop : Bool
  main : MainPc
  rose : Bool

/-- The steps: a thread raises `ok_count`, notifies, or lowers it again; a signal; a wakeup of
`main`, by whatever notification or none; the end of its 60 seconds; and its next step. -/
inductive Action (ι : Type) where
  | raise (i : ι)
  | announce (i : ι)
  | lower (i : ι)
  | signal
  | wake
  | timeout
  | main
  deriving DecidableEq

/-- What a notification does to `main`. -/
def MainPc.wake : MainPc → MainPc
  | .blocked => .testCount
  | p => p

/-- The next step of `main`. -/
def State.mainStep {ι : Type} (s : State ι) : Option (State ι) :=
  match s.main with
  | .testCount => some { s with main := if s.okCount > 0 then .checkStop else .testStop }
  | .testStop => some { s with main := if s.gStop then .checkStop else .blocked }
  | .blocked => none
  | .expired => some { s with main := .checkStop }
  | .checkStop => some { s with main := if s.gStop then .stopped else .checkCount }
  | .checkCount => some { s with main := if s.okCount = 0 then .aborted else .pumping }
  | .stopped => none
  | .aborted => none
  | .pumping => none

variable {ι : Type} [DecidableEq ι]

/-- The runs from the start of the connection threads on. -/
def startup (ι : Type) [DecidableEq ι] : Machine (State ι) (Action ι) where
  init := ⟨fun _ => .dialing, 0, false, .testCount, false⟩
  step := fun s a =>
    match a with
    | .raise i =>
      match s.threads i with
      | .dialing =>
        some { s with
          threads := Function.update s.threads i .announcing
          okCount := s.okCount + 1
          rose := s.rose || s.main.waiting }
      | _ => none
    | .announce i =>
      match s.threads i with
      | .announcing =>
        some { s with threads := Function.update s.threads i .up, main := s.main.wake }
      | _ => none
    | .lower i =>
      match s.threads i with
      | .up =>
        some { s with
          threads := Function.update s.threads i .dialing, okCount := s.okCount - 1 }
      | _ => none
    | .signal => some { s with gStop := true, main := s.main.wake }
    | .wake => some { s with main := s.main.wake }
    | .timeout =>
      match s.main with
      | .blocked => some { s with main := .expired }
      | _ => none
    | .main => s.mainStep

/-! ## When the second load finds zero -/

/-- `main` is past its wait and goes on to the second load of `ok_count`. -/
def State.deciding (s : State ι) : Bool :=
  s.main = .checkCount || (s.main = .checkStop && !s.gStop)

/-- After a connection has come up in the wait of `main`: `ok_count` is not lowered to `0` while
`main` is deciding, and is not `0` when the wait runs out, if there is no signal. -/
def steady (s : State ι) : Action ι → Prop
  | .lower _ => s.rose = true → s.deciding = true → s.okCount ≠ 1
  | .main => s.rose = true → s.main = .expired → s.gStop = false → s.okCount ≠ 0
  | _ => True

/-! ## The moves -/

/-- What a step does to the state. -/
inductive Moves (s : State ι) : Action ι → State ι → Prop
  | raise {i : ι} (hi : s.threads i = .dialing) :
      Moves s (.raise i) { s with
        threads := Function.update s.threads i .announcing
        okCount := s.okCount + 1
        rose := s.rose || s.main.waiting }
  | announce {i : ι} (hi : s.threads i = .announcing) :
      Moves s (.announce i) { s with
        threads := Function.update s.threads i .up, main := s.main.wake }
  | lower {i : ι} (hi : s.threads i = .up) :
      Moves s (.lower i) { s with
        threads := Function.update s.threads i .dialing, okCount := s.okCount - 1 }
  | signal : Moves s .signal { s with gStop := true, main := s.main.wake }
  | wake : Moves s .wake { s with main := s.main.wake }
  | timeout (hmain : s.main = .blocked) : Moves s .timeout { s with main := .expired }
  | positive (hmain : s.main = .testCount) (hcount : 0 < s.okCount) :
      Moves s .main { s with main := .checkStop }
  | notPositive (hmain : s.main = .testCount) : Moves s .main { s with main := .testStop }
  | stopSeen (hmain : s.main = .testStop) (hstop : s.gStop = true) :
      Moves s .main { s with main := .checkStop }
  | block (hmain : s.main = .testStop) : Moves s .main { s with main := .blocked }
  | leave (hmain : s.main = .expired) : Moves s .main { s with main := .checkStop }
  | stopped (hmain : s.main = .checkStop) : Moves s .main { s with main := .stopped }
  | goOn (hmain : s.main = .checkStop) (hstop : s.gStop = false) :
      Moves s .main { s with main := .checkCount }
  | abort (hmain : s.main = .checkCount) (hcount : s.okCount = 0) :
      Moves s .main { s with main := .aborted }
  | pump (hmain : s.main = .checkCount) : Moves s .main { s with main := .pumping }

omit [DecidableEq ι] in
theorem mainStep_moves [DecidableEq ι] {s s' : State ι} (h : s.mainStep = some s') :
    Moves s .main s' := by
  unfold State.mainStep at h
  split at h
  next hmain =>
    by_cases hcount : s.okCount > 0
    · rw [if_pos hcount] at h
      cases h
      exact .positive hmain hcount
    · rw [if_neg hcount] at h
      cases h
      exact .notPositive hmain
  next hmain =>
    by_cases hstop : s.gStop = true
    · rw [if_pos hstop] at h
      cases h
      exact .stopSeen hmain hstop
    · rw [if_neg hstop] at h
      cases h
      exact .block hmain
  next => cases h
  next hmain => cases h; exact .leave hmain
  next hmain =>
    by_cases hstop : s.gStop = true
    · rw [if_pos hstop] at h
      cases h
      exact .stopped hmain
    · rw [if_neg hstop] at h
      cases h
      exact .goOn hmain (Bool.eq_false_iff.mpr hstop)
  next hmain =>
    by_cases hcount : s.okCount = 0
    · rw [if_pos hcount] at h
      cases h
      exact .abort hmain hcount
    · rw [if_neg hcount] at h
      cases h
      exact .pump hmain
  next => cases h
  next => cases h
  next => cases h

/-- Every step is a move. -/
theorem step_moves {s s' : State ι} {a : Action ι} (h : (startup ι).step s a = some s') :
    Moves s a s' := by
  cases a with
  | raise i =>
    simp only [startup] at h
    split at h
    next hi => cases h; exact .raise hi
    next => cases h
  | announce i =>
    simp only [startup] at h
    split at h
    next hi => cases h; exact .announce hi
    next => cases h
  | lower i =>
    simp only [startup] at h
    split at h
    next hi => cases h; exact .lower hi
    next => cases h
  | signal => cases h; exact .signal
  | wake => cases h; exact .wake
  | timeout =>
    simp only [startup] at h
    split at h
    next hmain => cases h; exact .timeout hmain
    next => cases h
  | main => exact mainStep_moves h

/-! ## The counter -/

/-- `ok_count` is the number of threads that are counted. -/
def Tally (s : State ι) : Prop := Numbers s.okCount fun i => s.threads i ≠ .dialing

theorem Tally.step {s s' : State ι} {a : Action ι} (h : Tally s) (hmove : Moves s a s') :
    Tally s' := by
  let counted : ThreadPc → Prop := fun pc => pc ≠ .dialing
  cases hmove with
  | @raise i hi =>
    obtain ⟨henter, -, -⟩ := Numbers.update counted (f := s.threads) h i .announcing
    exact henter (fun hne => hne hi) nofun
  | @announce i hi =>
    obtain ⟨-, -, hstay⟩ := Numbers.update counted (f := s.threads) h i .up
    exact hstay ⟨fun _ => nofun, fun _ hdial => by cases hi.symm.trans hdial⟩
  | @lower i hi =>
    obtain ⟨-, hleave, -⟩ := Numbers.update counted (f := s.threads) h i .dialing
    exact hleave (fun hdial => by cases hi.symm.trans hdial) fun hne => hne rfl
  | _ => exact h

theorem tally {guard : State ι → Action ι → Prop} {s : State ι} (h : (startup ι).Reach guard s) :
    Tally s := by
  have hinit : Tally (startup ι).init := Numbers.none fun _ hne => hne rfl
  exact h.invariant hinit fun _ _ _ _ _ hstep hs => hs.step (step_moves hstep)

/-! ## Aborting -/

omit [DecidableEq ι] in
theorem deciding_iff {s : State ι} : s.deciding = true ↔
    s.main = .checkCount ∨ s.main = .checkStop ∧ s.gStop = false := by
  rw [State.deciding, Bool.or_eq_true, Bool.and_eq_true, decide_eq_true_eq, decide_eq_true_eq,
    Bool.not_eq_true']

theorem MainPc.wake_eq {p q : MainPc} (h : p.wake = q) (hq : q ≠ .testCount) : p = q := by
  cases p with
  | blocked => exact absurd h.symm hq
  | _ => exact h

/-- Where `main` is deciding after a connection came up, some connection is counted; and where it
aborted, none came up. -/
structure Counted (s : State ι) : Prop where
  deciding : s.rose = true → s.deciding = true → 0 < s.okCount
  aborted : s.main = .aborted → s.rose = false

omit [DecidableEq ι] in
/-- A step that wakes `main` at most. -/
theorem Counted.woken {s s' : State ι} (h : Counted s) (hmain : s'.main = s.main.wake)
    (hstop : s'.gStop = false → s.gStop = false) (hcount : s'.okCount = s.okCount)
    (hrose : s'.rose = s.rose) : Counted s' := by
  refine ⟨fun hr hd => ?_, fun ha => ?_⟩
  · rw [hcount]
    refine h.deciding (hrose ▸ hr) (deciding_iff.mpr ?_)
    rcases deciding_iff.mp hd with hpc | ⟨hpc, hgo⟩
    · exact Or.inl (MainPc.wake_eq (hmain.symm.trans hpc) nofun)
    · exact Or.inr ⟨MainPc.wake_eq (hmain.symm.trans hpc) nofun, hstop hgo⟩
  · rw [hrose]
    exact h.aborted (MainPc.wake_eq (hmain.symm.trans ha) nofun)

omit [DecidableEq ι] in
/-- A step of `main` to a place where it neither decides nor has aborted. -/
theorem Counted.elsewhere {s : State ι} {pc : MainPc} (hcount : pc ≠ .checkCount)
    (hstop : pc ≠ .checkStop) (haborted : pc ≠ .aborted) : Counted { s with main := pc } := by
  refine ⟨fun _ hd => ?_, fun ha => absurd ha haborted⟩
  rcases deciding_iff.mp hd with hpc | ⟨hpc, -⟩
  · exact absurd hpc hcount
  · exact absurd hpc hstop

theorem Counted.step {s s' : State ι} {a : Action ι} (htally : Tally s) (hguard : steady s a)
    (h : Counted s) (hmove : Moves s a s') : Counted s' := by
  have hnonneg := Numbers.nonneg htally
  cases hmove with
  | raise =>
    refine ⟨fun _ _ => ?_, fun ha => ?_⟩
    · show 0 < s.okCount + 1
      omega
    · have ha' : s.main = .aborted := ha
      show (s.rose || s.main.waiting) = false
      rw [h.aborted ha', ha']
      rfl
  | announce => exact h.woken rfl id rfl rfl
  | lower =>
    refine ⟨fun hrose hdeciding => ?_, h.aborted⟩
    have hpos := h.deciding hrose hdeciding
    have hne := hguard hrose hdeciding
    show 0 < s.okCount - 1
    omega
  | signal => exact h.woken rfl nofun rfl rfl
  | wake => exact h.woken rfl id rfl rfl
  | timeout => exact .elsewhere nofun nofun nofun
  | positive _ hcount => exact ⟨fun _ _ => hcount, nofun⟩
  | notPositive => exact .elsewhere nofun nofun nofun
  | stopSeen _ hstop =>
    refine ⟨fun _ hd => ?_, nofun⟩
    rcases deciding_iff.mp hd with hpc | ⟨-, hgo⟩
    · cases hpc
    · exact nomatch hstop.symm.trans hgo
  | block => exact .elsewhere nofun nofun nofun
  | leave hmain =>
    refine ⟨fun hrose hd => ?_, nofun⟩
    rcases deciding_iff.mp hd with hpc | ⟨-, hgo⟩
    · cases hpc
    · have hne := hguard hrose hmain hgo
      show 0 < s.okCount
      omega
  | stopped => exact .elsewhere nofun nofun nofun
  | goOn hmain hstop =>
    exact ⟨fun hrose _ => h.deciding hrose (deciding_iff.mpr (Or.inr ⟨hmain, hstop⟩)), nofun⟩
  | abort hmain hcount =>
    refine ⟨fun _ hd => ?_, fun _ => ?_⟩
    · rcases deciding_iff.mp hd with hpc | ⟨hpc, -⟩ <;> cases hpc
    · by_contra hrose
      have hpos := h.deciding (Bool.not_eq_false _ ▸ hrose) (deciding_iff.mpr (Or.inl hmain))
      omega
  | pump => exact .elsewhere nofun nofun nofun

/-- **Aborting for want of connections is right in every steady run**: no thread had raised
`ok_count` before the wait of `main` ended. -/
theorem aborted_never_rose {s : State ι} (h : (startup ι).Reach steady s)
    (haborted : s.main = .aborted) : s.rose = false := by
  have hcounted : Counted s := h.invariant ⟨nofun, nofun⟩ fun _ _ _ hr hguard hstep hs =>
    hs.step (tally hr) hguard (step_moves hstep)
  exact hcounted.aborted haborted

instance (s : State ι) : ∀ a : Action ι, Decidable (steady s a)
  | .lower _ => inferInstanceAs (Decidable (_ → _))
  | .main => inferInstanceAs (Decidable (_ → _))
  | .raise _ => inferInstanceAs (Decidable True)
  | .announce _ => inferInstanceAs (Decidable True)
  | .signal => inferInstanceAs (Decidable True)
  | .wake => inferInstanceAs (Decidable True)
  | .timeout => inferInstanceAs (Decidable True)

/-- No connection comes up in 60 seconds. -/
def noConnection : List (Action (Fin 4)) := [.main, .main, .timeout, .main, .main, .main]

theorem aborted_never_rose_alone :
    ∃ s, (startup (Fin 4)).Reach steady s ∧ s.main = .aborted ∧ s.rose = false := by
  have hexec : (startup (Fin 4)).exec steady (startup (Fin 4)).init noConnection = some _ := rfl
  have hreach := Machine.reach_of_exec hexec
  exact ⟨_, hreach, rfl, aborted_never_rose hreach rfl⟩

/-- A connection comes up, which ends the wait at once, and drops before the second load. -/
def upAndDown (i : ι) : List (Action ι) := [.raise i, .main, .announce i, .lower i, .main, .main]

theorem aborted_after_rise : ∃ s, (startup (Fin 4)).Reachable s ∧ s.main = .aborted ∧
    s.rose = true ∧ s.gStop = false := by
  have hexec : (startup (Fin 4)).exec (fun _ _ => True) (startup (Fin 4)).init
    (upAndDown 0) = some _ := rfl
  exact ⟨_, Machine.reach_of_exec hexec, rfl, rfl, rfl⟩

omit [DecidableEq ι] in
/-- Where `main` is deciding and `ok_count` is `0`, it aborts if nothing else moves. -/
theorem aborts_of_deciding [DecidableEq ι] {s : State ι} (hdeciding : s.deciding = true)
    (hcount : s.okCount = 0) : ∃ as t,
      (startup ι).exec (fun _ _ => True) s as = some t ∧ t.main = .aborted ∧ t.rose = s.rose := by
  rcases deciding_iff.mp hdeciding with hmain | ⟨hmain, hstop⟩
  · refine ⟨[.main], { s with main := .aborted }, ?_, rfl, rfl⟩
    simp only [Machine.exec, startup, State.mainStep, hmain, if_pos hcount, if_true]
  · refine ⟨[.main, .main], { s with main := .aborted }, ?_, rfl, rfl⟩
    simp only [Machine.exec, startup, State.mainStep, hmain, hstop, if_pos hcount, if_true,
      Bool.false_eq_true, if_false]

/-- **A step that is not steady can go wrong**: after it `main` aborts if nothing else moves, although a
connection came up. -/
theorem unsteady_aborts {s s' : State ι} {a : Action ι} (hunsteady : ¬ steady s a)
    (hmove : Moves s a s') : ∃ as t, (startup ι).exec (fun _ _ => True) s' as = some t ∧
      t.main = .aborted ∧ t.rose = true := by
  cases hmove with
  | @lower i =>
    simp only [steady, Classical.not_imp, Decidable.not_not] at hunsteady
    obtain ⟨hrose, hdeciding, hone⟩ := hunsteady
    obtain ⟨as, t, hexec, haborted, hsame⟩ := aborts_of_deciding
      (s := { s with threads := Function.update s.threads i .dialing, okCount := s.okCount - 1 })
      hdeciding (by show s.okCount - 1 = 0; omega)
    exact ⟨as, t, hexec, haborted, hsame.trans hrose⟩
  | leave =>
    simp only [steady, Classical.not_imp, Decidable.not_not] at hunsteady
    obtain ⟨hrose, -, hstop, hzero⟩ := hunsteady
    obtain ⟨as, t, hexec, haborted, hsame⟩ := aborts_of_deciding (s := { s with main := .checkStop })
      (deciding_iff.mpr (Or.inr ⟨rfl, hstop⟩)) hzero
    exact ⟨as, t, hexec, haborted, hsame.trans hrose⟩
  | positive hmain | notPositive hmain | stopSeen hmain | block hmain | stopped hmain | goOn hmain
  | abort hmain | pump hmain =>
    exact absurd (fun _ hexpired => nomatch hmain.symm.trans hexpired) hunsteady
  | _ => exact absurd trivial hunsteady

end Cfd.Main.FirstHealthy
