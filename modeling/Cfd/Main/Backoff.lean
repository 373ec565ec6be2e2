import Cfd.Base.Machine
import Mathlib.Algebra.Group.Int.Defs

/-!
# Reconnect delays

The loop of a connection thread in `src/main.cpp`, as far as it decides how long to sleep: connect,
register, serve, and the three exits that sleep and then double `backoff_ms` up to its cap. The edge
chooses `retry_after_seconds`, any 64-bit value. An `int` computation that leaves its range, or a cast
that changes its value, is recorded as `overflow`, and the thread goes no further.

The delay after `n` sleeps since the last registration is `backoffAfter n`, or what the edge asked for
within one to thirty-two seconds (`delays_bounded`).
-/

set_option autoImplicit false

namespace Cfd.Main.Backoff

open Cfd.Base

/-! ## The source -/

/-- `kInitBackoffMs`. -/
def kInitBackoffMs : Int32 := 1000

/-- `kMaxBackoffMs`. -/
def kMaxBackoffMs : Int32 := 32000

/-- A product of `int`s; `none` where it overflows. -/
def mulInt (a b : Int32) : Option Int32 :=
  if -2 ^ 31 ≤ a.toInt * b.toInt ∧ a.toInt * b.toInt < 2 ^ 31 then some (a * b) else none

/-- `static_cast<int>` of an `int64_t`; `none` where the value changes. -/
def castInt (a : Int64) : Option Int32 :=
  if -2 ^ 31 ≤ a.toInt ∧ a.toInt < 2 ^ 31 then some a.toInt32 else none

/-- `std::min(backoff_ms * 2, kMaxBackoffMs)`. -/
def nextBackoff (backoffMs : Int32) : Option Int32 :=
  (mulInt backoffMs 2).map fun doubled => min doubled kMaxBackoffMs

/-- `wait_ms` after a registration that failed. -/
def waitMs (retryAfterSeconds : Int64) (backoffMs : Int32) : Option Int32 :=
  if retryAfterSeconds > 0 then
    (castInt (min retryAfterSeconds (kMaxBackoffMs / 1000).toInt64)).bind fun s => mulInt s 1000
  else some backoffMs

/-- Where a connection thread is. -/
inductive At where
  /-- The head of the loop, and `connect`. -/
  | loop
  /-- Between `connect` and the answer to the registration. -/
  | registering
  /-- Registered, until the connection drops or the process stops. -/
  | serving
  | exited
  deriving DecidableEq

/-- What a thread does that this is about: registering, and sleeping, after a failed registration
with what the edge asked for. -/
inductive Event where
  | registered
  | slept (delayMs : Int32) (retryAfterSeconds : Option Int64)
  deriving DecidableEq

/-- A connection thread: where it is, `backoff_ms`, and what it has done. -/
structure Thread where
  pc : At
  backoffMs : Int32
  trace : List Event
  overflow : Bool
  deriving DecidableEq

/-- What the thread meets. -/
inductive Outcome where
  | connectFailed
  | connected
  | registerFailed (retryAfterSeconds : Int64)
  | registered
  /-- The wait is over; `sleep` is `disc_fired && !g_stop`. -/
  | woken (sleep : Bool)
  /-- `g_stop` at the head of the loop. -/
  | stopped
  deriving DecidableEq

/-- `interruptible_sleep`, and the doubling behind it. -/
def Thread.sleep (s : Thread) (delayMs : Option Int32) (retryAfterSeconds : Option Int64) : Thread :=
  match delayMs, nextBackoff s.backoffMs with
  | some delayMs, some backoffMs =>
    { s with
      pc := .loop
      backoffMs := backoffMs
      trace := s.trace ++ [.slept delayMs retryAfterSeconds] }
  | _, _ => { s with overflow := true }

/-- One step of the loop. -/
def Thread.step (s : Thread) (o : Outcome) : Option Thread :=
  if s.overflow then none
  else
    match s.pc, o with
    | .loop, .connectFailed => some (s.sleep (some s.backoffMs) none)
    | .loop, .connected => some { s with pc := .registering }
    | .loop, .stopped => some { s with pc := .exited }
    | .registering, .registerFailed r => some (s.sleep (waitMs r s.backoffMs) (some r))
    | .registering, .registered =>
      some { s with pc := .serving, backoffMs := kInitBackoffMs, trace := s.trace ++ [.registered] }
    | .serving, .woken sleep =>
      some (if sleep then s.sleep (some s.backoffMs) none else { s with pc := .loop })
    | _, _ => none

/-- A connection thread. -/
def thread : Machine Thread Outcome where
  init := ⟨.loop, kInitBackoffMs, [], false⟩
  step := Thread.step

/-! ## What the delays are to be -/

/-- Whether a step of the trace is a sleep. -/
def Event.isSleep : Event → Bool
  | .registered => false
  | .slept _ _ => true

/-- How often a thread has slept since it last registered, or since it started. -/
def sleepsSince (trace : List Event) : Nat := (trace.reverse.takeWhile Event.isSleep).length

/-- `backoff_ms` after `n` sleeps. -/
def backoffAfter (n : Nat) : Int := min (1000 * 2 ^ n) 32000

/-- The delay of a sleep behind `before`: what the edge asked for, if it did, and else the backoff. -/
def delayOf (before : List Event) : Option Int64 → Int
  | some r => if 0 < r.toInt then 1000 * min r.toInt 32 else backoffAfter (sleepsSince before)
  | none => backoffAfter (sleepsSince before)

/-! ## Arithmetic -/

theorem mulInt_eq {a b : Int32} {p : Int} (hp : a.toInt * b.toInt = p) (hlo : -2 ^ 31 ≤ p)
    (hhi : p < 2 ^ 31) : ∃ c, mulInt a b = some c ∧ c.toInt = p := by
  subst hp
  refine ⟨a * b, if_pos ⟨hlo, hhi⟩, ?_⟩
  rw [Int32.toInt_mul]
  exact Int.bmod_eq_of_le (by omega) (by omega)

theorem castInt_eq {a : Int64} (hlo : -2 ^ 31 ≤ a.toInt) (hhi : a.toInt < 2 ^ 31) :
    ∃ c, castInt a = some c ∧ c.toInt = a.toInt := by
  refine ⟨a.toInt32, if_pos ⟨hlo, hhi⟩, ?_⟩
  rw [Int64.toInt_toInt32]
  exact Int.bmod_eq_of_le (by omega) (by omega)

theorem toInt_min32 (a b : Int32) : (min a b).toInt = min a.toInt b.toInt := by
  change (if a ≤ b then a else b).toInt = _
  split
  next h =>
    have hle := Int32.le_iff_toInt_le.mp h
    omega
  next h =>
    have hlt := mt Int32.le_iff_toInt_le.mpr h
    omega

theorem toInt_min64 (a b : Int64) : (min a b).toInt = min a.toInt b.toInt := by
  change (if a ≤ b then a else b).toInt = _
  split
  next h =>
    have hle := Int64.le_iff_toInt_le.mp h
    omega
  next h =>
    have hlt := mt Int64.le_iff_toInt_le.mpr h
    omega

/-- The backoff is between one second and thirty-two. -/
theorem backoffAfter_bounds (n : Nat) : 1000 ≤ backoffAfter n ∧ backoffAfter n ≤ 32000 := by
  have hpow : (0 : Int) < 2 ^ n := Int.pow_pos (by decide)
  unfold backoffAfter
  omega

/-- The backoff of a registration. -/
theorem backoffAfter_zero : backoffAfter 0 = kInitBackoffMs.toInt := by
  rw [backoffAfter, Int.pow_zero]
  rfl

/-- One more sleep doubles the backoff up to its cap. -/
theorem backoffAfter_succ (n : Nat) : backoffAfter (n + 1) = min (backoffAfter n * 2) 32000 := by
  unfold backoffAfter
  rw [Int.pow_succ]
  omega

/-- **The doubling stays in range.** -/
theorem nextBackoff_eq {b : Int32} {n : Nat} (hb : b.toInt = backoffAfter n) :
    ∃ b', nextBackoff b = some b' ∧ b'.toInt = backoffAfter (n + 1) := by
  obtain ⟨hlo, hhi⟩ := backoffAfter_bounds n
  have hcap : kMaxBackoffMs.toInt = 32000 := by decide
  have hdouble : b.toInt * (2 : Int32).toInt = backoffAfter n * 2 := by
    rw [hb]
    rfl
  obtain ⟨c, hc, hval⟩ := mulInt_eq hdouble (by omega) (by omega)
  refine ⟨min c kMaxBackoffMs, by rw [nextBackoff, hc, Option.map_some], ?_⟩
  rw [toInt_min32, hval, hcap, backoffAfter_succ]

/-- **The wait after a failed registration stays in range**, whatever the edge asks for. -/
theorem waitMs_eq (r : Int64) {b : Int32} {before : List Event}
    (hb : b.toInt = backoffAfter (sleepsSince before)) :
    ∃ d, waitMs r b = some d ∧ d.toInt = delayOf before (some r) := by
  have hpos : r > 0 ↔ 0 < r.toInt := Int64.lt_iff_toInt_lt
  unfold waitMs delayOf
  by_cases hr : 0 < r.toInt
  · have hmin := toInt_min64 r (kMaxBackoffMs / 1000).toInt64
    rw [show (kMaxBackoffMs / 1000).toInt64.toInt = 32 by decide] at hmin
    obtain ⟨s, hs, hsval⟩ := castInt_eq (a := min r (kMaxBackoffMs / 1000).toInt64) (by omega)
      (by omega)
    have hmul : s.toInt * (1000 : Int32).toInt = 1000 * min r.toInt 32 := by
      rw [hsval, hmin, Int.mul_comm]
      rfl
    obtain ⟨d, hd, hdval⟩ := mulInt_eq hmul (by omega) (by omega)
    refine ⟨d, by rw [if_pos (hpos.mpr hr), hs, Option.bind_some, hd], ?_⟩
    rw [hdval]
    exact (if_pos hr).symm
  · rw [if_neg (mt hpos.mp hr)]
    exact ⟨b, rfl, hb.trans (if_neg hr).symm⟩

/-- Whatever the edge asks for, the delay is between one second and thirty-two. -/
theorem delayOf_bounds (before : List Event) (r : Option Int64) :
    1000 ≤ delayOf before r ∧ delayOf before r ≤ 32000 := by
  have hb := backoffAfter_bounds (sleepsSince before)
  unfold delayOf
  cases r with
  | none => exact hb
  | some r =>
    dsimp only
    split
    · omega
    · exact hb

/-! ## Runs -/

@[simp] theorem sleepsSince_slept (t : List Event) (d : Int32) (r : Option Int64) :
    sleepsSince (t ++ [.slept d r]) = sleepsSince t + 1 := by
  simp [sleepsSince, List.takeWhile_cons, Event.isSleep]

@[simp] theorem sleepsSince_registered (t : List Event) : sleepsSince (t ++ [.registered]) = 0 := by
  simp [sleepsSince, Event.isSleep]

/-- What holds along every run: no overflow, the backoff is that of the sleeps since the last
registration, and so was every delay. -/
structure Steady (s : Thread) : Prop where
  overflow : s.overflow = false
  backoff : s.backoffMs.toInt = backoffAfter (sleepsSince s.trace)
  delays : ∀ before d r after, s.trace = before ++ .slept d r :: after → d.toInt = delayOf before r

/-- The last event of a trace is its end, or behind the event looked for. -/
theorem snoc_eq_append_cons {t before after : List Event} {e e' : Event}
    (h : t ++ [e] = before ++ e' :: after) :
    (t = before ∧ e = e') ∨ ∃ after', t = before ++ e' :: after' := by
  rcases List.eq_nil_or_concat after with rfl | ⟨after', e'', rfl⟩
  · obtain ⟨hpre, hlast⟩ := List.append_inj' h rfl
    exact Or.inl ⟨hpre, List.singleton_inj.mp hlast⟩
  · rw [List.concat_eq_append, ← List.cons_append, ← List.append_assoc] at h
    exact Or.inr ⟨after', (List.append_inj' h rfl).1⟩

/-- A sleep keeps it, when its delay is what it is to be. -/
theorem Steady.sleep {s : Thread} (h : Steady s) {delay : Option Int32} {d : Int32}
    {r : Option Int64} (hdelay : delay = some d) (hd : d.toInt = delayOf s.trace r) :
    Steady (s.sleep delay r) := by
  obtain ⟨b, hb, hbval⟩ := nextBackoff_eq h.backoff
  simp only [Thread.sleep, hdelay, hb]
  refine ⟨h.overflow, by rw [sleepsSince_slept]; exact hbval, fun before d' r' after heq => ?_⟩
  rcases snoc_eq_append_cons heq with ⟨rfl, hlast⟩ | ⟨after', htrace⟩
  · cases hlast
    exact hd
  · exact h.delays before d' r' after' htrace

/-- Every step keeps it. -/
theorem Steady.step {s s' : Thread} {o : Outcome} (h : Steady s) (hstep : s.step o = some s') :
    Steady s' := by
  have hsame : ∀ pc, Steady { s with pc := pc } := fun _ => ⟨h.overflow, h.backoff, h.delays⟩
  obtain ⟨pc, backoffMs, trace, overflow⟩ := s
  obtain rfl : overflow = false := h.overflow
  cases pc with
  | loop =>
    cases o with
    | connectFailed =>
      cases hstep
      exact h.sleep rfl h.backoff
    | connected | stopped =>
      cases hstep
      exact hsame _
    | registerFailed | registered | woken => cases hstep
  | registering =>
    cases o with
    | registerFailed r =>
      cases hstep
      obtain ⟨d, hd, hdval⟩ := waitMs_eq r h.backoff
      exact h.sleep hd hdval
    | registered =>
      cases hstep
      refine ⟨rfl, ?_, ?_⟩
      · rw [sleepsSince_registered]
        exact backoffAfter_zero.symm
      · intro before d r after heq
        rcases snoc_eq_append_cons heq with ⟨-, hlast⟩ | ⟨after', htrace⟩
        · cases hlast
        · exact h.delays before d r after' htrace
    | connectFailed | connected | woken | stopped => cases hstep
  | serving =>
    cases o with
    | woken sleep =>
      cases hstep
      split
      · exact h.sleep rfl h.backoff
      · exact hsame _
    | connectFailed | connected | registerFailed | registered | stopped => cases hstep
  | exited => cases hstep

/-- **Reconnect delays stay bounded.** In every state of every run, whatever the outcomes and whatever
the edge asks for: no computation has overflowed and no cast has changed a value; `backoff_ms` is that
of the sleeps since the last registration; and every sleep so far was between one second and
thirty-two, and was the backoff of its moment or, after a failed registration, what the edge asked for
within that range. -/
theorem delays_bounded {s : Thread} (h : thread.Reachable s) :
    s.overflow = false ∧ s.backoffMs.toInt = min (1000 * 2 ^ sleepsSince s.trace) 32000 ∧
      ∀ before d r after, s.trace = before ++ .slept d r :: after →
        1000 ≤ d.toInt ∧ d.toInt ≤ 32000 ∧ d.toInt = delayOf before r := by
  have hsteady : Steady s :=
    h.invariant ⟨rfl, by decide, by simp [thread]⟩ fun s o s' _ _ hstep hs => hs.step hstep
  refine ⟨hsteady.overflow, hsteady.backoff, fun before d r after heq => ?_⟩
  have hd := hsteady.delays before d r after heq
  have hbounds := delayOf_bounds before r
  exact ⟨by omega, by omega, hd⟩

/-- An edge that asks for the longest delay, then one that asks for a negative one. -/
def rudeEdge : List Outcome :=
  [.connected, .registerFailed 9223372036854775807, .connected, .registerFailed (-1), .connectFailed]

theorem delays_bounded_rudeEdge : ∃ s, thread.exec (fun _ _ => True) thread.init rudeEdge = some s ∧
    s.trace = [.slept 32000 (some 9223372036854775807), .slept 2000 (some (-1)), .slept 4000 none] ∧
      s.backoffMs.toInt = min (1000 * 2 ^ sleepsSince s.trace) 32000 := by
  obtain ⟨s, hexec⟩ : ∃ s, thread.exec (fun _ _ => True) thread.init rudeEdge = some s := ⟨_, rfl⟩
  refine ⟨s, hexec, ?_, (delays_bounded (Machine.reach_of_exec hexec)).2.1⟩
  cases hexec
  rfl

end Cfd.Main.Backoff
