import Cfd.Base.Machine

/-!
# The watchdog of a registration

`register_connection` of `src/tunnel/quic_client.cpp`, once for each work of the registration thread. A
watchdog thread sleeps for `timeout_ms`, tests `done`, and aborts the stream if it is not set. The
registration thread sends, waits, stores `done` when it is answered, and on every way out of its scope
stores `done` and joins the watchdog.

Nothing cuts the sleep short. So a registration that leaves its scope while the watchdog sleeps is
blocked in `join` until the timer expires, however early it was answered (`never_held_iff`), and the
thread that serves all registrations is held for the full `timeout_ms` by each (`held_for_timeout`).
-/

set_option autoImplicit false

namespace Cfd.Tunnel.Watchdog

open Cfd.Base

/-! ## The source -/

/-- Where the registration thread is in `register_connection`. `threw` is whether an exception is on
its way out. -/
inductive KjPc where
  /-- Between two registrations. -/
  | idle
  /-- Making the stream and the RPC client. -/
  | setup
  /-- The watchdog runs; building the request. -/
  | building
  /-- In `wait`. -/
  | waiting
  /-- Answered; about to store `done`. -/
  | answered
  /-- Reading the result. -/
  | reading
  /-- At the end of the scope: `KJ_DEFER`, about to store `done`. -/
  | leaving (threw : Bool)
  /-- Blocked in `watchdog.join`. -/
  | joining (threw : Bool)
  deriving DecidableEq

/-- Where the watchdog is. -/
inductive WatchdogPc where
  | absent
  /-- In `sleep_for`, until this time. -/
  | sleeping (wake : Int)
  /-- About to test `done`. -/
  | awake
  /-- About to call `stream->abort`. -/
  | aborting
  | exited
  deriving DecidableEq

/-- The time in milliseconds, the two threads, `done`, and when the watchdog was started. -/
structure State where
  now : Nat
  pc : KjPc
  watchdog : WatchdogPc
  done : Bool
  started : Nat
  deriving DecidableEq

/-- What can happen. -/
inductive Action where
  | tick
  /-- The thread takes the next work. -/
  | register
  /-- The thread takes its next step: in `wait`, the response has come. -/
  | proceed
  /-- An exception is thrown: the stream or the request cannot be made, `wait` fails, or the result
  cannot be read. -/
  | throw
  | expire
  | test
  | abort
  deriving DecidableEq

/-- The registration thread's next step. -/
def State.proceed (timeoutMs : Int) (s : State) : Option State :=
  match s.pc with
  | .idle => none
  | .setup =>
    some { s with pc := .building, watchdog := .sleeping (s.now + timeoutMs), started := s.now }
  | .building => some { s with pc := .waiting }
  | .waiting => some { s with pc := .answered }
  | .answered => some { s with pc := .reading, done := true }
  | .reading => some { s with pc := .leaving false }
  | .leaving threw => some { s with pc := .joining threw, done := true }
  | .joining _ => if s.watchdog = .exited then some { s with pc := .idle } else none

/-- An exception, where one can be thrown. -/
def State.throw (s : State) : Option State :=
  match s.pc with
  | .setup => some { s with pc := .idle }
  | .building | .waiting | .reading => some { s with pc := .leaving true }
  | _ => none

/-- The registration thread with its watchdogs, for a value of `timeout_ms`. -/
def registration (timeoutMs : Int) : Machine State Action where
  init := ⟨0, .idle, .absent, false, 0⟩
  step := fun s a =>
    match a with
    | .tick => some { s with now := s.now + 1 }
    | .register =>
      if s.pc = .idle then some { s with pc := .setup, watchdog := .absent, done := false } else none
    | .proceed => s.proceed timeoutMs
    | .throw => s.throw
    | .expire =>
      match s.watchdog with
      | .sleeping wake => if wake ≤ s.now then some { s with watchdog := .awake } else none
      | _ => none
    | .test =>
      if s.watchdog = .awake then
        some { s with watchdog := if s.done then .exited else .aborting }
      else none
    | .abort => if s.watchdog = .aborting then some { s with watchdog := .exited } else none

/-! ## Held in `join` -/

/-- In `sleep_for`. -/
def WatchdogPc.isSleeping : WatchdogPc → Bool
  | .sleeping _ => true
  | _ => false

/-- Every way on in which the watchdog exits goes through the expiry of the timer. -/
def ExitsOnlyByTimer (timeoutMs : Int) (s : State) : Prop :=
  ∀ as t, (registration timeoutMs).exec (fun _ _ => True) s as = some t → t.watchdog = .exited →
    .expire ∈ as

/-- `done` is set, and the registration thread is blocked in `join` on a watchdog that exits only by
the timer. -/
def Held (timeoutMs : Int) (s : State) : Prop :=
  s.done = true ∧ (∃ threw, s.pc = .joining threw) ∧ ExitsOnlyByTimer timeoutMs s

/-- The registration thread leaves its scope while the watchdog sleeps. -/
def LeavesEarly (s : State) (a : Action) : Prop :=
  a = .proceed ∧ (∃ threw, s.pc = .leaving threw) ∧ s.watchdog.isSleeping = true

/-- The states a run has passed, the last one included. -/
def passed (history : List (State × Action)) (t : State) : List State := history.map Prod.fst ++ [t]

/-! ## What holds along a run -/

/-- A watchdog exists while the thread is in the scope, and only then does it run; in `join`, `done`
is set; and a watchdog that is past its sleep has slept for `timeout_ms`. -/
structure Sound (timeoutMs : Int) (s : State) : Prop where
  outside : s.pc = .idle ∨ s.pc = .setup → s.watchdog = .absent ∨ s.watchdog = .exited
  inside : s.pc ≠ .idle → s.pc ≠ .setup → s.watchdog ≠ .absent
  done : ∀ threw, s.pc = .joining threw → s.done = true
  wake : ∀ wake, s.watchdog = .sleeping wake → wake = s.started + timeoutMs
  slept : s.watchdog ≠ .absent → s.watchdog.isSleeping = false → s.started + timeoutMs ≤ s.now

/-- A step of the registration thread inside the scope, which leaves the watchdog. -/
theorem Sound.move {timeoutMs : Int} {s : State} (h : Sound timeoutMs s) {pc : KjPc} {done : Bool}
    (hin : s.pc ≠ .idle ∧ s.pc ≠ .setup) (hpc : pc ≠ .idle ∧ pc ≠ .setup)
    (hdone : ∀ threw, pc = .joining threw → done = true) :
    Sound timeoutMs { s with pc := pc, done := done } :=
  ⟨fun hout => absurd hout (by simpa using hpc), fun _ _ => h.inside hin.1 hin.2, hdone, h.wake,
    h.slept⟩

theorem Sound.proceed {timeoutMs : Int} {s s' : State} (h : Sound timeoutMs s)
    (hstep : s.proceed timeoutMs = some s') : Sound timeoutMs s' := by
  unfold State.proceed at hstep
  split at hstep
  next => cases hstep
  next => -- the watchdog is started
    cases hstep
    refine ⟨by simp, by simp, by simp, fun wake hwake => ?_, fun _ hsleep => by cases hsleep⟩
    cases hwake
    rfl
  next hpc => cases hstep; exact h.move (by simp [hpc]) (by simp) (by simp)
  next hpc => cases hstep; exact h.move (by simp [hpc]) (by simp) (by simp)
  next hpc => cases hstep; exact h.move (by simp [hpc]) (by simp) (by simp)
  next hpc => cases hstep; exact h.move (by simp [hpc]) (by simp) (by simp)
  next threw hpc => cases hstep; exact h.move (by simp [hpc]) (by simp) (by simp)
  next threw hpc => -- `join` returns
    split at hstep
    next hexited =>
      cases hstep
      exact ⟨fun _ => Or.inr hexited, by simp, by simp, h.wake, h.slept⟩
    next => cases hstep

theorem Sound.throw {timeoutMs : Int} {s s' : State} (h : Sound timeoutMs s)
    (hstep : s.throw = some s') : Sound timeoutMs s' := by
  unfold State.throw at hstep
  split at hstep
  next hpc =>
    cases hstep
    exact ⟨fun _ => h.outside (Or.inr hpc), by simp, by simp, h.wake, h.slept⟩
  next hpc => cases hstep; exact h.move (by simp [hpc]) (by simp) (by simp)
  next hpc => cases hstep; exact h.move (by simp [hpc]) (by simp) (by simp)
  next hpc => cases hstep; exact h.move (by simp [hpc]) (by simp) (by simp)
  next => cases hstep

/-- A step of a watchdog that is past its sleep, or comes out of it. -/
theorem Sound.watchdog {timeoutMs : Int} {s : State} (h : Sound timeoutMs s) {w : WatchdogPc}
    (hw : w.isSleeping = false) (hne : w ≠ .absent) (hinside : s.pc ≠ .idle ∧ s.pc ≠ .setup)
    (hslept : s.started + timeoutMs ≤ s.now) : Sound timeoutMs { s with watchdog := w } := by
  refine ⟨fun hout => absurd hout (by simpa using hinside), fun _ _ => hne, h.done,
    fun wake hwake => ?_, fun _ _ => hslept⟩
  subst hwake
  cases hw

/-- A watchdog that can still move is inside the scope. -/
theorem Sound.inside_of_running {timeoutMs : Int} {s : State} (h : Sound timeoutMs s)
    (habsent : s.watchdog ≠ .absent) (hexited : s.watchdog ≠ .exited) :
    s.pc ≠ .idle ∧ s.pc ≠ .setup := by
  rw [← not_or]
  intro hout
  rcases h.outside hout with heq | heq
  · exact habsent heq
  · exact hexited heq

theorem Sound.step {timeoutMs : Int} {s s' : State} {a : Action} (h : Sound timeoutMs s)
    (hstep : (registration timeoutMs).step s a = some s') : Sound timeoutMs s' := by
  cases a with
  | tick =>
    cases hstep
    refine ⟨h.outside, h.inside, h.done, h.wake, fun habsent hsleep => ?_⟩
    have hslept := h.slept habsent hsleep
    change s.started + timeoutMs ≤ ((s.now + 1 : Nat) : Int)
    omega
  | register =>
    simp only [registration] at hstep
    split at hstep
    next hpc =>
      cases hstep
      exact ⟨fun _ => Or.inl rfl, by simp, by simp, by simp, by simp⟩
    next => cases hstep
  | proceed => exact h.proceed hstep
  | throw => exact h.throw hstep
  | expire =>
    simp only [registration] at hstep
    split at hstep
    next wake hw =>
      split at hstep
      next hle =>
        cases hstep
        have hwake := h.wake wake hw
        exact h.watchdog rfl (by simp) (h.inside_of_running (by simp [hw]) (by simp [hw])) (by omega)
      next => cases hstep
    next => cases hstep
  | test =>
    simp only [registration] at hstep
    split at hstep
    next hw =>
      cases hstep
      have hslept := h.slept (by simp [hw]) (by rw [hw]; rfl)
      have hinside := h.inside_of_running (by simp [hw]) (by simp [hw])
      exact h.watchdog (by split <;> rfl) (by split <;> simp) hinside hslept
    next => cases hstep
  | abort =>
    simp only [registration] at hstep
    split at hstep
    next hw =>
      cases hstep
      have hslept := h.slept (by simp [hw]) (by rw [hw]; rfl)
      exact h.watchdog rfl (by simp) (h.inside_of_running (by simp [hw]) (by simp [hw])) hslept
    next => cases hstep

theorem sound_of_reach {timeoutMs : Int} {guard : State → Action → Prop} {s : State}
    (h : (registration timeoutMs).Reach guard s) : Sound timeoutMs s :=
  h.invariant ⟨fun _ => Or.inl rfl, by simp [registration], by simp [registration],
    by simp [registration], by simp [registration]⟩ fun _ _ _ _ _ hstep hs => hs.step hstep

/-! ## Who is held -/

/-- In `join`, with the watchdog asleep: only the time moves, until the timer expires. -/
theorem asleep_step {timeoutMs : Int} {s s' : State} {a : Action} {threw : Bool} {wake : Int}
    (hpc : s.pc = .joining threw) (hw : s.watchdog = .sleeping wake) (ha : a ≠ .expire)
    (hstep : (registration timeoutMs).step s a = some s') :
    s'.pc = .joining threw ∧ s'.watchdog = .sleeping wake := by
  cases a with
  | tick => cases hstep; exact ⟨hpc, hw⟩
  | register => simp [registration, hpc] at hstep
  | proceed => simp [registration, State.proceed, hpc, hw] at hstep
  | throw => simp [registration, State.throw, hpc] at hstep
  | expire => exact absurd rfl ha
  | test => simp [registration, hw] at hstep
  | abort => simp [registration, hw] at hstep

/-- So it exits only by the timer. -/
theorem exitsOnlyByTimer_of_asleep {timeoutMs : Int} {s : State} {threw : Bool} {wake : Int}
    (hpc : s.pc = .joining threw) (hw : s.watchdog = .sleeping wake) :
    ExitsOnlyByTimer timeoutMs s := by
  intro as
  induction as generalizing s with
  | nil =>
    intro t hexec hexited
    cases hexec
    rw [hw] at hexited
    cases hexited
  | cons a as ih =>
    intro t hexec hexited
    by_cases ha : a = .expire
    · rw [ha]
      exact List.mem_cons_self
    · rw [Machine.exec, if_pos trivial] at hexec
      split at hexec
      next s' hstep =>
        obtain ⟨hpc', hw'⟩ := asleep_step hpc hw ha hstep
        exact List.mem_cons_of_mem a (ih hpc' hw' t hexec hexited)
      next => cases hexec

/-- A watchdog that is awake exits by steps of its own. -/
theorem not_exitsOnlyByTimer {timeoutMs : Int} {s : State} (habsent : s.watchdog ≠ .absent)
    (hawake : s.watchdog.isSleeping = false) : ¬ ExitsOnlyByTimer timeoutMs s := by
  intro honly
  cases hw : s.watchdog with
  | absent => exact habsent hw
  | sleeping wake =>
    rw [hw] at hawake
    cases hawake
  | awake =>
    cases hdone : s.done with
    | true =>
      have hmem := honly [.test] { s with watchdog := .exited }
        (by simp [Machine.exec, registration, hw, hdone]) rfl
      simp at hmem
    | false =>
      have hmem := honly [.test, .abort] { s with watchdog := .exited }
        (by simp [Machine.exec, registration, hw, hdone]) rfl
      simp at hmem
  | aborting =>
    have hmem := honly [.abort] { s with watchdog := .exited }
      (by simp [Machine.exec, registration, hw]) rfl
    simp at hmem
  | exited =>
    have hmem := honly [] s rfl hw
    cases hmem

/-- **The registration thread is held while it is in `join` and the watchdog sleeps.** -/
theorem held_iff {timeoutMs : Int} {s : State} (h : Sound timeoutMs s) :
    Held timeoutMs s ↔ (∃ threw, s.pc = .joining threw) ∧ s.watchdog.isSleeping = true := by
  constructor
  · rintro ⟨-, ⟨threw, hpc⟩, honly⟩
    refine ⟨⟨threw, hpc⟩, Bool.of_not_eq_false fun hawake => ?_⟩
    exact not_exitsOnlyByTimer (h.inside (by simp [hpc]) (by simp [hpc])) hawake honly
  · rintro ⟨⟨threw, hpc⟩, hsleep⟩
    refine ⟨h.done threw hpc, ⟨threw, hpc⟩, ?_⟩
    cases hw : s.watchdog with
    | sleeping wake => exact exitsOnlyByTimer_of_asleep hpc hw
    | absent | awake | aborting | exited =>
      rw [hw] at hsleep
      cases hsleep

/-- A step into `join` on a sleeping watchdog leaves the scope early. -/
theorem leavesEarly_of_step {timeoutMs : Int} {s s' : State} {a : Action} {threw : Bool}
    (hstep : (registration timeoutMs).step s a = some s') (hpc : s'.pc = .joining threw)
    (hsleep : s'.watchdog.isSleeping = true)
    (hfree : ¬ ((∃ threw, s.pc = .joining threw) ∧ s.watchdog.isSleeping = true)) :
    LeavesEarly s a := by
  cases a with
  | tick =>
    cases hstep
    exact absurd ⟨⟨threw, hpc⟩, hsleep⟩ hfree
  | register =>
    simp only [registration] at hstep
    split at hstep
    next => cases hstep; cases hpc
    next => cases hstep
  | proceed =>
    simp only [registration, State.proceed] at hstep
    split at hstep
    next => cases hstep
    next => cases hstep; cases hpc
    next => cases hstep; cases hpc
    next => cases hstep; cases hpc
    next => cases hstep; cases hpc
    next => cases hstep; cases hpc
    next threw' hleaving => cases hstep; exact ⟨rfl, ⟨threw', hleaving⟩, hsleep⟩
    next => split at hstep <;> cases hstep; cases hpc
  | throw =>
    simp only [registration, State.throw] at hstep
    split at hstep <;> cases hstep <;> cases hpc
  | expire =>
    simp only [registration] at hstep
    split at hstep
    next => split at hstep <;> cases hstep; cases hsleep
    next => cases hstep
  | test =>
    simp only [registration] at hstep
    split at hstep
    next =>
      cases hstep
      revert hsleep
      cases s.done <;> simp [WatchdogPc.isSleeping]
    next => cases hstep
  | abort =>
    simp only [registration] at hstep
    split at hstep <;> cases hstep
    cases hsleep

/-- From a state where it is not held, a step holds it exactly when it leaves the scope early. -/
theorem held_step {timeoutMs : Int} {s s' : State} {a : Action} (h : Sound timeoutMs s)
    (hstep : (registration timeoutMs).step s a = some s') (hfree : ¬ Held timeoutMs s) :
    Held timeoutMs s' ↔ LeavesEarly s a := by
  rw [held_iff (h.step hstep)]
  rw [held_iff h] at hfree
  constructor
  · rintro ⟨⟨threw, hpc⟩, hsleep⟩
    exact leavesEarly_of_step hstep hpc hsleep hfree
  · rintro ⟨rfl, ⟨threw, hpc⟩, hsleep⟩
    simp only [registration, State.proceed, hpc] at hstep
    cases hstep
    exact ⟨⟨threw, rfl⟩, hsleep⟩

/-- **A registration is held for its timer exactly when it leaves its scope early.** In a run, no state
has `done` set and the registration thread blocked in `join` on a watchdog that exits only by the timer,
if and only if each time the thread came to the end of its scope the watchdog's sleep was over. -/
theorem never_held_iff {timeoutMs : Int} {history : List (State × Action)} {t : State}
    (h : (registration timeoutMs).Run (fun _ _ => True) history t) :
    (∀ s ∈ passed history t, ¬ Held timeoutMs s) ↔ ∀ x ∈ history, ¬ LeavesEarly x.1 x.2 := by
  induction h with
  | init =>
    have hidle : ¬ Held timeoutMs (registration timeoutMs).init := by
      rintro ⟨-, ⟨threw, hpc⟩, -⟩
      cases hpc
    simpa [passed] using hidle
  | @step history s s' a hrun _ hstep ih =>
    have hsound := sound_of_reach hrun.reach
    have hpassed : passed (history ++ [(s, a)]) s' = passed history s ++ [s'] := by
      simp [passed]
    simp only [hpassed, List.mem_append, List.mem_singleton, or_imp, forall_and, forall_eq, ih]
    refine and_congr_right fun hearlier => ?_
    have hfree : ¬ Held timeoutMs s := ih.mpr hearlier s (by simp [passed])
    exact not_congr (held_step hsound hstep hfree)

/-- **The thread that serves all registrations is held for the full timeout by each** that got as far as
starting its watchdog: it leaves `join` no earlier than `timeout_ms` after that, however early it was
answered. -/
theorem held_for_timeout {timeoutMs : Int} {s s' : State}
    (h : (registration timeoutMs).Reachable s) {threw : Bool} (hpc : s.pc = .joining threw)
    (hstep : (registration timeoutMs).step s .proceed = some s') :
    s.started + timeoutMs ≤ s.now := by
  have hsound := sound_of_reach h
  simp only [registration, State.proceed, hpc] at hstep
  split at hstep
  next hexited => exact hsound.slept (by simp [hexited]) (by rw [hexited]; rfl)
  next => cases hstep

/-- An answer at once: the thread comes to the end of its scope with the watchdog just started. -/
def answeredAtOnce : List Action :=
  [.register, .proceed, .proceed, .proceed, .proceed, .proceed, .proceed]

/-- With the fifteen seconds of `main`, a registration that is answered at once is held. -/
theorem held_answered_at_once : ∃ s, (registration 15000).Reachable s ∧ Held 15000 s := by
  have hexec : (registration 15000).exec (fun _ _ => True) (registration 15000).init answeredAtOnce =
      some ⟨0, .joining false, .sleeping 15000, true, 0⟩ := rfl
  exact ⟨_, Machine.reach_of_exec hexec, rfl, ⟨false, rfl⟩, exitsOnlyByTimer_of_asleep rfl rfl⟩

/-- An answer that comes when the timer has expired. -/
theorem never_held_iff_late : ∃ history t, (registration 1).Run (fun _ _ => True) history t ∧
    t.pc = .joining false ∧
    ((∀ s ∈ passed history t, ¬ Held 1 s) ↔ ∀ x ∈ history, ¬ LeavesEarly x.1 x.2) := by
  have hexec : (registration 1).exec (fun _ _ => True) (registration 1).init
      [.register, .proceed, .proceed, .tick, .expire, .proceed, .proceed, .proceed, .proceed] =
      some ⟨1, .joining false, .awake, true, 0⟩ := rfl
  obtain ⟨history, hrun⟩ := (Machine.reach_of_exec hexec).exists_run
  exact ⟨history, _, hrun, rfl, never_held_iff hrun⟩

end Cfd.Tunnel.Watchdog
