import Cfd.Router.Reader

/-!
# Starting and stopping the router

What holds between the calls of `start` and `stop`, and between them and the reader.

`Phase` is what the caller's position says of the flag, the thread object and the pipe; it holds
whatever the system answers, and with it `reader_` is never assigned over a joinable thread.

* `running_pumps`: the reader of a running router is in its loop, as long as the system reports no
  error to it. An error ends the loop with `running_` left `true`, and the next `start` returns at
  once; the path of `start` on which `pipe2` fails stores `false`.
* `stop_final`: after a call of `stop` at most one packet is handed on; and where the call has returned,
  `running_` is `false`, the reader is out of its loop, and none is.
-/

set_option autoImplicit false

namespace Cfd.Router

open Cfd.Base Cfd.Net Cfd.Net.Netlink

/-! ## What the caller's position says -/

/-- Both ends of a wake pipe are open, and nothing is in it. -/
structure Piped (wakeR wakeW written : Bool) : Prop where
  wakeR : wakeR = true
  wakeW : wakeW = true
  written : written = false

/-- The flag, the thread object and the pipe, by the position of the caller. -/
def Phase (s : State) : Prop :=
  s.terminated = false ∧
    match s.caller with
    | .outside => s.joinable = s.running ∧ (s.running = true → Piped s.wakeR s.wakeW s.written)
    | .pipe | .pipeFailed | .setWakeR => s.running = true ∧ s.joinable = false
    | .setWakeW => s.running = true ∧ s.joinable = false ∧ s.wakeR = true ∧ s.written = false
    | .launch => s.running = true ∧ s.joinable = false ∧ Piped s.wakeR s.wakeW s.written
    | .write => s.running = false ∧ s.joinable = true ∧ Piped s.wakeR s.wakeW s.written
    | .join => s.running = false ∧ s.joinable = true ∧ s.wakeW = true
    | .resetWakeW | .resetWakeR => s.running = false ∧ s.joinable = false

theorem Phase.step {s s' : State} {a : Input} (h : Phase s) (hmove : Moves s a s') : Phase s' := by
  obtain ⟨hterminated, hcase⟩ := h
  refine ⟨?_, ?_⟩
  · cases hmove with
    | terminate hcaller hjoinable =>
      rw [hcaller] at hcase
      exact nomatch hjoinable.symm.trans hcase.2.1
    | _ => exact hterminated
  · cases hmove with
    | startAgain => exact hcase
    | start hcaller hrunning =>
      rw [hcaller] at hcase
      exact ⟨rfl, hcase.1.trans hrunning⟩
    | pipeOk hcaller | pipeBad hcaller =>
      rw [hcaller] at hcase
      exact hcase
    | pipeFailed hcaller =>
      rw [hcaller] at hcase
      exact ⟨hcase.2, nofun⟩
    | setWakeR hcaller =>
      rw [hcaller] at hcase
      exact ⟨hcase.1, hcase.2, rfl, rfl⟩
    | setWakeW hcaller =>
      rw [hcaller] at hcase
      exact ⟨hcase.1, hcase.2.1, hcase.2.2.1, rfl, hcase.2.2.2⟩
    | terminate hcaller hjoinable =>
      rw [hcaller] at hcase
      exact nomatch hjoinable.symm.trans hcase.2.1
    | launch hcaller =>
      rw [hcaller] at hcase
      exact ⟨hcase.1.symm, fun _ => hcase.2.2⟩
    | stopAgain => exact hcase
    | stop hcaller hrunning =>
      rw [hcaller] at hcase
      exact ⟨rfl, hcase.1.trans hrunning, hcase.2 hrunning⟩
    | write hcaller =>
      rw [hcaller] at hcase
      exact ⟨hcase.1, hcase.2.1, hcase.2.2.wakeW⟩
    | join hcaller =>
      rw [hcaller] at hcase
      exact ⟨hcase.1, rfl⟩
    | joinNone hcaller hjoinable =>
      rw [hcaller] at hcase
      exact ⟨hcase.1, hjoinable⟩
    | resetWakeW hcaller =>
      rw [hcaller] at hcase
      exact hcase
    | resetWakeR hcaller =>
      rw [hcaller] at hcase
      refine ⟨hcase.2.trans hcase.1.symm, fun hrunning => ?_⟩
      exact nomatch hrunning.symm.trans hcase.1
    | _ => exact hcase

theorem phase {guard : State → Input → Prop} {s : State} (h : router.Reach guard s) : Phase s :=
  h.invariant ⟨rfl, rfl, nofun⟩ fun _ _ _ _ _ hstep hs => hs.step (step_moves hstep)

/-- While a thread is joinable, the write end is open; and while `running_` is `true` besides,
nothing has been written. -/
theorem Phase.joinable {s : State} (h : Phase s) (hjoinable : s.joinable = true) :
    s.wakeW = true ∧ (s.running = true → s.written = false) := by
  obtain ⟨-, hcase⟩ := h
  split at hcase
  next =>
    have hpiped := hcase.2 (hcase.1.symm.trans hjoinable)
    exact ⟨hpiped.wakeW, fun _ => hpiped.written⟩
  next => exact nomatch hjoinable.symm.trans hcase.2
  next => exact nomatch hjoinable.symm.trans hcase.2
  next => exact nomatch hjoinable.symm.trans hcase.2
  next => exact nomatch hjoinable.symm.trans hcase.2.1
  next => exact nomatch hjoinable.symm.trans hcase.2.1
  next => exact ⟨hcase.2.2.wakeW, fun _ => hcase.2.2.written⟩
  next => exact ⟨hcase.2.2, fun hrunning => nomatch hrunning.symm.trans hcase.1⟩
  next => exact nomatch hjoinable.symm.trans hcase.2
  next => exact nomatch hjoinable.symm.trans hcase.2

/-- In its loop, the reader is a joinable thread. -/
theorem Joined.joinable {s : State} (h : Joined s) (habsent : s.reader ≠ .absent)
    (hleft : s.reader ≠ .left) : s.joinable = true := by
  by_contra hjoinable
  rcases h (Bool.eq_false_iff.mpr hjoinable) with hreader | hreader
  · exact habsent hreader
  · exact hleft hreader

/-! ## A running router is pumping -/

/-- No error: while `running_` is `true`, neither `poll` nor the read of the TUN device fails, but
with an `errno` that the loop goes on after; and the wake pipe is readable only after a write to
it. -/
def untroubled (s : State) : Input → Prop
  | .poll (.error errno) => s.running = true → errno = .EINTR
  | .poll (.ready _ wake) => wake.pollin = true → s.written = true
  | .read .eof => s.running = false
  | .read (.error errno) => s.running = true → errno = .EINTR ∨ errno = .EAGAIN
  | _ => True

instance (s : State) : ∀ a : Input, Decidable (untroubled s a)
  | .poll (.error _) => inferInstanceAs (Decidable (_ → _))
  | .poll .timeout => inferInstanceAs (Decidable True)
  | .poll (.ready _ _) => inferInstanceAs (Decidable (_ → _))
  | .read (.packet _) => inferInstanceAs (Decidable True)
  | .read .eof => inferInstanceAs (Decidable (_ = _))
  | .read (.error _) => inferInstanceAs (Decidable (_ → _))
  | .start => inferInstanceAs (Decidable True)
  | .stop => inferInstanceAs (Decidable True)
  | .caller _ => inferInstanceAs (Decidable True)
  | .reader => inferInstanceAs (Decidable True)

/-- A joinable thread of a running router is in its loop. -/
def Pumping (s : State) : Prop :=
  s.running = true → s.joinable = true → s.reader ≠ .absent ∧ s.reader ≠ .left

theorem Pumping.step {s s' : State} {a : Input} (hphase : Phase s) (hjoined : Joined s)
    (hguard : untroubled s a) (h : Pumping s) (hmove : Moves s a s') : Pumping s' := by
  cases hmove with
  | startAgain => exact h
  | start hcaller hrunning =>
    intro _ hjoinable
    obtain ⟨-, hcase⟩ := hphase
    rw [hcaller] at hcase
    exact nomatch hjoinable.symm.trans (hcase.1.trans hrunning)
  | pipeOk => exact h
  | pipeBad => exact h
  | pipeFailed => exact nofun
  | setWakeR => exact h
  | setWakeW => exact h
  | terminate => exact h
  | launch => exact fun _ _ => ⟨nofun, nofun⟩
  | stopAgain => exact h
  | stop => exact nofun
  | write => exact h
  | join => exact fun _ => nofun
  | joinNone => exact h
  | resetWakeW => exact h
  | resetWakeR => exact h
  | turn => exact fun _ _ => ⟨nofun, nofun⟩
  | leave _ hrunning => exact fun htrue => nomatch htrue.symm.trans hrunning
  | pollAgain => exact fun _ _ => ⟨nofun, nofun⟩
  | pollError _ herrno => exact fun hrunning => absurd (hguard hrunning) herrno
  | woken hreader hwake =>
    intro hrunning
    have hjoinable := hjoined.joinable (by rw [hreader]; nofun) (by rw [hreader]; nofun)
    have hempty := (hphase.joinable hjoinable).2 hrunning
    exact nomatch (hguard hwake).symm.trans hempty
  | ready => exact fun _ _ => ⟨nofun, nofun⟩
  | packet => exact fun _ _ => ⟨nofun, nofun⟩
  | readAgain => exact fun _ _ => ⟨nofun, nofun⟩
  | readError _ hresult =>
    intro hrunning
    rcases hresult with rfl | ⟨errno, rfl, hintr, hagain⟩
    · exact nomatch hrunning.symm.trans hguard
    · rcases hguard hrunning with herrno | herrno
      · exact absurd herrno hintr
      · exact absurd herrno hagain
  | routed => exact fun _ _ => ⟨nofun, nofun⟩

/-- **A running router is pumping**, in every run in which the system reports no error to the reader
while `running_` is `true`: outside `start` and `stop`, the reader is in its loop; and in none does
`start` assign over a joinable thread. -/
theorem running_pumps {s : State} (h : router.Reach untroubled s) :
    (s.caller = .outside → s.running = true → s.reader ≠ .absent ∧ s.reader ≠ .left) ∧
      s.terminated = false := by
  have hpumping : Pumping s := h.invariant (I := Pumping)
    (by intro hrunning; cases hrunning) fun _ _ _ hr hguard hstep hs =>
      hs.step (phase hr) (joined hr) hguard (step_moves hstep)
  obtain ⟨hterminated, hcase⟩ := phase h
  refine ⟨fun hcaller hrunning => hpumping hrunning ?_, hterminated⟩
  rw [hcaller] at hcase
  exact hcase.1.trans hrunning

/-- A start, with every system call succeeding. -/
def starting : List Input :=
  [.start, .caller true, .caller true, .caller true, .caller true]

theorem running_pumps_started : ∃ s, router.Reach untroubled s ∧ s.running = true ∧
    s.reader ≠ .left := by
  have hexec : router.exec untroubled router.init starting = some _ := rfl
  have hreach := Machine.reach_of_exec hexec
  exact ⟨_, hreach, rfl, ((running_pumps hreach).1 rfl rfl).2⟩

/-- `EIO`. -/
def EIO : ErrorCode := ⟨5, by decide⟩

/-- A start, and a failing read of the TUN device. -/
def failingRead : List Input :=
  starting ++ [.reader, .poll (.ready ⟨true, false⟩ ⟨false, false⟩), .read (.error EIO)]

/-- After it the router is running without a reader, and a further `start` does nothing. -/
theorem running_without_reader : ∃ s, router.Reachable s ∧ s.caller = .outside ∧
    s.running = true ∧ s.reader = .left ∧ router.step s .start = some s := by
  have hexec : router.exec (fun _ _ => True) router.init failingRead = some _ := rfl
  exact ⟨_, Machine.reach_of_exec hexec, rfl, rfl, rfl, rfl⟩

/-- Whatever breaks `untroubled` in a running router ends its reader. -/
theorem troubled_ends {s s' : State} {a : Input} (htrouble : ¬ untroubled s a)
    (hmove : Moves s a s') (hrunning : s.running = true) :
    s'.running = true ∧ s'.reader = .left := by
  cases hmove with
  | pollAgain _ hresult =>
    rcases hresult with rfl | rfl
    · exact absurd trivial htrouble
    · exact absurd (fun _ => rfl) htrouble
  | pollError => exact ⟨hrunning, rfl⟩
  | woken => exact ⟨hrunning, rfl⟩
  | ready _ hwake => exact absurd (fun htrue => nomatch htrue.symm.trans hwake) htrouble
  | readAgain _ herrno => exact absurd (fun _ => herrno) htrouble
  | readError => exact ⟨hrunning, rfl⟩
  | _ => exact absurd trivial htrouble

/-! ## Stopping -/

/-- What is assumed of `poll`: when it does not time out, a descriptor has an event; and the read
end of the wake pipe has `POLLIN` once a byte is written, and no other event while the write end is
open. -/
def honest (s : State) : Input → Prop
  | .poll .timeout => s.written = false
  | .poll (.ready tun wake) =>
    (tun.any = true ∨ wake.any = true) ∧ wake.pollin = s.written ∧
      (s.wakeW = true → wake.other = false)
  | _ => True

instance (s : State) : ∀ a : Input, Decidable (honest s a)
  | .poll .timeout => inferInstanceAs (Decidable (_ = _))
  | .poll (.ready _ _) => inferInstanceAs (Decidable (_ ∧ _))
  | .poll (.error _) => inferInstanceAs (Decidable True)
  | .read _ => inferInstanceAs (Decidable True)
  | .start => inferInstanceAs (Decidable True)
  | .stop => inferInstanceAs (Decidable True)
  | .caller _ => inferInstanceAs (Decidable True)
  | .reader => inferInstanceAs (Decidable True)

/-- The reader is about to read only if the TUN descriptor has an event. -/
def Eventful (s : State) : Prop :=
  ∀ tun, s.reader = .read tun → tun.any = true

theorem Eventful.step {s s' : State} {a : Input} (hphase : Phase s) (hjoined : Joined s)
    (hguard : honest s a) (h : Eventful s) (hmove : Moves s a s') : Eventful s' := by
  cases hmove with
  | @ready tun wake hreader hwake =>
    intro tun' htun
    cases htun
    have hjoinable := hjoined.joinable (by rw [hreader]; nofun) (by rw [hreader]; nofun)
    have hother := hguard.2.2 (hphase.joinable hjoinable).1
    refine hguard.1.resolve_right ?_
    rw [Revents.any, hwake, hother]
    nofun
  | launch => exact nofun
  | turn => exact nofun
  | leave => exact nofun
  | pollAgain => exact nofun
  | pollError => exact nofun
  | woken => exact nofun
  | packet => exact nofun
  | readAgain => exact nofun
  | readError => exact nofun
  | routed => exact nofun
  | _ => exact h

/-- The reader's inputs. -/
def Input.isReader : Input → Bool
  | .reader => true
  | .poll _ => true
  | .read _ => true
  | _ => false

/-- No call of `start`. -/
def Input.isStart : Input → Bool
  | .start => true
  | _ => false

/-- How many steps a reader can still take once `running_` is `false`. -/
def ReaderPc.lag : ReaderPc → Nat
  | .absent => 0
  | .left => 0
  | .test => 1
  | .route _ => 2
  | .read _ => 3
  | .poll => 4

/-- How many packets it can still hand on. -/
def ReaderPc.mayHand : ReaderPc → Nat
  | .route _ => 1
  | .read _ => 1
  | .poll => 1
  | _ => 0

/-- A router that is stopping or stopped, and is not started again. -/
structure Stopping (s : State) : Prop where
  phase : Phase s
  joined : Joined s
  running : s.running = false

/-- A call of `stop` stores `false`, whatever it finds. -/
theorem Stopping.of_stop {s s' : State} (hphase : Phase s) (hjoined : Joined s)
    (hstep : router.step s .stop = some s') : Stopping s' := by
  have hmove := step_moves hstep
  refine ⟨hphase.step hmove, hjoined.step hmove, ?_⟩
  cases hmove with
  | stopAgain _ hrunning => exact hrunning
  | stop => rfl

/-- **Where `stop` has returned, the reader is out of its loop**: `stop` has joined it. -/
theorem Stopping.returned {s : State} (h : Stopping s) (hcaller : s.caller = .outside) :
    s.reader = .absent ∨ s.reader = .left := by
  obtain ⟨-, hcase⟩ := h.phase
  rw [hcaller] at hcase
  exact h.joined (hcase.1.trans h.running)

/-- No reader is launched while `running_` is `false`. -/
theorem Phase.not_launch {s : State} (h : Phase s) (hrunning : s.running = false) :
    s.caller ≠ .launch := by
  intro hcaller
  obtain ⟨-, hcase⟩ := h
  rw [hcaller] at hcase
  exact nomatch hcase.1.symm.trans hrunning

theorem Stopping.step {s s' : State} {a : Input} (h : Stopping s) (hstart : a.isStart = false)
    (hmove : Moves s a s') : Stopping s' := by
  refine ⟨h.phase.step hmove, h.joined.step hmove, ?_⟩
  cases hmove with
  | start => exact nomatch hstart
  | pipeFailed => rfl
  | stop => rfl
  | _ => exact h.running

theorem Stopping.lag {s s' : State} {a : Input} (h : Stopping s) (hmove : Moves s a s') :
    s'.reader.lag + (if a.isReader then 1 else 0) ≤ s.reader.lag := by
  cases hmove with
  | launch hcaller => exact absurd hcaller (h.phase.not_launch h.running)
  | turn _ hrunning => exact nomatch hrunning.symm.trans h.running
  | leave hreader | pollAgain hreader | pollError hreader | woken hreader | ready hreader
  | packet hreader | readAgain hreader | readError hreader | routed hreader =>
    rw [hreader]
    simp [ReaderPc.lag, Input.isReader]
  | _ => exact Nat.le_refl _

theorem Stopping.hand {s s' : State} {a : Input} (routes : LpmTrie Action) (tunnel : Bool)
    (h : Stopping s) (hmove : Moves s a s') :
    (s.hands routes tunnel a).length + s'.reader.mayHand ≤ s.reader.mayHand := by
  cases hmove with
  | launch hcaller => exact absurd hcaller (h.phase.not_launch h.running)
  | turn _ hrunning => exact nomatch hrunning.symm.trans h.running
  | leave hreader =>
    rw [State.hands, hreader]
    exact Nat.le_refl _
  | pollAgain hreader | pollError hreader | woken hreader | ready hreader | packet hreader
  | readAgain hreader | readError hreader =>
    rw [hreader]
    simp [ReaderPc.mayHand, State.hands]
  | routed hreader =>
    rw [State.hands, hreader]
    show (if _ then [_] else []).length + 0 ≤ 1
    split
    · exact Nat.le_refl _
    · exact Nat.zero_le _
  | _ => exact Nat.le_of_eq (Nat.zero_add _)

/-- Steps as the system is assumed to answer them, with no call of `start`. -/
def calm (s : State) (a : Input) : Prop :=
  honest s a ∧ a.isStart = false

instance (s : State) (a : Input) : Decidable (calm s a) :=
  inferInstanceAs (Decidable (_ ∧ _))

theorem Stopping.handed {s t : State} (routes : LpmTrie Action) (tunnel : Bool) (hs : Stopping s)
    {history : List (State × Input)} (h : (router.after s).Run calm history t) :
    Stopping t ∧ (handed routes tunnel history).length + t.reader.mayHand ≤ s.reader.mayHand := by
  refine h.invariant (I := fun history t =>
    Stopping t ∧ (Router.handed routes tunnel history).length + t.reader.mayHand ≤ s.reader.mayHand)
    ⟨hs, Nat.le_of_eq (Nat.zero_add _)⟩ fun history t a t' _ hguard hstep ⟨ht, hle⟩ => ?_
  have hmove := step_moves hstep
  have hnext := ht.hand routes tunnel hmove
  refine ⟨ht.step hguard.2 hmove, ?_⟩
  rw [Router.handed, Machine.emitted_snoc, List.length_append]
  rw [Router.handed] at hle
  omega

/-- A router whose `stop` has returned hands nothing on until it is started. -/
theorem Stopping.handed_nil {s t : State} (routes : LpmTrie Action) (tunnel : Bool)
    (hs : Stopping s) (hcaller : s.caller = .outside) {history : List (State × Input)}
    (h : (router.after s).Run calm history t) : Router.handed routes tunnel history = [] := by
  have hle := (hs.handed routes tunnel h).2
  have hnone : s.reader.mayHand = 0 := by
    rcases hs.returned hcaller with hreader | hreader
    · rw [hreader]
      rfl
    · rw [hreader]
      rfl
  exact List.eq_nil_of_length_eq_zero (by omega)

theorem ReaderPc.mayHand_le (pc : ReaderPc) : pc.mayHand ≤ 1 := by
  cases pc <;> simp [mayHand]

theorem ReaderPc.lag_le (pc : ReaderPc) : pc.lag ≤ 4 := by
  cases pc <;> simp [lag]

/-- A reader outside its loop has nothing to do. -/
theorem ReaderPc.lag_eq_zero (pc : ReaderPc) : pc.lag = 0 ↔ pc = .absent ∨ pc = .left := by
  cases pc <;> simp [lag]

/-- In its loop, the reader has a step to take, whatever has been written. -/
theorem reader_enabled {s : State} (hlag : s.reader.lag ≠ 0) :
    ∃ a : Input, a.isReader = true ∧ honest s a ∧ (router.step s a).isSome = true := by
  rw [Ne, ReaderPc.lag_eq_zero, not_or] at hlag
  cases hreader : s.reader with
  | absent => exact absurd hreader hlag.1
  | left => exact absurd hreader hlag.2
  | test =>
    refine ⟨.reader, rfl, trivial, ?_⟩
    simp only [router, State.readerStep, hreader, Option.isSome_some]
  | route n =>
    refine ⟨.reader, rfl, trivial, ?_⟩
    simp only [router, State.readerStep, hreader, Option.isSome_some]
  | read tun =>
    exact ⟨.read .eof, rfl, trivial, read_enabled hreader _⟩
  | poll =>
    exact ⟨.poll (.ready ⟨true, false⟩ ⟨s.written, false⟩), rfl, ⟨Or.inl rfl, rfl, fun _ => rfl⟩,
      poll_enabled hreader _⟩

/-- **Stopping is prompt and final.** Of any reached state, with `poll` as assumed:

* if the reader is about to read, the TUN descriptor has an event;
* after a call of `stop`, `running_` is `false`, and stays so until a further call of `start`; until then
  at most one packet is handed on; and where the call has returned, the reader is out of its loop, and
  none is handed on from there;
* if `running_` is `false` for whatever reason, at most one packet is handed on until a further call of
  `start`, and none if the caller is outside of `start` and `stop`;
* if `running_` is `false`, four steps of the reader take it out of its loop, whatever happens between
  them, and until then it has a step to take;
* if `stop` waits for a reader that has left its loop, it goes on. -/
theorem stop_final (routes : LpmTrie Action) (tunnel : Bool) {s : State}
    (h : router.Reach honest s) :
    (∀ tun, s.reader = .read tun → tun.any = true) ∧
      (∀ s₁, router.step s .stop = some s₁ → s₁.running = false ∧
        ∀ history t, (router.after s₁).Run calm history t →
          t.running = false ∧ (handed routes tunnel history).length ≤ 1 ∧
            (t.caller = .outside → (t.reader = .absent ∨ t.reader = .left) ∧
              ∀ history' u, (router.after t).Run calm history' u →
                handed routes tunnel history' = [])) ∧
      (s.running = false → ∀ history t, (router.after s).Run calm history t →
        (handed routes tunnel history).length ≤ 1 ∧
          (s.caller = .outside → handed routes tunnel history = [])) ∧
      (s.running = false → ∀ as t, router.exec calm s as = some t →
        4 ≤ as.countP Input.isReader → t.reader = .absent ∨ t.reader = .left) ∧
      (s.reader ≠ .absent → s.reader ≠ .left →
        ∃ a : Input, a.isReader = true ∧ honest s a ∧ (router.step s a).isSome = true) ∧
      (s.caller = .join → s.reader = .left → (router.step s (.caller true)).isSome = true) := by
  have hphase := phase h
  have hjoined := joined h
  have heventful : Eventful s := h.invariant (I := Eventful) (by intro tun htun; cases htun)
    fun _ _ _ hr hguard hstep hs => hs.step (phase hr) (joined hr) hguard (step_moves hstep)
  refine ⟨heventful, fun s₁ hstop => ?_, fun hrunning history t hrun => ?_,
    fun hrunning as t hexec hcount => ?_, fun habsent hleft => ?_, fun hcaller hleft => ?_⟩
  · have hs₁ := Stopping.of_stop hphase hjoined hstop
    refine ⟨hs₁.running, fun history t hrun => ?_⟩
    obtain ⟨ht, hle⟩ := hs₁.handed routes tunnel hrun
    have hmay := s₁.reader.mayHand_le
    exact ⟨ht.running, by omega, fun hcaller =>
      ⟨ht.returned hcaller, fun _ _ hrun' => ht.handed_nil routes tunnel hcaller hrun'⟩⟩
  · have hs : Stopping s := ⟨hphase, hjoined, hrunning⟩
    have hle := (hs.handed routes tunnel hrun).2
    have hmay := s.reader.mayHand_le
    exact ⟨by omega, fun hcaller => hs.handed_nil routes tunnel hcaller hrun⟩
  · refine Machine.goal_of_countP Stopping (fun s => s.reader = .absent ∨ s.reader = .left)
      (fun s => s.reader.lag) Input.isReader ?_ ?_ ?_ ?_ ⟨hphase, hjoined, hrunning⟩ hexec
      (Or.inr (Nat.le_trans s.reader.lag_le hcount))
    · exact fun _ _ _ hguard hstep hs => hs.step hguard.2 (step_moves hstep)
    · intro s a s' hstep hs hgoal
      have hle := hs.lag (step_moves hstep)
      rw [← ReaderPc.lag_eq_zero] at hgoal ⊢
      omega
    · exact fun s a s' hstep hs _ => Or.inr (hs.lag (step_moves hstep))
    · exact fun s _ hzero => s.reader.lag_eq_zero.mp hzero
  · exact reader_enabled fun hlag => by
      rcases s.reader.lag_eq_zero.mp hlag with hreader | hreader
      · exact habsent hreader
      · exact hleft hreader
  · simp only [router, State.callerStep, hcaller, hleft]
    split <;> rfl

/-- A start, and a packet read. -/
def busy : List Input :=
  starting ++ [.reader, .poll (.ready ⟨true, false⟩ ⟨false, false⟩), .read (.packet (samplePacket 8))]

/-- What is left of `stop` after its first step, beside the reader that routes the packet and leaves. -/
def busyReturn : List Input :=
  [.caller true, .reader, .reader, .caller true, .caller true, .caller true]

/-- A call of `stop` while the reader has a packet in hand hands it on, and returns. -/
theorem stop_final_busy : ∃ s s₁ history t, router.Reach honest s ∧
    router.step s .stop = some s₁ ∧ (router.after s₁).Run calm history t ∧ t.caller = .outside ∧
    handed sampleTable.trie true history = [(samplePacket 8).val] ∧ t.running = false ∧
    (t.reader = .absent ∨ t.reader = .left) ∧
    ∀ history' u, (router.after t).Run calm history' u → handed sampleTable.trie true history' = [] := by
  have hexec : router.exec honest router.init busy = some _ := rfl
  have hreach := Machine.reach_of_exec hexec
  obtain ⟨-, hafter⟩ := (stop_final sampleTable.trie true hreach).2.1 _ rfl
  obtain ⟨hrunning, -, hgone⟩ := hafter _ _ (@Machine.run_of_exec _ _ _ calm _ busyReturn _ rfl)
  obtain ⟨hreader, hnone⟩ := hgone rfl
  exact ⟨_, _, _, _, hreach, rfl, @Machine.run_of_exec _ _ _ calm _ busyReturn _ rfl, rfl, rfl,
    hrunning, hreader, hnone⟩

end Cfd.Router
