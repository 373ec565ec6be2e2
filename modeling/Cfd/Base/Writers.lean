import Cfd.Base.Machine
import Mathlib.Logic.Function.Basic

/-!
# Writers to one output

Any number of threads that write to one output under a lock, each entry in several pieces. A thread asks
to write an entry, takes the lock, writes the pieces of the entry one by one, and leaves.

`output_eq` is what the lock is for: the output is made of whole entries in the order in which the lock
was taken, but for what is left of the entry that is being written. `asked_eq` says that the entries of
one thread are among these in the order in which it has asked, each once, and `moves_of_busy` that the
threads do not stop half way.
-/

set_option autoImplicit false

namespace Cfd.Base.Writers

variable {ι ε α : Type}

/-- Where a thread stands: outside, about to take the lock for an entry, or inside with these pieces
left. -/
inductive Pc (ε α : Type) where
  | outside
  | asking (e : ε)
  | writing (left : List (List α))
  deriving DecidableEq

/-- The threads, the lock, and the output. -/
structure State (ι ε α : Type) where
  writers : ι → Pc ε α
  lock : Option ι
  output : List α

/-- The steps of a thread. -/
inductive Action (ι ε : Type) where
  | ask (i : ι) (e : ε)
  | take (i : ι)
  | write (i : ι)
  | leave (i : ι)
  deriving DecidableEq

variable [DecidableEq ι] (pieces : ε → List (List α))

namespace State

def setWriter (s : State ι ε α) (i : ι) (p : Pc ε α) : State ι ε α :=
  { s with writers := Function.update s.writers i p }

/-- Any step. -/
def step (s : State ι ε α) : Action ι ε → Option (State ι ε α)
  | .ask i e =>
    match s.writers i with
    | .outside => some (s.setWriter i (.asking e))
    | _ => none
  | .take i =>
    match s.writers i, s.lock with
    | .asking e, none => some { s.setWriter i (.writing (pieces e)) with lock := some i }
    | _, _ => none
  | .write i =>
    match s.writers i with
    | .writing (p :: left) => some { s.setWriter i (.writing left) with output := s.output ++ p }
    | _ => none
  | .leave i =>
    match s.writers i with
    | .writing [] => some { s.setWriter i .outside with lock := none }
    | _ => none

end State

/-- The runs of the threads. -/
def writers (pieces : ε → List (List α)) : Machine (State ι ε α) (Action ι ε) where
  init := ⟨fun _ => .outside, none, []⟩
  step := State.step pieces

/-- What a step does. -/
inductive Moves (s : State ι ε α) : Action ι ε → State ι ε α → Prop
  | ask {i : ι} {e : ε} (hi : s.writers i = .outside) : Moves s (.ask i e) (s.setWriter i (.asking e))
  | take {i : ι} {e : ε} (hi : s.writers i = .asking e) (hlock : s.lock = none) :
      Moves s (.take i) { s.setWriter i (.writing (pieces e)) with lock := some i }
  | write {i : ι} {p : List α} {left : List (List α)} (hi : s.writers i = .writing (p :: left)) :
      Moves s (.write i) { s.setWriter i (.writing left) with output := s.output ++ p }
  | leave {i : ι} (hi : s.writers i = .writing []) :
      Moves s (.leave i) { s.setWriter i .outside with lock := none }

variable {pieces} {s s' : State ι ε α} {a : Action ι ε}

theorem step_moves (h : s.step pieces a = some s') : Moves pieces s a s' := by
  cases a with
  | ask i e =>
    simp only [State.step] at h
    split at h <;> cases h
    next hi => exact .ask hi
  | take i =>
    simp only [State.step] at h
    split at h <;> cases h
    next hi hlock => exact .take hi hlock
  | write i =>
    simp only [State.step] at h
    split at h <;> cases h
    next hi => exact .write hi
  | leave i =>
    simp only [State.step] at h
    split at h <;> cases h
    next hi => exact .leave hi

theorem writers_setWriter (s : State ι ε α) (i : ι) (p : Pc ε α) (j : ι) :
    (s.setWriter i p).writers j = if j = i then p else s.writers j :=
  Function.update_apply s.writers i p j

/-! ## One inside -/

/-- Who writes has the lock, and who has the lock writes. -/
def Locked (s : State ι ε α) : Prop := ∀ i, s.lock = some i ↔ ∃ left, s.writers i = .writing left

theorem Locked.step (hs : Locked s) (h : Moves pieces s a s') : Locked s' := by
  intro j
  cases h with
  | @ask i e hi =>
    show s.lock = some j ↔ ∃ left, (s.setWriter i _).writers j = .writing left
    rw [writers_setWriter, hs j]
    split
    next hji => simp [hji, hi]
    next => rfl
  | @take i e hi hlock =>
    show some i = some j ↔ ∃ left, (s.setWriter i _).writers j = .writing left
    rw [writers_setWriter]
    split
    next hji => simp [hji]
    next hji =>
      have hfree := hs j
      simp only [hlock, reduceCtorEq, false_iff] at hfree
      exact iff_of_false (fun heq => hji (Option.some.inj heq).symm) hfree
  | @write i p left hi =>
    show s.lock = some j ↔ ∃ left, (s.setWriter i _).writers j = .writing left
    rw [writers_setWriter, hs j]
    split
    next hji => simp [hji, hi]
    next => rfl
  | @leave i hi =>
    show none = some j ↔ ∃ left, (s.setWriter i _).writers j = .writing left
    have hheld : s.lock = some i := (hs i).mpr ⟨[], hi⟩
    rw [writers_setWriter]
    split
    next => simp
    next hji =>
      have hother := hs j
      rw [hheld] at hother
      exact iff_of_false nofun fun hwriting => hji (Option.some.inj (hother.mpr hwriting)).symm

theorem reach_locked {guard : State ι ε α → Action ι ε → Prop} (h : (writers pieces).Reach guard s) :
    Locked s := by
  refine h.invariant (I := Locked) (fun i => ?_) fun _ _ _ _ _ hstep hs => hs.step (step_moves hstep)
  exact iff_of_false nofun nofun

/-- A step that makes a thread go on with its entry. -/
def Action.continues : Action ι ε → Bool
  | .ask _ _ => false
  | _ => true

/-- **While a thread has an entry to write, some thread goes on with one.** -/
theorem moves_of_busy (hs : Locked s) {i : ι} (hi : s.writers i ≠ .outside) :
    ∃ a, a.continues = true ∧ (s.step pieces a).isSome = true := by
  have hwriting : ∀ j left, s.writers j = .writing left →
      ∃ a, a.continues = true ∧ (s.step pieces a).isSome = true := by
    intro j left hj
    cases left with
    | nil => exact ⟨.leave j, rfl, by simp only [State.step, hj, Option.isSome_some]⟩
    | cons p left => exact ⟨.write j, rfl, by simp only [State.step, hj, Option.isSome_some]⟩
  cases hlock : s.lock with
  | some j =>
    obtain ⟨left, hj⟩ := (hs j).mp hlock
    exact hwriting j left hj
  | none =>
    cases hpc : s.writers i with
    | outside => exact absurd hpc hi
    | asking e => exact ⟨.take i, rfl, by simp only [State.step, hpc, hlock, Option.isSome_some]⟩
    | writing left => exact hwriting i left hpc

/-! ## The output -/

/-- What is left of the entry that is being written. -/
def State.left (s : State ι ε α) : List α :=
  match s.lock.map s.writers with
  | some (.writing left) => left.flatten
  | _ => []

/-- The entry for which a step takes the lock. -/
def taken (s : State ι ε α) : Action ι ε → List (ι × ε)
  | .take i =>
    match s.writers i with
    | .asking e => [(i, e)]
    | _ => []
  | _ => []

/-- The entry for which a step asks. -/
def asked (_ : State ι ε α) : Action ι ε → List (ι × ε)
  | .ask i e => [(i, e)]
  | _ => []

omit [DecidableEq ι] in
theorem left_of_free (hfree : s.lock = none) : s.left = [] := by
  rw [State.left, hfree]
  rfl

omit [DecidableEq ι] in
theorem left_of_writing {i : ι} {left : List (List α)} (hlock : s.lock = some i)
    (hi : s.writers i = .writing left) : s.left = left.flatten := by
  simp only [State.left, hlock, Option.map_some, hi]

/-- **The output is made of whole entries**, in the order in which the lock was taken, but for what is
left of the last one. -/
theorem output_eq {guard : State ι ε α → Action ι ε → Prop} {history : List (State ι ε α × Action ι ε)}
    (h : (writers pieces).Run guard history s) :
    s.output ++ s.left = (Machine.emitted taken history).flatMap fun x => (pieces x.2).flatten := by
  induction h with
  | init => rfl
  | @step history s s' a hrun _ hstep ih =>
    have hs := reach_locked hrun.reach
    rw [Machine.emitted_snoc, List.flatMap_append, ← ih]
    cases step_moves hstep with
    | @ask i e hi =>
      -- who asks is outside, and does not have the lock
      have hleft : (s.setWriter i (.asking e)).left = s.left := by
        cases hlock : s.lock with
        | none => rw [left_of_free hlock, left_of_free (s := s.setWriter i _) hlock]
        | some j =>
          obtain ⟨left, hj⟩ := (hs j).mp hlock
          have hji : j ≠ i := by
            rintro rfl
            cases hi.symm.trans hj
          rw [left_of_writing hlock hj, left_of_writing (s := s.setWriter i _) hlock]
          rw [writers_setWriter, if_neg hji, hj]
      rw [hleft]
      exact (List.append_nil _).symm
    | @take i e hi hlock =>
      have hself : (s.setWriter i (.writing (pieces e))).writers i = .writing (pieces e) := by
        rw [writers_setWriter, if_pos rfl]
      have hleft : State.left { s.setWriter i (.writing (pieces e)) with lock := some i } =
          (pieces e).flatten := left_of_writing rfl hself
      rw [hleft, left_of_free hlock, List.append_nil]
      simp only [taken, hi, List.flatMap_singleton]
      rfl
    | @write i p left hi =>
      have hself : (s.setWriter i (.writing left)).writers i = .writing left := by
        rw [writers_setWriter, if_pos rfl]
      have hlock : s.lock = some i := (hs i).mpr ⟨_, hi⟩
      have hleft : State.left { s.setWriter i (.writing left) with output := s.output ++ p } =
          left.flatten := left_of_writing (s := { s.setWriter i _ with output := _ }) hlock hself
      rw [hleft, left_of_writing hlock hi, List.flatten_cons, ← List.append_assoc]
      exact (List.append_nil _).symm
    | @leave i hi =>
      have hlock : s.lock = some i := (hs i).mpr ⟨_, hi⟩
      rw [left_of_writing hlock hi, left_of_free rfl]
      exact (List.append_nil _).symm

/-- What is asked for by one thread. -/
def ofWriter (i : ι) (xs : List (ι × ε)) : List ε := (xs.filter fun x => x.1 = i).map Prod.snd

theorem ofWriter_append (i : ι) (xs ys : List (ι × ε)) :
    ofWriter i (xs ++ ys) = ofWriter i xs ++ ofWriter i ys := by
  rw [ofWriter, List.filter_append, List.map_append]
  rfl

/-- The entry for which a thread is about to take the lock. -/
def Pc.pending : Pc ε α → List ε
  | .asking e => [e]
  | _ => []

/-- **The entries of one thread are written in the order in which it has asked**, each once. -/
theorem asked_eq {guard : State ι ε α → Action ι ε → Prop} {history : List (State ι ε α × Action ι ε)}
    (h : (writers pieces).Run guard history s) (i : ι) :
    ofWriter i (Machine.emitted asked history) =
      ofWriter i (Machine.emitted taken history) ++ (s.writers i).pending := by
  induction h with
  | init => rfl
  | @step history s s' a _ _ hstep ih =>
    rw [Machine.emitted_snoc, Machine.emitted_snoc, ofWriter_append, ofWriter_append, ih]
    have hpending : ∀ (j : ι) (p : Pc ε α), ((s.setWriter j p).writers i).pending =
        if i = j then p.pending else (s.writers i).pending := by
      intro j p
      rw [writers_setWriter]
      split <;> rfl
    -- a thread moves that neither asks nor takes the lock
    have hquiet : ∀ (j : ι) (p : Pc ε α), p.pending = (s.writers j).pending → ∀ a : Action ι ε,
        asked s a = [] → taken s a = [] →
          ofWriter i (Machine.emitted taken history) ++ (s.writers i).pending ++ ofWriter i (asked s a) =
            ofWriter i (Machine.emitted taken history) ++ ofWriter i (taken s a) ++
              ((s.setWriter j p).writers i).pending := by
      intro j p hp a hasked htaken
      have hsame : ((s.setWriter j p).writers i).pending = (s.writers i).pending := by
        rw [hpending]
        split
        next hij => rw [hp, hij]
        next => rfl
      rw [hasked, htaken, hsame]
      simp [ofWriter]
    cases step_moves hstep with
    | @ask j e hj =>
      rw [hpending]
      by_cases hij : i = j
      · subst hij
        simp [asked, taken, ofWriter, hj, Pc.pending]
      · simp [asked, taken, ofWriter, hij, Ne.symm hij]
    | @take j e hj =>
      show _ = _ ++ ((s.setWriter j (.writing (pieces e))).writers i).pending
      rw [hpending]
      by_cases hij : i = j
      · subst hij
        simp [asked, taken, ofWriter, hj, Pc.pending]
      · simp [asked, taken, ofWriter, hj, hij, Ne.symm hij]
    | @write j p left hj => exact hquiet j _ (by rw [hj]; rfl) _ rfl rfl
    | @leave j hj => exact hquiet j _ (by rw [hj]; rfl) _ rfl rfl

end Cfd.Base.Writers
