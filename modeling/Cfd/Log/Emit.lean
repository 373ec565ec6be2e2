import Cfd.Base.Decimal
import Cfd.Base.Refinement
import Cfd.Base.Writers

/-!
# The log

`src/log.cpp` and the macro of `src/include/cfd/log.hpp`: a message is logged if its level is not below
`g_level`, and a line of the log is written in three calls of `stdio` with `g_mu` held. The text of a
message is what its format and arguments make of it, and the time is what the clock says; both are
inputs.

`log_lines` is what `g_mu` is for. However the threads and changes of the level interleave, standard error
is one line for each message that has passed, whole, the lines of a thread in the order in which it has
logged them. A newline in a message or in the name of a file would make two lines of one, so for the lines
to be read back there is to be none.
-/

set_option autoImplicit false

namespace Cfd.Log

open Cfd.Base

/-! ## A line -/

/-- `Level`. -/
inductive Level where
  | trace
  | debug
  | info
  | warn
  | error
  deriving DecidableEq

namespace Level

/-- `static_cast<int>(lvl)`. -/
def toNat : Level → Nat
  | .trace => 0
  | .debug => 1
  | .info => 2
  | .warn => 3
  | .error => 4

/-- `level_str`. -/
def str : Level → Text
  | .trace => ascii "TRACE"
  | .debug => ascii "DEBUG"
  | .info => ascii "INFO "
  | .warn => ascii "WARN "
  | .error => ascii "ERROR"

end Level

/-- What `emit` reads of a `std::tm`. -/
structure Tm where
  sec : Nat
  min : Nat
  hour : Nat
  mday : Nat
  mon : Nat
  year : Nat
  deriving DecidableEq

/-- A number with two digits at least. -/
def twoDigits (n : Nat) : Text := if n < 10 then Text.digit 0 :: Text.print n else Text.print n

/-- `strftime` with the format `%Y-%m-%dT%H:%M:%S`. -/
def Tm.strftime (tm : Tm) : Text :=
  Text.print (tm.year + 1900) ++ ascii "-" ++ twoDigits (tm.mon + 1) ++ ascii "-" ++ twoDigits tm.mday ++
    ascii "T" ++ twoDigits tm.hour ++ ascii ":" ++ twoDigits tm.min ++ ascii ":" ++ twoDigits tm.sec

/-- The part behind the last `/`, or all. -/
def basename (file : Text) : Text := (file.reverse.takeWhile (· ≠ 47)).reverse

/-- The arguments of `emit`, with the text that the format makes of the rest, and the time. -/
structure Entry where
  lvl : Level
  file : Text
  line : Nat
  message : Text
  tm : Tm
  deriving DecidableEq

/-- What `"%s %s %s:%d  "` makes of it. -/
def Entry.header (e : Entry) : Text :=
  e.tm.strftime ++ ascii " " ++ e.lvl.str ++ ascii " " ++ basename e.file ++ ascii ":" ++
    Text.print e.line ++ ascii "  "

/-- The calls of `fprintf`, `vfprintf` and `fputc`. -/
def Entry.pieces (e : Entry) : List Text := [e.header, e.message, [10]]

/-- The line of an entry. -/
def Entry.text (e : Entry) : Text := e.header ++ e.message

/-! ## The threads -/

/-- `g_level`, and the threads with `g_mu` and standard error. -/
structure State (ι : Type) where
  level : Level
  out : Writers.State ι Entry UInt8

/-- A message is logged by a thread, which is in `emit` if it passes the test; it takes `g_mu`, makes a
call of `stdio`, and gives `g_mu` back; and the level is set. -/
inductive Action (ι : Type) where
  | log (i : ι) (e : Entry)
  | lock (i : ι)
  | write (i : ι)
  | unlock (i : ι)
  | setLevel (lvl : Level)
  deriving DecidableEq

variable {ι : Type} [DecidableEq ι]

/-- The test of `CFD_LOG`. -/
def State.passes (s : State ι) (lvl : Level) : Bool := s.level.toNat ≤ lvl.toNat

/-- What a step is to the writers. -/
def State.writer (s : State ι) : Action ι → Option (Writers.Action ι Entry)
  | .log i e => if s.passes e.lvl then some (.ask i e) else none
  | .lock i => some (.take i)
  | .write i => some (.write i)
  | .unlock i => some (.leave i)
  | .setLevel _ => none

/-- Any step. A thread logs while it is not in `emit`. -/
def State.step (s : State ι) (a : Action ι) : Option (State ι) :=
  match a with
  | .setLevel lvl => some { s with level := lvl }
  | .log i _ =>
    if s.out.writers i ≠ .outside then none
    else
      match s.writer a with
      | some b => (s.out.step Entry.pieces b).map fun out => { s with out }
      | none => some s
  | .lock _ | .write _ | .unlock _ =>
    (s.writer a).bind fun b => (s.out.step Entry.pieces b).map fun out => { s with out }

/-- The runs of any threads that log. -/
def logger (ι : Type) [DecidableEq ι] : Machine (State ι) (Action ι) where
  init := ⟨.info, (Writers.writers Entry.pieces).init⟩
  step := State.step

/-- The messages that pass the test. -/
def passed (s : State ι) : Action ι → List (ι × Entry)
  | .log i e => if s.passes e.lvl then [(i, e)] else []
  | _ => []

/-- The messages for which `g_mu` is taken. -/
def locked (s : State ι) : Action ι → List (ι × Entry)
  | .lock i => Writers.taken s.out (.take i)
  | _ => []

/-- The log is the writers, with a level. -/
theorem logger_refines : Machine.Refines (logger ι) (fun _ _ => True) (Writers.writers Entry.pieces)
    (fun _ _ => True) State.out State.writer where
  init := rfl
  move s a s' b _ _ hstep hb := by
    refine ⟨trivial, ?_⟩
    have hwriter : (s.out.step Entry.pieces b).map (fun out => { s with out }) = some s' := by
      cases a with
      | setLevel => cases hb
      | log i e =>
        simp only [logger, State.step, hb] at hstep
        split at hstep
        next => cases hstep
        next => exact hstep
      | lock | write | unlock =>
        cases hb
        exact hstep
    obtain ⟨out, hout, rfl⟩ := Option.map_eq_some_iff.mp hwriter
    exact hout
  stay s a s' _ _ hstep hb := by
    cases a with
    | setLevel =>
      cases hstep
      rfl
    | log i e =>
      simp only [logger, State.step, hb] at hstep
      split at hstep <;> cases hstep
      rfl
    | lock | write | unlock => cases hb

/-! ## The lines -/

theorem twoDigits_isDigit {n : Nat} {c : UInt8} (h : c ∈ twoDigits n) : Text.isDigit c = true := by
  unfold twoDigits at h
  split at h
  next =>
    rcases List.mem_cons.mp h with rfl | hc
    · exact (Text.digit_spec 0 (by decide)).1.trans rfl
    · exact Text.print_isDigit hc
  next => exact Text.print_isDigit h

/-- A newline is no digit. -/
theorem newline_notMem {s : Text} (h : ∀ c ∈ s, Text.isDigit c = true) : 10 ∉ s :=
  fun hmem => absurd (h 10 hmem) (by decide)

theorem Tm.newline_notMem_strftime (tm : Tm) : 10 ∉ tm.strftime := by
  have htwo : ∀ n, 10 ∉ twoDigits n := fun n => newline_notMem fun c => twoDigits_isDigit
  have hyear : 10 ∉ Text.print (tm.year + 1900) := newline_notMem fun c => Text.print_isDigit
  have hdash : 10 ∉ ascii "-" := by decide
  have hcolon : 10 ∉ ascii ":" := by decide
  have hT : 10 ∉ ascii "T" := by decide
  simp only [Tm.strftime, List.mem_append, htwo, hyear, hdash, hcolon, hT, or_self, not_false_eq_true]

/-- A line holds a newline only where the message or the name of the file does. -/
theorem Entry.newline_notMem_text {e : Entry} (hfile : 10 ∉ e.file) (hmessage : 10 ∉ e.message) :
    10 ∉ e.text := by
  have hlevel : 10 ∉ e.lvl.str := by cases e.lvl <;> decide
  have hbase : 10 ∉ basename e.file := by
    intro h
    have hmem := List.mem_reverse.mp h
    exact hfile (List.mem_reverse.mp (List.takeWhile_subset _ hmem))
  have hline : 10 ∉ Text.print e.line := newline_notMem fun c => Text.print_isDigit
  have hblank : 10 ∉ ascii " " := by decide
  have hblanks : 10 ∉ ascii "  " := by decide
  have hcolon : 10 ∉ ascii ":" := by decide
  simp only [Entry.text, Entry.header, List.mem_append, e.tm.newline_notMem_strftime, hlevel, hbase, hline,
    hmessage, hblank, hblanks, hcolon, or_self, not_false_eq_true]

omit [DecidableEq ι] in
/-- The pieces of entries are their lines. -/
theorem flatMap_pieces (xs : List (ι × Entry)) : (xs.flatMap fun x => x.2.pieces.flatten) =
    Text.unlines (xs.map fun x => x.2.text) := by
  induction xs with
  | nil => rfl
  | cons x xs ih =>
    rw [List.flatMap_cons, ih, List.map_cons, Text.unlines]
    simp [Entry.pieces, Entry.text]

variable {history : List (State ι × Action ι)} {s : State ι}

omit [DecidableEq ι] in
/-- What the writers have asked for is what has passed. -/
theorem emitted_asked (history : List (State ι × Action ι)) :
    Machine.emitted Writers.asked (Machine.seen State.out State.writer history) =
      Machine.emitted passed history := by
  rw [Machine.emitted_seen]
  congr 1
  funext s a
  cases a with
  | log i e =>
    simp only [State.writer, passed]
    split <;> rfl
  | lock | write | unlock | setLevel => rfl

omit [DecidableEq ι] in
theorem emitted_taken (history : List (State ι × Action ι)) :
    Machine.emitted Writers.taken (Machine.seen State.out State.writer history) =
      Machine.emitted locked history := by
  rw [Machine.emitted_seen]
  congr 1
  funext s a
  cases a with
  | log i e =>
    simp only [State.writer, locked]
    split <;> rfl
  | lock | write | unlock | setLevel => rfl

/-- Who has taken the lock has passed. -/
theorem mem_passed_of_locked (h : (logger ι).Run (fun _ _ => True) history s) {x : ι × Entry}
    (hx : x ∈ Machine.emitted locked history) : x ∈ Machine.emitted passed history := by
  have hmem : x.2 ∈ Writers.ofWriter x.1 (Machine.emitted passed history) := by
    rw [← emitted_asked, Writers.asked_eq (logger_refines.run h), emitted_taken]
    refine List.mem_append_left _ (List.mem_map.mpr ⟨x, ?_, rfl⟩)
    exact List.mem_filter.mpr ⟨hx, by simp⟩
  obtain ⟨y, hy, heq⟩ := List.mem_map.mp hmem
  obtain ⟨hy, hthread⟩ := List.mem_filter.mp hy
  rwa [Prod.ext (of_decide_eq_true hthread) heq] at hy

/-- The steps of a thread that is in `emit`. -/
def Action.inEmit : Action ι → Bool
  | .lock _ | .write _ | .unlock _ => true
  | .log _ _ | .setLevel _ => false

theorem moves_of_inEmit (h : (logger ι).Run (fun _ _ => True) history s) {i : ι}
    (hi : s.out.writers i ≠ .outside) : ∃ a, a.inEmit = true ∧ ((logger ι).step s a).isSome = true := by
  have hlocked := Writers.reach_locked (logger_refines.run h).reach
  obtain ⟨b, hb, hstep⟩ := Writers.moves_of_busy hlocked hi
  have hmoves : ∀ a : Action ι, (logger ι).step s a =
      ((s.out.step Entry.pieces b).map fun out => { s with out }) →
      ((logger ι).step s a).isSome = true := by
    intro a ha
    rw [ha, Option.isSome_map]
    exact hstep
  cases b with
  | ask => cases hb
  | take j => exact ⟨.lock j, rfl, hmoves _ rfl⟩
  | write j => exact ⟨.write j, rfl, hmoves _ rfl⟩
  | leave j => exact ⟨.unlock j, rfl, hmoves _ rfl⟩

/-- **The log is made of whole lines.** In every run of any threads that log, while the level changes,
standard error, with what is left of the line that is being written, is one line for each message for
which `g_mu` was taken, in that order; for each thread these are the messages that it logged and that
passed the test, in order and each once, but for one at most that still waits for `g_mu`; and while a
thread is in `emit`, some thread in `emit` can go on. If nobody has `g_mu`, and no newline is in a message
or in the name of a file, the lines of standard error are these. -/
theorem log_lines (h : (logger ι).Run (fun _ _ => True) history s) :
    s.out.output ++ s.out.left =
        Text.unlines ((Machine.emitted locked history).map fun x => x.2.text) ∧
      (∀ i, Writers.ofWriter i (Machine.emitted passed history) =
        Writers.ofWriter i (Machine.emitted locked history) ++ (s.out.writers i).pending) ∧
      (∀ i, s.out.writers i ≠ .outside →
        ∃ a, a.inEmit = true ∧ ((logger ι).step s a).isSome = true) ∧
      (s.out.lock = none → (∀ x ∈ Machine.emitted passed history, 10 ∉ x.2.file ∧ 10 ∉ x.2.message) →
        Text.lines s.out.output = (Machine.emitted locked history).map fun x => x.2.text) := by
  have hrun := logger_refines.run h
  have houtput : s.out.output ++ s.out.left =
      Text.unlines ((Machine.emitted locked history).map fun x => x.2.text) := by
    rw [Writers.output_eq hrun, emitted_taken, flatMap_pieces]
  refine ⟨houtput, fun i => ?_, fun i hi => moves_of_inEmit h hi, fun hfree hplain => ?_⟩
  · rw [← emitted_asked, ← emitted_taken]
    exact Writers.asked_eq hrun i
  · rw [Writers.left_of_free hfree, List.append_nil] at houtput
    rw [houtput]
    refine Text.lines_unlines fun l hl => ?_
    obtain ⟨x, hx, rfl⟩ := List.mem_map.mp hl
    obtain ⟨hfile, hmessage⟩ := hplain x (mem_passed_of_locked h hx)
    exact Entry.newline_notMem_text hfile hmessage

/-- Noon of the first of January 2026. -/
def noon : Tm := ⟨0, 0, 12, 1, 0, 126⟩

/-- Two messages of `main`, and one below the level. -/
def upEntry : Entry := ⟨.info, ascii "/src/main.cpp", 359, ascii "conn#0 registered", noon⟩

def warnEntry : Entry := ⟨.warn, ascii "/src/main.cpp", 382, ascii "conn#1 down", noon⟩

def debugEntry : Entry := ⟨.debug, ascii "router.cpp", 40, ascii "no route", noon⟩

/-- Two threads log at once; the second writes first, and its next message does not pass. -/
def twoLogs (i j : Fin 2) : List (Action (Fin 2)) :=
  [.log i upEntry, .log j warnEntry, .lock j, .write j, .write j, .write j, .unlock j, .log j debugEntry,
    .lock i, .write i, .setLevel .debug, .write i, .write i, .unlock i]

theorem log_lines_two : ∃ history s, (logger (Fin 2)).Run (fun _ _ => True) history s ∧
    Writers.ofWriter 1 (Machine.emitted passed history) = [warnEntry] ∧
    Text.lines s.out.output = [warnEntry.text, upEntry.text] := by
  have hrun := @Machine.run_of_exec _ _ (logger (Fin 2)) (fun _ _ => True) _ (twoLogs 0 1) _ rfl
  obtain ⟨-, hthread, -, hlines⟩ := log_lines hrun
  exact ⟨_, _, hrun, hthread 1, hlines rfl (by decide)⟩

end Cfd.Log
