import Cfd.Base.Text

/-!
# The command line

The argument loop of `main` in `src/main.cpp`. Its index variable `i` stays in scope for the rest of
`main`, so the loop's result includes its last value. An accepted command line has been read to its
end: `parseArgs_index` says that `i` is then `argc`.
-/

set_option autoImplicit false

namespace Cfd.Main

open Cfd.Base

/-- How the loop ends: the usage text and an exit code, or a path, `verbose`, and the index. -/
inductive ArgResult where
  | usage (code : Nat)
  | accepted (cfgPath : Text) (verbose : Bool) (i : Nat)
  deriving DecidableEq

/-- The loop from index `i` on, over the arguments that are left. -/
def argLoop (cfgPath : Text) (verbose : Bool) (i : Nat) : List Text → ArgResult
  | [] => if cfgPath.isEmpty then .usage 2 else .accepted cfgPath verbose i
  | a :: rest =>
    if a = ascii "--config" then
      match rest with
      | path :: rest => argLoop path verbose (i + 2) rest
      -- `i + 1 < argc` is false, and no other branch takes `--config`
      | [] => .usage 2
    else if a = ascii "--verbose" then argLoop cfgPath true (i + 1) rest
    else if a = ascii "--help" ∨ a = ascii "-h" then .usage 0
    else .usage 2

/-- The command line as `main` reads it; `argv` includes the program's name. -/
def parseArgs (argv : List Text) : ArgResult := argLoop [] false 1 (argv.drop 1)

/-- The loop ends behind the last argument. -/
theorem argLoop_index {cfgPath cfgPath' : Text} {verbose verbose' : Bool} {i i' : Nat}
    {rest : List Text} (h : argLoop cfgPath verbose i rest = .accepted cfgPath' verbose' i') :
    i' = i + rest.length := by
  fun_induction argLoop cfgPath verbose i rest with
  | case1 => cases h
  | case2 => cases h; rfl
  | case3 _ _ _ _ _ ih =>
    rw [ih h, List.length_cons, List.length_cons]
    omega
  | case4 => cases h
  | case5 _ _ _ _ _ ih =>
    rw [ih h, List.length_cons]
    omega
  | case6 => cases h
  | case7 => cases h

/-- An accepted command line names a file, which takes more than the program's name. -/
theorem argLoop_nonempty {cfgPath : Text} {verbose : Bool} {i i' : Nat} :
    argLoop [] false i [] ≠ .accepted cfgPath verbose i' := by
  simp [argLoop]

/-- **After an accepted command line `i` is `argc`.** -/
theorem parseArgs_index {argv : List Text} {cfgPath : Text} {verbose : Bool} {i : Nat}
    (h : parseArgs argv = .accepted cfgPath verbose i) : i = argv.length := by
  cases argv with
  | nil => exact absurd h argLoop_nonempty
  | cons program args =>
    rw [argLoop_index h, List.drop_one, List.tail_cons, List.length_cons, Nat.add_comm]

end Cfd.Main
