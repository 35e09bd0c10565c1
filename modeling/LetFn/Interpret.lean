/-
**Interpreting a text.**

A text is read and, if it is correct, run.  A text with a syntax error is not run at all, so it
changes nothing.

Main definitions:

* `LetFn.interpret` — reads a text and runs it in a scope.

Main results:

* `LetFn.interpret_of_errors` — a text with syntax errors changes nothing;
* `LetFn.interpret_of_correct` — a correct text is run.
-/

import LetFn.Eval.Run
import LetFn.Parser.Program

set_option relaxedAutoImplicit false
set_option autoImplicit false

namespace LetFn

/-- Calls nested deeper than this do not occur: no machine has room for them. -/
def deepest : Nat := 4611686018427387904

/-- Reads a text and runs it in the scope `s`: the outcome, if it has one, or the syntax errors. -/
def interpret (depth : Nat) (source : String) (s : ScopeId) :
    Run (Except (List SyntaxError) (Option Outcome)) :=
  let parsed := Parsed.ofString source
  match parsed.errors with
  | [] => .ok <$> parsed.program.run depth s
  | errors => pure (.error errors)

/-- A text with syntax errors changes nothing. -/
theorem interpret_of_errors {depth : Nat} {source : String} {s : ScopeId}
    (h : (Parsed.ofString source).errors ≠ []) :
    interpret depth source s = pure (.error (Parsed.ofString source).errors) := by
  cases he : (Parsed.ofString source).errors with
  | nil => exact absurd he h
  | cons e es => simp only [interpret, he]

/-- A correct text is run. -/
theorem interpret_of_correct {depth : Nat} {source : String} {s : ScopeId}
    (h : (Parsed.ofString source).errors = []) :
    interpret depth source s = .ok <$> (Parsed.ofString source).program.run depth s := by
  simp only [interpret, h]

end LetFn
