/-
**Reading, evaluating and printing line by line.**

Lines are evaluated one after the other in one global scope, so that a line sees what the lines
before it have bound.  What a line evaluates to is printed, and so are its syntax errors; neither an
error nor a failure ends the session.  Only a line that is not a text does.

Main definitions:

* `LetFn.Repl.answer` — what is printed for a line, `LetFn.Repl.respond` the same from its bytes;
* `LetFn.Repl.lines` — the lines of an input;
* `LetFn.Repl.session`, `LetFn.Repl.run` — the report of a session.

Main results:

* `LetFn.Repl.flatten_lines` — the lines of an input make up the input.
-/

import LetFn.CommandLine.Script
import LetFn.Text.CharClass

set_option relaxedAutoImplicit false
set_option autoImplicit false

namespace LetFn.Repl

/-! ### One line -/

/-- What is printed of the result of a line. -/
def resultText : Except (List SyntaxError) (Option Outcome) → String
  | .ok none => ""
  | .ok (some o) => asLine o.text
  | .error errors =>
    asLine ("parse errors:" ++ String.join (errors.map fun e => "\n    " ++ e.message))

/-- Evaluates a line and gives what is printed for it. -/
def answer (depth : Nat) (global : ScopeId) (text : String) : Run String :=
  resultText <$> interpret depth text global

/-- A line without its end: a newline, and one carriage return right before it. -/
def chomp (text : String) : String :=
  match text.toList.reverse with
  | '\n' :: '\r' :: rest => String.ofList rest.reverse
  | '\n' :: rest => String.ofList rest.reverse
  | _ => text

/-- Reads a line and evaluates it.  A blank line is passed over. -/
def respond (depth : Nat) (global : ScopeId) (bytes : List UInt8) : Run (Except RunError String) :=
  match decode bytes with
  | .error e => pure (.error (.line e))
  | .ok text =>
    if Text.allBlank (chomp text) then
      pure (.ok "")
    else
      .ok <$> answer depth global (chomp text)

/-! ### A session -/

/-- The lines of an input, their ends included. -/
def lines : List UInt8 → List (List UInt8)
  | [] => []
  | b :: bs =>
    if b = 10 then
      [b] :: lines bs
    else
      match lines bs with
      | [] => [[b]]
      | l :: ls => (b :: l) :: ls

/-- The lines of an input make up the input. -/
theorem flatten_lines (bs : List UInt8) : (lines bs).flatten = bs := by
  induction bs with
  | nil => rfl
  | cons b bs ih =>
    rw [lines]
    split
    · simp [ih]
    · split <;> simp_all

/-- The report of evaluating lines. -/
def session (depth : Nat) (global : ScopeId) : List (List UInt8) → Run Report
  | [] => pure (.printed "")
  | l :: ls => do
    match ← respond depth global l with
    | .error e => return .failed e
    | .ok text => return (← session depth global ls).after text

/-- The report of evaluating the lines of an input. -/
def run (depth : Nat) (input : List UInt8) : Option Report :=
  let (global, world) := World.empty.newGlobal
  ((session depth global (lines input)).run world).map (·.1)

end LetFn.Repl
