/-
**Reading a program.**

The tokens of a program are read one after the other, and then the end token as often as there is
something to end: once for the present statement, and for each open block once more, which then
lacks its brace.  Every text is read to its end and gives a program; the text is correct if no error
was recorded.

Main definitions:

* `LetFn.Parser.run` — reading several tokens;
* `LetFn.Parser.finish` — ending what is not complete at the end of the text;
* `LetFn.Parsed` — a program and the errors recorded while it was read;
* `LetFn.Parsed.ofTokens`, `LetFn.Parsed.ofString` — reading a program.

Main results:

* `LetFn.Parser.run_append` — reading two lists of tokens is reading one after the other.
-/

import LetFn.Parser.Step
import LetFn.Token.Lexer

set_option relaxedAutoImplicit false
set_option autoImplicit false

namespace LetFn

namespace Parser

/-- Reads several tokens: the errors they bring to light, and the state after them. -/
def run (s : State) : List Token → List SyntaxError × State
  | [] => ([], s)
  | t :: ts =>
    let first := step s t
    let rest := run first.2 ts
    (first.1 ++ rest.1, rest.2)

@[simp] theorem run_nil (s : State) : run s [] = ([], s) := rfl

theorem run_cons (s : State) (t : Token) (ts : List Token) :
    run s (t :: ts) = ((step s t).1 ++ (run (step s t).2 ts).1, (run (step s t).2 ts).2) := rfl

/-- Reading two lists of tokens is reading one after the other. -/
theorem run_append (s : State) (ts us : List Token) :
    run s (ts ++ us) = ((run s ts).1 ++ (run (run s ts).2 us).1, (run (run s ts).2 us).2) := by
  induction ts generalizing s with
  | nil => rfl
  | cons t ts ih => simp only [List.cons_append, run_cons, ih, List.append_assoc]

/-- Ends the open blocks, innermost first: each lacks its brace, and the statement that contains it
ends with it, after which a statement may begin (`step_eof`).  The statements of the innermost one
are `before`, the last of them first. -/
def finish (eof : Token) : List OpenBlock → List Stmt → List SyntaxError × Program
  | [], before => ([], ⟨before.reverse⟩)
  | b :: outer, before =>
    let outside := step (b.resume outer before) eof
    let rest := finish eof outer outside.2.before
    (.unexpected .braceRight eof :: outside.1 ++ rest.1, rest.2)

end Parser

/-- A program, and the errors recorded while it was read, in the order of their tokens. -/
structure Parsed where
  program : Program
  errors : List SyntaxError

namespace Parsed

open LetFn.Parser in
/-- The program that a list of tokens spells. -/
def ofTokens (ts : Tokens) : Parsed :=
  let body := run .initial (ts.body ++ [ts.eof])
  let rest := finish ts.eof body.2.outer body.2.before
  ⟨rest.2, body.1 ++ rest.1⟩

/-- The program that a text spells. -/
def ofString (source : String) : Parsed :=
  ofTokens (.ofString source)

end Parsed

end LetFn
