/-
**Errors are on record in the order of the text.**

A parser that looks one token ahead finds some errors at the present token and some at the next one.
After an error at the next token none may be recorded at the present one, which stands before it.  A
parser that reads one token after the other has no choice of this kind: whatever is recorded when a
token is read is about that token, so errors come in the order of the tokens.  The parser by descent
has the same errors on record, hence it never goes back either.

Of two tokens of a text the later one has the later place.  So the positions of errors never
decrease, and they are the same only for errors at the same token.

Main definitions:

* `LetFn.SyntaxError.InOrder` — errors that come in the order of their tokens.

Main results:

* `LetFn.Parser.run_inOrder` — **errors come in the order of the tokens that are read**;
* `LetFn.Parsed.inOrder_ofTokens` — so do the errors of a whole text, those at its end among them;
* `LetFn.Parsed.errors_in_order` — **positions of errors never decrease**.
-/

import LetFn.Proofs.Parser.Fault
import LetFn.Proofs.Parser.Progress
import LetFn.Proofs.Token.Positions

set_option relaxedAutoImplicit false
set_option autoImplicit false

namespace LetFn

/-- **Errors come in the order of their tokens**: of two errors the first names the same token as
the second, or one that `R` puts before it. -/
def SyntaxError.InOrder (R : Token → Token → Prop) (errors : List SyntaxError) : Prop :=
  errors.Pairwise fun e e' => e.token = e'.token ∨ R e.token e'.token

namespace Parser

open SyntaxError

variable {R : Token → Token → Prop} {t : Token}

/-- Errors at one token are in order. -/
theorem inOrder_of_token {errors : List SyntaxError} (h : ∀ e ∈ errors, e.token = t) :
    InOrder R errors := by
  refine List.pairwise_of_forall_mem_list ?_
  intro e he e' he'
  exact .inl ((h e he).trans (h e' he').symm)

/-- **Errors come in the order of the tokens that are read.** -/
theorem run_inOrder (s : State) {ts : List Token} (hts : ts.Pairwise R) :
    InOrder R (run s ts).1 := by
  induction hts generalizing s with
  | nil => exact List.Pairwise.nil
  | @cons t ts ht _ ih =>
      rw [run_cons, InOrder, List.pairwise_append]
      refine ⟨inOrder_of_token fun e he => step_token he, ih (step s t).2, ?_⟩
      -- the errors of the first token name it, and those of the others name tokens after it
      intro e he e' he'
      rw [step_token he]
      exact .inr (ht _ (run_token he'))

end Parser

namespace Parsed

open SyntaxError LetFn.Parser

/-- The errors of a text come in the order of its tokens. -/
theorem inOrder_ofTokens {R : Token → Token → Prop} {ts : Tokens} (hts : ts.all.Pairwise R) :
    InOrder R (ofTokens ts).errors := by
  rw [ofTokens, InOrder, List.pairwise_append]
  refine ⟨run_inOrder .initial hts, inOrder_of_token fun e he => finish_token he, ?_⟩
  intro e he e' he'
  -- what is still open is found out at the end token, which is the last one
  rw [finish_token he']
  rcases List.mem_append.1 (run_token he) with hbody | heof
  · exact .inr ((List.pairwise_append.1 hts).2.2 _ hbody _ (List.mem_singleton_self _))
  · exact .inl (List.mem_singleton.1 heof)

/-- **Positions of errors never decrease.**

In a text of fewer than `2 ^ 31 - 1` characters, of two errors on record the first names the same
token as the second, or one that stands before it by line and column.  The same holds of the errors
that the parser by descent has on record when it comes to its end, though it finds some of them at
the present token and some at the next. -/
theorem errors_in_order (source : String) (h : source.length < 2147483647) :
    ((ofString source).errors.Pairwise fun e e' =>
      e.token = e'.token ∨ e.token.pos.Before e'.token.pos) ∧
    ∀ bound, (Tokens.ofString source).body.length < bound →
      ∃ p c, Descent.program bound (.ofString source) = some (p, c) ∧
        c.errors.Pairwise fun e e' =>
          e.token = e'.token ∨ e.token.pos.Before e'.token.pos := by
  have hinOrder := inOrder_ofTokens (Lexer.pairwise_before_all source h)
  refine ⟨hinOrder, ?_⟩
  intro bound hbound
  obtain ⟨c, hrun, herrors, -⟩ := Descent.program_onward source hbound
  refine ⟨_, c, hrun, ?_⟩
  rw [herrors]
  exact hinOrder

/-- Two errors at a sign, two at a name in the next line, and two at the end of the text. -/
theorem errors_in_order_lines :
    "let = (fn(x\n y + f(1,".length < 2147483647 ∧
    (ofString "let = (fn(x\n y + f(1,").errors.map (fun e => e.token.pos) =
      [⟨1, 5⟩, ⟨1, 5⟩, ⟨2, 2⟩, ⟨2, 2⟩, ⟨2, 10⟩, ⟨2, 10⟩] ∧
    (ofString "let = (fn(x\n y + f(1,").errors.Pairwise fun e e' =>
      e.token = e'.token ∨ e.token.pos.Before e'.token.pos := by
  have hlength : "let = (fn(x\n y + f(1,".length < 2147483647 := by decide
  exact ⟨hlength, by decide +kernel, (errors_in_order _ hlength).1⟩

end Parsed

end LetFn
