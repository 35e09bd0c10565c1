/-
**One text after another.**

Between two statements a parser has nothing under way, and what stands before is only kept.  So the
statements that follow are read as if the text began with them: they come to the same trees and the
same errors, and are put behind the statements that were there.

A semicolon is a token wherever it is put, so a text, a semicolon and another text have the tokens of
the one, the semicolon and the tokens of the other, those of the first in their places.

Main definitions:

* `LetFn.Parser.onto`, `LetFn.Parser.State.onto` — a state with statements before all it has read.

Main results:

* `LetFn.Parser.step_onto`, `LetFn.Parser.run_onto` — **what a token does to a state does not depend
  on the statements before**;
* `LetFn.Parser.finish_onto` — nor does the end of the text;
* `LetFn.Tokens.ofString_semicolon` — the tokens of two texts with a semicolon between them.
-/

import LetFn.Parser.Program
import LetFn.Proofs.Token.Lexemes

set_option relaxedAutoImplicit false
set_option autoImplicit false

namespace LetFn

namespace Parser

/-! ### Statements before all that was read -/

/-- Open blocks and the statements of the innermost one, with further statements before all of
them: the outermost block stands after these, or the present statement if no block is open. -/
def onto (earlier : List Stmt) : List OpenBlock → List Stmt → List OpenBlock × List Stmt
  | [], before => ([], before ++ earlier)
  | b :: outer, before =>
    let outside := onto earlier outer b.before
    ({ b with before := outside.2 } :: outside.1, before)

/-- A state with statements before all it has read, the last of them first. -/
def State.onto (earlier : List Stmt) (s : State) : State :=
  ⟨(Parser.onto earlier s.outer s.before).1, (Parser.onto earlier s.outer s.before).2, s.phase⟩

/-- Errors and a state, with statements before all it has read. -/
def ontoState (earlier : List Stmt) (r : List SyntaxError × State) : List SyntaxError × State :=
  (r.1, r.2.onto earlier)

variable (earlier : List Stmt) (t : Token) (outer : List OpenBlock) (before : List Stmt)

/-- A further statement belongs to the innermost block. -/
theorem onto_cons (s : Stmt) :
    onto earlier outer (s :: before) =
      ((onto earlier outer before).1, s :: (onto earlier outer before).2) := by
  cases outer <;> rfl

/-- The open blocks change alike, whatever the statements of the innermost one. -/
theorem onto_outer (before' : List Stmt) :
    (onto earlier outer before).1 = (onto earlier outer before').1 := by
  cases outer <;> rfl

theorem start_onto :
    start t (onto earlier outer before).1 (onto earlier outer before).2 =
      ontoState earlier (start t outer before) := by
  unfold start
  split
  case h_1 | h_2 | h_3 | h_4 | h_6 => rfl
  case h_5 => cases outer <;> rfl

theorem start_onto_cons (s : Stmt) :
    start t (onto earlier outer before).1 (s :: (onto earlier outer before).2) =
      ontoState earlier (start t outer (s :: before)) := by
  have h := start_onto earlier t outer (s :: before)
  rw [onto_cons] at h
  exact h

theorem abandon_onto (k : TokenKind) :
    abandon k t (onto earlier outer before).1 (onto earlier outer before).2 =
      ontoState earlier (abandon k t outer before) := by
  simp only [abandon, start_onto_cons]
  rfl

theorem carry_onto (head : Head) (r : List SyntaxError × Move) :
    carry t (onto earlier outer before).1 (onto earlier outer before).2 head r =
      ontoState earlier (carry t outer before head r) := by
  obtain ⟨errors, move⟩ := r
  cases move with
  | stay ps goal => rfl
  | openBlock owner ps => rfl
  | finished e =>
      simp only [carry, start_onto_cons]
      rfl

/-- **What a token does to a state does not depend on the statements before.** -/
theorem step_onto (s : State) : step (s.onto earlier) t = ontoState earlier (step s t) := by
  obtain ⟨outer, before, phase⟩ := s
  cases phase with
  | ready => exact start_onto earlier t outer before
  | bindName tok =>
      simp only [step, State.onto, abandon_onto]
      split <;> rfl
  | bindAssign tok x =>
      simp only [step, State.onto, abandon_onto]
      split <;> rfl
  | inside head ps goal =>
      simp only [State.onto, step_inside]
      exact carry_onto earlier t outer before head _

/-- **Several tokens are read alike, whatever stands before.** -/
theorem run_onto (s : State) (ts : List Token) :
    run (s.onto earlier) ts = ontoState earlier (run s ts) := by
  induction ts generalizing s with
  | nil => rfl
  | cons t ts ih =>
      simp only [run_cons, step_onto]
      simp only [ontoState, ih]

/-- So are the blocks that are open at the end of the text. -/
theorem finish_onto {eof : Token} (heof : eof.kind = .eof) :
    finish eof (onto earlier outer before).1 (onto earlier outer before).2 =
      ((finish eof outer before).1,
        ⟨earlier.reverse ++ (finish eof outer before).2.statements⟩) := by
  induction outer generalizing before with
  | nil => simp [onto, finish]
  | cons b outer ih =>
      have houter : (step (b.resume outer before) eof).2.outer = outer := (step_eof heof _).1
      have hresume : step (OpenBlock.resume { b with before := (onto earlier outer b.before).2 }
          (onto earlier outer b.before).1 before) eof =
          ontoState earlier (step (b.resume outer before) eof) :=
        step_onto earlier eof (b.resume outer before)
      simp only [onto, finish, hresume]
      simp only [ontoState, State.onto, houter]
      rw [onto_outer earlier outer b.before (step (b.resume outer before) eof).2.before, ih]

end Parser

open Lexer in
/-- **The tokens of two texts with a semicolon between them**: those of the first in their places, and
those of the second in other places. -/
theorem Tokens.ofString_semicolon (s₁ s₂ : String) :
    ∃ semicolon rest, (Tokens.ofString (s₁ ++ ";" ++ s₂)).body =
        (Tokens.ofString s₁).body ++ semicolon :: rest ∧
      semicolon.kind = .semicolon ∧
      rest.map Token.unplaced = (Tokens.ofString s₂).body.map Token.unplaced := by
  have hsemicolon : Stops (';' :: s₂.toList) := by
    intro b hb
    obtain rfl := Option.some.inj hb
    decide
  have htext : (s₁ ++ ";" ++ s₂).toList = s₁.toList ++ ';' :: s₂.toList := by
    rw [String.toList_append, String.toList_append, List.append_assoc]
    rfl
  obtain ⟨more, hmore, htokens⟩ :=
    tokens_cons (c := ';') (by decide) (Pos.start.after s₁.toList) s₂.toList
  refine ⟨⟨.semicolon, ";", Pos.start.after s₁.toList⟩, more.body, ?_, rfl, ?_⟩
  · rw [Tokens.ofString, Lexer.ofString, htext, tokens_append (hsemicolon.apart _), htokens]
    rfl
  · rw [hmore, map_unplaced_tokens, Tokens.ofString, map_unplaced_tokens]
    rfl

end LetFn
