/-
**Places do not matter to a parser.**

What a token does depends on its kind and on its characters.  So reading tokens without their places
gives what reading the tokens gives, without the places in it: the same errors and the same tree,
but for the places that they mention.

Main definitions:

* `LetFn.SyntaxError.unplaced`, `LetFn.Parser.State.unplaced`, `LetFn.Parsed.unplaced` — errors,
  states and results without places.

Main results:

* `LetFn.Parser.step_unplaced`, `LetFn.Parser.run_unplaced` — **reading commutes with forgetting
  places**;
* `LetFn.Parsed.ofTokens_unplaced` — a program is read alike wherever its tokens stand;
* `LetFn.Parsed.unplaced_eq_of_lexemes` — texts with the same lexemes are read alike.
-/

import LetFn.Parser.Program
import LetFn.Proofs.Syntax.Relabel

set_option relaxedAutoImplicit false
set_option autoImplicit false

namespace LetFn

/-! ### Without places -/

@[simp] theorem Relabelling.unplaced_token (t : Token) :
    Relabelling.unplaced.token t = t.unplaced := rfl

@[simp] theorem Relabelling.unplaced_integer (t : Token) :
    Relabelling.unplaced.integer t = t.unplaced := rfl

@[simp] theorem Relabelling.unplaced_statement (t : Token) :
    Relabelling.unplaced.statement t = t.unplaced := rfl

@[simp] theorem Relabelling.unplaced_broken (t : Token) :
    Relabelling.unplaced.broken t = t.unplaced := rfl

/-- An error without its place. -/
def SyntaxError.unplaced : SyntaxError → SyntaxError
  | .unexpected k t => .unexpected k t.unplaced
  | .noOperand t => .noOperand t.unplaced
  | .tooLarge t => .tooLarge t.unplaced

@[simp] theorem SyntaxError.node_unplaced (error : SyntaxError) :
    error.unplaced.node = error.node.relabel .unplaced := by
  cases error <;> rfl

@[simp] theorem Ident.ofToken_unplaced (t : Token) :
    Ident.ofToken t.unplaced = (Ident.ofToken t).relabel .unplaced := rfl

namespace Parser

/-- A pending construct without places. -/
def Pending.unplaced : Pending → Pending
  | .unary op => .unary op.unplaced
  | .binary l op => .binary (l.relabel .unplaced) op.unplaced
  | .group => .group
  | .condition t => .condition t.unplaced
  | .argument t f es => .argument t.unplaced (f.relabel .unplaced) (es.map (Expr.relabel .unplaced))

/-- The owner of a block without places. -/
def Owner.unplaced : Owner → Owner
  | .consequence t c => .consequence t.unplaced (c.relabel .unplaced)
  | .alternative t c yes => .alternative t.unplaced (c.relabel .unplaced) (yes.relabel .unplaced)
  | .body t xs => .body t.unplaced (xs.map (Ident.relabel .unplaced))

/-- A goal without places. -/
def Goal.unplaced : Goal → Goal
  | .operand => .operand
  | .operator e => .operator (e.relabel .unplaced)
  | .closer e => .closer (e.relabel .unplaced)
  | .conditionParen t => .conditionParen t.unplaced
  | .brace owner => .brace owner.unplaced
  | .otherwise t c yes => .otherwise t.unplaced (c.relabel .unplaced) (yes.relabel .unplaced)
  | .parametersParen t => .parametersParen t.unplaced
  | .firstParameter t => .firstParameter t.unplaced
  | .parameter t xs => .parameter t.unplaced (xs.map (Ident.relabel .unplaced))
  | .parametersEnd t xs => .parametersEnd t.unplaced (xs.map (Ident.relabel .unplaced))
  | .arguments t f => .arguments t.unplaced (f.relabel .unplaced)

/-- The beginning of a statement without places. -/
def Head.unplaced : Head → Head
  | .bind t x => .bind t.unplaced (x.relabel .unplaced)
  | .returns t => .returns t.unplaced
  | .expr t => .expr t.unplaced

/-- An open block without places. -/
def OpenBlock.unplaced (b : OpenBlock) : OpenBlock :=
  ⟨b.owner.unplaced, b.brace.unplaced, b.before.map (Stmt.relabel .unplaced), b.head.unplaced,
    b.pending.map Pending.unplaced⟩

/-- A phase without places. -/
def Phase.unplaced : Phase → Phase
  | .ready => .ready
  | .bindName t => .bindName t.unplaced
  | .bindAssign t x => .bindAssign t.unplaced (x.relabel .unplaced)
  | .inside head ps goal => .inside head.unplaced (ps.map Pending.unplaced) goal.unplaced

/-- A state without places. -/
def State.unplaced (s : State) : State :=
  ⟨s.outer.map OpenBlock.unplaced, s.before.map (Stmt.relabel .unplaced), s.phase.unplaced⟩

/-- What becomes of an expression, without places. -/
def Move.unplaced : Move → Move
  | .stay ps goal => .stay (ps.map Pending.unplaced) goal.unplaced
  | .openBlock owner ps => .openBlock owner.unplaced (ps.map Pending.unplaced)
  | .finished e => .finished (e.relabel .unplaced)

/-- Errors and what becomes of an expression, without places. -/
def unplacedMove (r : List SyntaxError × Move) : List SyntaxError × Move :=
  (r.1.map SyntaxError.unplaced, r.2.unplaced)

/-- Errors and a state, without places. -/
def unplacedState (r : List SyntaxError × State) : List SyntaxError × State :=
  (r.1.map SyntaxError.unplaced, r.2.unplaced)

/-! ### Inside an expression -/

variable (t : Token) (ps : List Pending) (e : Expr)

theorem begin_unplaced :
    begin t.unplaced (ps.map Pending.unplaced) =
      ((begin t ps).1.map SyntaxError.unplaced, (begin t ps).2.1.map Pending.unplaced,
        (begin t ps).2.2.unplaced) := by
  cases hk : t.kind with
  | integer =>
      cases hn : Integer.ofDigits? t.literal.toList <;>
        simp [begin, integer, hk, hn, SyntaxError.unplaced, Goal.unplaced, Expr.relabel,
          SyntaxError.node]
  | _ =>
      simp [begin, hk, SyntaxError.unplaced, Goal.unplaced, Expr.relabel, SyntaxError.node,
        Pending.unplaced]

theorem shift_unplaced :
    shift t.unplaced (ps.map Pending.unplaced) (e.relabel .unplaced) = (shift t ps e).unplaced := by
  unfold shift
  split <;> simp_all [Move.unplaced, Goal.unplaced, Pending.unplaced]

@[simp] theorem strictness_unplaced : strictness (ps.map Pending.unplaced) = strictness ps := by
  cases ps with
  | nil => rfl
  | cons p ps => cases p <;> rfl

theorem Pending.operation?_unplaced (p : Pending) :
    p.unplaced.operation? (e.relabel .unplaced) =
      (p.operation? e).map (Expr.relabel .unplaced) := by
  cases p <;> rfl

theorem Pending.accept?_unplaced (p : Pending) :
    p.unplaced.accept? t.unplaced (ps.map Pending.unplaced) (e.relabel .unplaced) =
      (p.accept? t ps e).map Move.unplaced := by
  cases p with
  | unary | binary => rfl
  | group | condition =>
      by_cases hk : t.kind = .parenRight <;>
        simp [Pending.accept?, Pending.unplaced, Move.unplaced, Goal.unplaced, Owner.unplaced, hk]
  | argument tok f es =>
      by_cases hcomma : t.kind = .comma
      · simp [Pending.accept?, Pending.unplaced, Move.unplaced, Goal.unplaced, hcomma]
      · by_cases hk : t.kind = .parenRight <;>
          simp [Pending.accept?, Pending.unplaced, Move.unplaced, Goal.unplaced, hk, Expr.relabel]

theorem close_unplaced (free : Bool) :
    close t.unplaced free (ps.map Pending.unplaced) (e.relabel .unplaced) =
      unplacedMove (close t free ps e) := by
  induction ps generalizing free e with
  | nil =>
      by_cases hfree : free ∧ strictness [] < t.kind.precedence
      · have h := shift_unplaced t [] e
        simp only [List.map_nil] at h
        simp [close, hfree, h, unplacedMove]
      · simp [close, hfree, unplacedMove, Move.unplaced]
  | cons p ps ih =>
      have hstrictness := strictness_unplaced (p :: ps)
      rw [List.map_cons] at hstrictness ⊢
      rw [close, close, Token.unplaced_kind, hstrictness]
      by_cases hfree : free ∧ strictness (p :: ps) < t.kind.precedence
      · have h := shift_unplaced t (p :: ps) e
        rw [List.map_cons] at h
        simp [hfree, h, unplacedMove]
      · rw [if_neg hfree, if_neg hfree, Pending.operation?_unplaced, Pending.accept?_unplaced]
        cases p.operation? e with
        | some e' => exact ih e' true
        | none =>
            cases p.accept? t ps e with
            | some move => rfl
            | none =>
                -- the broken node has the place of its error, and loses it like the error
                have h := ih (SyntaxError.unexpected .parenRight t).node true
                rw [← SyntaxError.node_unplaced] at h
                simp only [Option.map_none, SyntaxError.unplaced] at h ⊢
                simp [h, unplacedMove, SyntaxError.unplaced]

theorem giveUp_unplaced (error : SyntaxError) :
    giveUp error.unplaced t.unplaced (ps.map Pending.unplaced) =
      unplacedMove (giveUp error t ps) := by
  simp [giveUp, close_unplaced, unplacedMove]

theorem expect_unplaced (k : TokenKind) (move : Move) :
    expect k t.unplaced (ps.map Pending.unplaced) move.unplaced =
      unplacedMove (expect k t ps move) := by
  unfold expect
  rw [Token.unplaced_kind]
  split
  · rfl
  · exact giveUp_unplaced t ps (.unexpected k t)

theorem operand_unplaced :
    operand t.unplaced (ps.map Pending.unplaced) = unplacedMove (operand t ps) := by
  unfold operand
  rw [Token.unplaced_kind]
  split
  · exact giveUp_unplaced t ps (.noOperand t)
  · simp [begin_unplaced, unplacedMove, Move.unplaced]

/-- What a token does inside an expression does not depend on places. -/
theorem advance_unplaced (goal : Goal) :
    advance t.unplaced (ps.map Pending.unplaced) goal.unplaced =
      unplacedMove (advance t ps goal) := by
  cases goal with
  | operand => exact operand_unplaced t ps
  | operator e => exact close_unplaced t ps e true
  | closer e => exact close_unplaced t ps e false
  | conditionParen tok =>
      exact expect_unplaced t ps .parenLeft (.stay (.condition tok :: ps) .operand)
  | brace owner => exact expect_unplaced t ps .braceLeft (.openBlock owner ps)
  | parametersParen tok => exact expect_unplaced t ps .parenLeft (.stay ps (.firstParameter tok))
  | otherwise tok c yes =>
      have h := close_unplaced t ps (.ifElse tok c yes none) true
      simp only [Expr.relabel, Relabelling.unplaced_token] at h
      simp only [advance, Goal.unplaced, Token.unplaced_kind, h]
      split <;> rfl
  | firstParameter tok =>
      have h := expect_unplaced t ps .identifier (.stay ps (.parametersEnd tok [.ofToken t]))
      simp only [Move.unplaced, Goal.unplaced, List.map_cons, List.map_nil] at h
      simp only [advance, Goal.unplaced, Token.unplaced_kind, Ident.ofToken_unplaced, h]
      split <;> rfl
  | parameter tok xs =>
      have h :=
        expect_unplaced t ps .identifier (.stay ps (.parametersEnd tok (xs ++ [.ofToken t])))
      simp only [Move.unplaced, Goal.unplaced, List.map_append, List.map_cons, List.map_nil] at h
      exact h
  | parametersEnd tok xs =>
      have h := expect_unplaced t ps .parenRight (.stay ps (.brace (.body tok xs)))
      simp only [Move.unplaced, Goal.unplaced, Owner.unplaced] at h
      simp only [advance, Goal.unplaced, Token.unplaced_kind, h]
      split <;> rfl
  | arguments tok f =>
      have h := operand_unplaced t (.argument tok f [] :: ps)
      simp only [List.map_cons, Pending.unplaced, List.map_nil] at h
      simp only [advance, Goal.unplaced, Token.unplaced_kind, h]
      split
      · simp [unplacedMove, Move.unplaced, Goal.unplaced, Expr.relabel]
      · rfl

/-! ### Between statements -/

variable (outer : List OpenBlock) (before : List Stmt)

@[simp] theorem Owner.after_unplaced (owner : Owner) (b : Block) :
    owner.unplaced.after (b.relabel .unplaced) = (owner.after b).unplaced := by
  cases owner <;> rfl

theorem OpenBlock.resume_unplaced (b : OpenBlock) :
    b.unplaced.resume (outer.map OpenBlock.unplaced) (before.map (Stmt.relabel .unplaced)) =
      (b.resume outer before).unplaced := by
  have h := Owner.after_unplaced b.owner ⟨b.brace, before.reverse⟩
  simp only [Block.relabel, Relabelling.unplaced_token, Stmt.relabelAll_eq_map,
    List.map_reverse] at h
  simp [OpenBlock.resume, State.unplaced, Phase.unplaced, OpenBlock.unplaced, h]

theorem startExpr_unplaced :
    startExpr t.unplaced (outer.map OpenBlock.unplaced) (before.map (Stmt.relabel .unplaced)) =
      unplacedState (startExpr t outer before) := by
  have h := begin_unplaced t []
  simp only [List.map_nil] at h
  simp [startExpr, h, unplacedState, State.unplaced, Phase.unplaced, Head.unplaced]

theorem start_unplaced :
    start t.unplaced (outer.map OpenBlock.unplaced) (before.map (Stmt.relabel .unplaced)) =
      unplacedState (start t outer before) := by
  unfold start
  rw [Token.unplaced_kind]
  split
  case h_1 | h_2 | h_3 | h_4 => rfl
  case h_5 =>
      cases outer with
      | nil => exact startExpr_unplaced t [] before
      | cons b outer =>
          simp [unplacedState, OpenBlock.resume_unplaced]
  case h_6 => exact startExpr_unplaced t outer before

theorem abandon_unplaced (k : TokenKind) :
    abandon k t.unplaced (outer.map OpenBlock.unplaced) (before.map (Stmt.relabel .unplaced)) =
      unplacedState (abandon k t outer before) := by
  have h := start_unplaced t outer (.error t :: before)
  simp only [List.map_cons, Stmt.relabel, Relabelling.unplaced_broken] at h
  simp [abandon, h, unplacedState, SyntaxError.unplaced]

@[simp] theorem Head.complete_unplaced (head : Head) :
    head.unplaced.complete (e.relabel .unplaced) = (head.complete e).relabel .unplaced := by
  cases head <;> rfl

theorem carry_unplaced (head : Head) (r : List SyntaxError × Move) :
    carry t.unplaced (outer.map OpenBlock.unplaced) (before.map (Stmt.relabel .unplaced))
      head.unplaced (unplacedMove r) = unplacedState (carry t outer before head r) := by
  obtain ⟨errors, move⟩ := r
  cases move with
  | stay ps goal => rfl
  | openBlock owner ps => rfl
  | finished e =>
      have h := start_unplaced t outer (head.complete e :: before)
      rw [List.map_cons] at h
      simp [carry, unplacedMove, Move.unplaced, h, unplacedState]

/-- **What a token does to a state does not depend on places.** -/
theorem step_unplaced (s : State) : step s.unplaced t.unplaced = unplacedState (step s t) := by
  obtain ⟨outer, before, phase⟩ := s
  cases phase with
  | ready => exact start_unplaced t outer before
  | bindName tok =>
      simp only [step, State.unplaced, Phase.unplaced, Token.unplaced_kind, abandon_unplaced]
      split <;> rfl
  | bindAssign tok x =>
      simp only [step, State.unplaced, Phase.unplaced, Token.unplaced_kind, abandon_unplaced]
      split <;> rfl
  | inside head ps goal =>
      rw [State.unplaced, Phase.unplaced, step_inside, step_inside, advance_unplaced,
        carry_unplaced]

/-! ### Whole texts -/

/-- **Reading several tokens does not depend on places.** -/
theorem run_unplaced (s : State) (ts : List Token) :
    run s.unplaced (ts.map Token.unplaced) = unplacedState (run s ts) := by
  induction ts generalizing s with
  | nil => rfl
  | cons t ts ih =>
      have hrest := ih (step s t).2
      simp only [List.map_cons, run_cons, step_unplaced]
      simp only [unplacedState, hrest, List.map_append]

theorem finish_unplaced (eof : Token) :
    finish eof.unplaced (outer.map OpenBlock.unplaced) (before.map (Stmt.relabel .unplaced)) =
      ((finish eof outer before).1.map SyntaxError.unplaced,
        (finish eof outer before).2.relabel .unplaced) := by
  induction outer generalizing before with
  | nil => simp [finish, Program.relabel]
  | cons b outer ih =>
      simp only [List.map_cons, finish, OpenBlock.resume_unplaced, step_unplaced]
      simp only [unplacedState, State.unplaced, ih, List.map_append, List.map_cons,
        SyntaxError.unplaced]

end Parser

/-- A program and errors without places. -/
def Parsed.unplaced (p : Parsed) : Parsed :=
  ⟨p.program.relabel .unplaced, p.errors.map SyntaxError.unplaced⟩

open LetFn.Parser in
/-- **A program is read alike wherever its tokens stand.** -/
theorem Parsed.ofTokens_unplaced (ts : Tokens) :
    Parsed.ofTokens ⟨ts.body.map Token.unplaced, ts.eof.unplaced⟩ =
      (Parsed.ofTokens ts).unplaced := by
  have h := run_unplaced .initial (ts.body ++ [ts.eof])
  rw [List.map_append, List.map_cons, List.map_nil] at h
  have hinitial : State.initial.unplaced = State.initial := rfl
  rw [hinitial] at h
  simp only [Parsed.ofTokens, h, unplacedState, State.unplaced, finish_unplaced, Parsed.unplaced,
    List.map_append]

/-- Texts with the same lexemes are read alike. -/
theorem Parsed.unplaced_eq_of_lexemes {source source' : String}
    (h : Lexer.lexemes source.toList = Lexer.lexemes source'.toList) :
    (Parsed.ofString source).unplaced = (Parsed.ofString source').unplaced := by
  have hbody : (Tokens.ofString source).body.map Token.unplaced =
      (Tokens.ofString source').body.map Token.unplaced := by
    rw [Tokens.ofString, Lexer.map_unplaced_tokens, Tokens.ofString, Lexer.map_unplaced_tokens]
    exact h
  have heof : (Tokens.ofString source).eof.unplaced = (Tokens.ofString source').eof.unplaced := by
    rw [Tokens.ofString, Lexer.unplaced_tokens_eof, Tokens.ofString, Lexer.unplaced_tokens_eof]
  rw [Parsed.ofString, Parsed.ofString, ← Parsed.ofTokens_unplaced, ← Parsed.ofTokens_unplaced,
    hbody, heof]

/-- What is read alike is correct if one of the two is. -/
theorem Parsed.errors_eq_nil_of_unplaced_eq {p p' : Parsed} (h : p.unplaced = p'.unplaced)
    (hcorrect : p.errors = []) : p'.errors = [] := by
  have herrors := congrArg Parsed.errors h
  rw [Parsed.unplaced, Parsed.unplaced, hcorrect] at herrors
  exact List.map_eq_nil_iff.1 herrors.symm

end LetFn
