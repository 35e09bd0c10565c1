/-
**No token is lost, and none is read twice.**

What a parser has read is in its state: in the statements that are complete, in the blocks that are
open, and in the constructs that are pending.  Put one after the other in the order of the text, the
tokens kept there are the *reading* of the state.  As long as no error is recorded, each token is
added at the end of it, or leaves no trace because it only shows where something begins or ends.

Main definitions:

* `LetFn.TokenKind.marks` — the kinds of token that leave no trace in a tree;
* `LetFn.Parser.State.reading` — **the tokens that a state keeps, in the order of the text**;
* `LetFn.Parser.Move.Reads` — what becomes of an expression keeps its tokens.

Main results:

* `LetFn.Parser.close_reads`, `LetFn.Parser.advance_reads` — inside an expression;
* `LetFn.Parser.step_reads`, `LetFn.Parser.run_reads` — **a token is added to what is kept**;
* `LetFn.Parsed.reading_ofTokens` — the tokens of a program are those of the text;
* `LetFn.Parsed.reading_eq` — **no token is lost, and none is read twice**.
-/

import LetFn.Proofs.Parser.Language
import LetFn.Proofs.Syntax.Reading

set_option relaxedAutoImplicit false
set_option autoImplicit false

namespace LetFn

/-- The kinds of token that leave no trace in a tree: they show where something begins or ends. -/
def TokenKind.marks : List TokenKind :=
  [.assign, .comma, .semicolon, .parenLeft, .parenRight, .braceRight, .kwElse]

/-- An operator leaves a trace. -/
theorem TokenKind.notMem_marks_of_precedence {k : TokenKind} (h : 0 < k.precedence)
    (hk : k ≠ .parenLeft) : k ∉ .eof :: marks := by
  cases k <;> first | decide | exact absurd h (by decide) | exact absurd rfl hk

namespace Parser

/-! ### What a state keeps -/

/-- The tokens that leave a trace in a tree. -/
def kept (ts : List Token) : List Token :=
  ts.filter fun t => t.kind ∉ TokenKind.eof :: TokenKind.marks

section Kinds

variable {t : Token} {k : TokenKind} (hk : t.kind = k)

include hk

/-- A token of a kind that leaves a trace. -/
theorem kept_trace (h : k ∉ TokenKind.eof :: TokenKind.marks) : kept [t] = [t] :=
  List.filter_cons_of_pos (decide_eq_true (hk ▸ h))

/-- A token of a kind that leaves none. -/
theorem kept_mark (h : k ∈ TokenKind.eof :: TokenKind.marks) : kept [t] = [] :=
  List.filter_cons_of_neg fun hkept => of_decide_eq_true hkept (hk ▸ h)

end Kinds

theorem kept_cons (t : Token) (ts : List Token) : kept (t :: ts) = kept [t] ++ kept ts :=
  List.filter_append [t] ts

/-- The tokens of a pending construct. -/
def Pending.reading : Pending → List Token
  | .unary op => [op]
  | .binary l op => l.reading ++ [op]
  | .group => []
  | .condition t => [t]
  | .argument _ f es => f.reading ++ Expr.readingAll es

/-- The tokens of pending constructs, the innermost of which comes first in the list and last in the
text. -/
def Pending.readingAll : List Pending → List Token
  | [] => []
  | p :: ps => Pending.readingAll ps ++ p.reading

/-- The tokens in front of a block in the construct that it belongs to. -/
def Owner.reading : Owner → List Token
  | .consequence t c => t :: c.reading
  | .alternative t c yes => t :: (c.reading ++ yes.reading)
  | .body t xs => t :: xs.map Ident.token

/-- The tokens that a goal keeps. -/
def Goal.reading : Goal → List Token
  | .operand => []
  | .operator e | .closer e => e.reading
  | .conditionParen t | .parametersParen t | .firstParameter t => [t]
  | .brace owner => owner.reading
  | .otherwise t c yes => t :: (c.reading ++ yes.reading)
  | .parameter t xs | .parametersEnd t xs => t :: xs.map Ident.token
  | .arguments _ f => f.reading

/-- The tokens in front of the expression of a statement. -/
def Head.reading : Head → List Token
  | .bind t x => [t, x.token]
  | .returns t => [t]
  | .expr _ => []

/-- The tokens of an open block down to its brace, and of what stands before it in the block around
it. -/
def OpenBlock.reading (b : OpenBlock) : List Token :=
  Stmt.readingAll b.before.reverse ++ b.head.reading ++ Pending.readingAll b.pending ++
    b.owner.reading ++ [b.brace]

/-- The tokens of open blocks, the innermost of which comes first in the list. -/
def OpenBlock.readingAll : List OpenBlock → List Token
  | [] => []
  | b :: outer => OpenBlock.readingAll outer ++ b.reading

/-- The tokens of the present statement. -/
def Phase.reading : Phase → List Token
  | .ready => []
  | .bindName t => [t]
  | .bindAssign t x => [t, x.token]
  | .inside head ps goal => head.reading ++ Pending.readingAll ps ++ goal.reading

/-- **The tokens that a state keeps, in the order of the text.** -/
def State.reading (s : State) : List Token :=
  OpenBlock.readingAll s.outer ++ Stmt.readingAll s.before.reverse ++ s.phase.reading

/-- What becomes of an expression at the token `t` keeps the tokens `before` it, and `t` as well
unless the expression was complete. -/
def Move.Reads (before : List Token) (t : Token) : Move → Prop
  | .stay ps goal => Pending.readingAll ps ++ goal.reading = before ++ kept [t]
  | .openBlock owner ps => Pending.readingAll ps ++ owner.reading ++ [t] = before ++ kept [t]
  | .finished e => e.reading = before

/-- A complete statement. -/
theorem Head.reading_complete (head : Head) (e : Expr) :
    (head.complete e).reading = head.reading ++ e.reading := by
  cases head <;> rfl

/-- A complete block. -/
theorem Owner.reading_after (owner : Owner) (b : Block) :
    (owner.after b).reading = owner.reading ++ b.reading := by
  cases owner with
  | consequence t c => rfl
  | alternative t c yes => simp [Owner.after, Goal.reading, Owner.reading, Expr.reading]
  | body t xs => rfl

/-- One more statement is complete. -/
theorem readingAll_reverse_cons (s : Stmt) (before : List Stmt) :
    Stmt.readingAll (s :: before).reverse = Stmt.readingAll before.reverse ++ s.reading := by
  rw [List.reverse_cons, Stmt.readingAll_append, Stmt.readingAll, Stmt.readingAll, List.append_nil]

/-! ### Inside an expression -/

variable {t : Token}

section Stays

variable {k : TokenKind} {ps : List Pending} {goal : Goal} {before : List Token}

/-- A token that leaves no trace adds nothing to what is kept. -/
theorem Move.reads_of_mark (hk : t.kind = k) (hmark : k ∈ TokenKind.eof :: TokenKind.marks)
    (h : Pending.readingAll ps ++ goal.reading = before) : (Move.stay ps goal).Reads before t := by
  rw [Move.Reads, kept_mark hk hmark, List.append_nil, h]

/-- A token that leaves a trace is kept behind the others. -/
theorem Move.reads_of_trace (hk : t.kind = k) (htrace : k ∉ TokenKind.eof :: TokenKind.marks)
    (h : Pending.readingAll ps ++ goal.reading = before ++ [t]) :
    (Move.stay ps goal).Reads before t := by
  rw [Move.Reads, kept_trace hk htrace, h]

end Stays

/-- The first token of an operand. -/
theorem begin_reads {ps : List Pending} (h : (begin t ps).1 = []) :
    Pending.readingAll (begin t ps).2.1 ++ (begin t ps).2.2.reading =
      Pending.readingAll ps ++ kept [t] := by
  unfold begin at h ⊢
  split at h
  case h_1 hk | h_3 hk | h_4 hk => rw [kept_trace hk (by decide)]; rfl
  case h_2 hk =>
      rw [kept_trace hk (by decide)]
      unfold integer at h ⊢
      split at h
      case h_1 => rfl
      case h_2 => cases h
  case h_5 hk | h_6 hk =>
      rw [kept_trace hk (by decide)]
      exact List.append_nil _
  case h_7 hk =>
      rw [kept_mark hk (by decide)]
      exact List.append_nil _
  case h_8 hk | h_9 hk => rw [kept_trace hk (by decide)]; rfl
  case h_10 => cases h

/-- An operator takes the expression before it. -/
theorem shift_reads (hprec : 0 < t.kind.precedence) (ps : List Pending) (e : Expr) :
    (shift t ps e).Reads (Pending.readingAll ps ++ e.reading) t := by
  unfold shift
  split
  case isTrue hparen => exact Move.reads_of_mark hparen (by decide) rfl
  case isFalse hparen =>
      refine Move.reads_of_trace rfl (TokenKind.notMem_marks_of_precedence hprec hparen) ?_
      simp only [Pending.readingAll, Pending.reading, Goal.reading, List.append_nil,
        List.append_assoc]

/-- A complete operation. -/
theorem Pending.reading_operation? {p : Pending} {e e' : Expr} (h : p.operation? e = some e') :
    e'.reading = p.reading ++ e.reading := by
  cases p with
  | unary op =>
      obtain rfl := Option.some.inj h
      rfl
  | binary l op =>
      obtain rfl := Option.some.inj h
      rw [Expr.reading, Pending.reading, List.append_assoc, List.singleton_append]
  | group | condition | argument => cases h

/-- The bracket or comma that a bracketed construct wants. -/
theorem Pending.accept?_reads {p : Pending} {ps : List Pending} {e : Expr} {move : Move}
    (h : p.accept? t ps e = some move) :
    move.Reads (Pending.readingAll (p :: ps) ++ e.reading) t := by
  cases p with
  | unary | binary => cases h
  | group =>
      obtain ⟨hk, rfl⟩ : t.kind = .parenRight ∧ _ = move := by simpa [Pending.accept?] using h
      refine Move.reads_of_mark hk (by decide) ?_
      simp [Pending.readingAll, Pending.reading, Goal.reading]
  | condition tok =>
      obtain ⟨hk, rfl⟩ : t.kind = .parenRight ∧ _ = move := by simpa [Pending.accept?] using h
      refine Move.reads_of_mark hk (by decide) ?_
      simp [Pending.readingAll, Pending.reading, Goal.reading, Owner.reading]
  | argument tok f es =>
      have hargs : Expr.readingAll (es ++ [e]) = Expr.readingAll es ++ e.reading := by
        rw [Expr.readingAll_append, Expr.readingAll, Expr.readingAll, List.append_nil]
      simp only [Pending.accept?] at h
      split at h
      case isTrue hk =>
        obtain rfl := Option.some.inj h
        refine Move.reads_of_mark hk (by decide) ?_
        simp [Pending.readingAll, Pending.reading, Goal.reading, hargs]
      case isFalse =>
        split at h
        case isTrue hk =>
          obtain rfl := Option.some.inj h
          refine Move.reads_of_mark hk (by decide) ?_
          simp [Pending.readingAll, Pending.reading, Goal.reading, Expr.reading, hargs]
        case isFalse => cases h

/-- **Whatever a token does to the expression before it**, if it is not at fault. -/
theorem close_reads {free : Bool} {ps : List Pending} {e : Expr} (h : (close t free ps e).1 = []) :
    (close t free ps e).2.Reads (Pending.readingAll ps ++ e.reading) t := by
  induction ps generalizing e free with
  | nil =>
      simp only [close]
      split
      case isTrue hfree => exact shift_reads (by omega) [] e
      case isFalse => rfl
  | cons p ps ih =>
      simp only [close] at h ⊢
      split
      case isTrue hfree => exact shift_reads (by omega) (p :: ps) e
      case isFalse hfree =>
        rw [if_neg hfree] at h
        split
        -- an operation is complete, and the token comes after it
        case h_1 e' hoperation =>
            simp only [hoperation] at h
            have hreads := ih h
            rwa [Pending.reading_operation? hoperation, ← List.append_assoc] at hreads
        case h_2 hoperation =>
            simp only [hoperation] at h
            split
            case h_1 move haccept => exact Pending.accept?_reads haccept
            case h_2 haccept =>
                rw [haccept] at h
                cases h

/-- A token that is wanted. -/
theorem expect_reads {k : TokenKind} {ps : List Pending} {move : Move} {before : List Token}
    (h : (expect k t ps move).1 = []) (hmove : t.kind = k → move.Reads before t) :
    (expect k t ps move).2.Reads before t := by
  unfold expect at h ⊢
  split
  case isTrue hk => exact hmove hk
  case isFalse hk =>
    rw [if_neg hk] at h
    cases h

/-- An operand that is wanted. -/
theorem operand_reads {ps : List Pending} (h : (operand t ps).1 = []) :
    (operand t ps).2.Reads (Pending.readingAll ps) t := by
  unfold operand at h ⊢
  split
  case isTrue hk =>
    rw [if_pos hk] at h
    cases h
  case isFalse hk =>
    rw [if_neg hk] at h
    exact begin_reads h

/-- **What a token does inside an expression**, if it is not at fault. -/
theorem advance_reads {ps : List Pending} {goal : Goal} (h : (advance t ps goal).1 = []) :
    (advance t ps goal).2.Reads (Pending.readingAll ps ++ goal.reading) t := by
  cases goal with
  | operand =>
      rw [Goal.reading, List.append_nil]
      exact operand_reads h
  | operator e | closer e => exact close_reads h
  | conditionParen tok =>
      refine expect_reads h fun hk => ?_
      refine Move.reads_of_mark hk (by decide) ?_
      simp [Pending.readingAll, Pending.reading, Goal.reading]
  | brace owner =>
      refine expect_reads h fun hk => ?_
      rw [Move.Reads, kept_trace hk (by decide), Goal.reading]
  | otherwise tok c yes =>
      simp only [advance] at h ⊢
      split
      case isTrue hk => exact Move.reads_of_mark hk (by decide) rfl
      case isFalse hk =>
        rw [if_neg hk] at h
        exact close_reads h
  | parametersParen tok =>
      exact expect_reads h fun hk => Move.reads_of_mark hk (by decide) rfl
  | firstParameter tok =>
      simp only [advance] at h ⊢
      split
      case isTrue hk => exact Move.reads_of_mark hk (by decide) rfl
      case isFalse hk =>
        rw [if_neg hk] at h
        refine expect_reads h fun hk => ?_
        refine Move.reads_of_trace hk (by decide) ?_
        rw [List.append_assoc]
        rfl
  | parameter tok xs =>
      refine expect_reads h fun hk => ?_
      refine Move.reads_of_trace hk (by decide) ?_
      simp [Goal.reading, Ident.ofToken]
  | parametersEnd tok xs =>
      simp only [advance] at h ⊢
      split
      case isTrue hk => exact Move.reads_of_mark hk (by decide) rfl
      case isFalse hk =>
        rw [if_neg hk] at h
        exact expect_reads h fun hk => Move.reads_of_mark hk (by decide) rfl
  | arguments tok f =>
      simp only [advance] at h ⊢
      split
      case isTrue hk =>
        refine Move.reads_of_mark hk (by decide) ?_
        simp [Goal.reading, Expr.reading, Expr.readingAll]
      case isFalse hk =>
        rw [if_neg hk] at h
        have hreads := operand_reads h
        simpa [Pending.readingAll, Pending.reading, Goal.reading, Expr.readingAll] using hreads

/-! ### Between statements -/

/-- A statement that is an expression. -/
theorem startExpr_reads {outer : List OpenBlock} {before : List Stmt}
    (h : (startExpr t outer before).1 = []) :
    (startExpr t outer before).2.reading =
      OpenBlock.readingAll outer ++ Stmt.readingAll before.reverse ++ kept [t] := by
  have hbegin := @begin_reads t [] h
  rw [Pending.readingAll, List.nil_append] at hbegin
  rw [startExpr, State.reading, Phase.reading, Head.reading, List.nil_append, hbegin]

/-- **What a token does where a statement may begin**, if it is not at fault. -/
theorem start_reads {outer : List OpenBlock} {before : List Stmt}
    (h : (start t outer before).1 = []) :
    (start t outer before).2.reading =
      OpenBlock.readingAll outer ++ Stmt.readingAll before.reverse ++ kept [t] := by
  unfold start at h ⊢
  split at h
  case h_1 hk | h_2 hk =>
      rw [kept_mark hk (by decide)]
      rfl
  case h_3 hk | h_4 hk =>
      rw [kept_trace hk (by decide)]
      rfl
  case h_5 hk =>
      rw [kept_mark hk (by decide), List.append_nil]
      cases outer with
      | nil => exact absurd h (by simp [startExpr, begin, hk])
      | cons b outer =>
          -- the statements before the brace become those of a complete block
          simp only [OpenBlock.resume, State.reading, Phase.reading, Owner.reading_after,
            Block.reading, OpenBlock.readingAll, OpenBlock.reading, List.append_assoc,
            List.singleton_append]
  case h_6 => exact startExpr_reads h

/-- What becomes of a state with the expression in it. -/
theorem carry_reads {outer : List OpenBlock} {before : List Stmt} {head : Head} {old : List Token}
    {r : List SyntaxError × Move} (hmove : r.1 = [] → r.2.Reads old t)
    (h : (carry t outer before head r).1 = []) :
    (carry t outer before head r).2.reading =
      OpenBlock.readingAll outer ++ Stmt.readingAll before.reverse ++ (head.reading ++ old) ++
        kept [t] := by
  obtain ⟨errors, move⟩ := r
  cases move with
  | stay ps goal =>
      have hreads : _ = old ++ kept [t] := hmove h
      simp only [carry, State.reading, Phase.reading, List.append_assoc, hreads]
  | openBlock owner ps =>
      have hreads : _ = old ++ kept [t] := hmove h
      simp only [List.append_assoc] at hreads
      simp only [carry, State.reading, Phase.reading, OpenBlock.readingAll, OpenBlock.reading,
        List.reverse_nil, Stmt.readingAll, List.append_nil, List.append_assoc, hreads]
  | finished e =>
      obtain ⟨herrors, hstart⟩ := List.append_eq_nil_iff.1 h
      have hreads : e.reading = old := hmove herrors
      rw [carry, start_reads hstart, readingAll_reverse_cons, Head.reading_complete, hreads,
        ← List.append_assoc (OpenBlock.readingAll outer)]

/-- **A token is added to what is kept**, if it is not at fault. -/
theorem step_reads {s : State} (h : (step s t).1 = []) :
    (step s t).2.reading = s.reading ++ kept [t] := by
  obtain ⟨outer, before, phase⟩ := s
  cases phase with
  | ready =>
      have hstart := start_reads h
      rwa [← List.append_nil (_ ++ Stmt.readingAll before.reverse)] at hstart
  | bindName tok =>
      simp only [step] at h ⊢
      split
      case isTrue hk =>
        rw [kept_trace hk (by decide)]
        simp [State.reading, Phase.reading, Ident.ofToken]
      case isFalse hk =>
        rw [if_neg hk] at h
        cases h
  | bindAssign tok x =>
      simp only [step] at h ⊢
      split
      case isTrue hk =>
        rw [kept_mark hk (by decide)]
        simp [State.reading, Phase.reading, Head.reading, Pending.readingAll, Goal.reading]
      case isFalse hk =>
        rw [if_neg hk] at h
        cases h
  | inside head ps goal =>
      rw [step_inside] at h ⊢
      rw [carry_reads advance_reads h, State.reading, Phase.reading, List.append_assoc head.reading]

/-- **Several tokens are added to what is kept**, if none of them is at fault. -/
theorem run_reads {s : State} {ts : List Token} (h : (run s ts).1 = []) :
    (run s ts).2.reading = s.reading ++ kept ts := by
  induction ts generalizing s with
  | nil => exact (List.append_nil _).symm
  | cons t ts ih =>
      obtain ⟨hstep, hrun⟩ := List.append_eq_nil_iff.1 h
      rw [run_cons, ih hrun, step_reads hstep, kept_cons t ts, List.append_assoc]

end Parser

/-! ### Whole texts -/

open LetFn.Parser in
/-- The tokens of a program that is read without errors are those of the text that leave a trace. -/
theorem Parsed.reading_ofTokens {ts : Tokens} (heof : ts.eof.kind = .eof)
    (h : (Parsed.ofTokens ts).errors = []) :
    (Parsed.ofTokens ts).program.reading = kept ts.body := by
  obtain ⟨hrun, hfinish⟩ := List.append_eq_nil_iff.1 h
  have houter := (finish_errors_eq_nil_iff _ _ _).1 hfinish
  have hphase : (run .initial (ts.body ++ [ts.eof])).2.phase = .ready := by
    rw [run_append, run_cons]
    exact (step_eof heof _).2
  have hreads := run_reads hrun
  have hkept : kept (ts.body ++ [ts.eof]) = kept ts.body := by
    rw [kept, List.filter_append]
    exact (congrArg _ (kept_mark heof (by decide))).trans (List.append_nil _)
  rw [State.reading, houter, hphase, hkept] at hreads
  rw [ofTokens, Program.reading, houter]
  simpa [Phase.reading, OpenBlock.readingAll, Stmt.readingAll, State.reading, State.initial,
    finish] using hreads

/-- **No token is lost, and none is read twice.**  The tokens of a program that is read without
errors, in reading order and with their places, are the tokens of the text without equals signs,
commas, semicolons, parentheses, closing braces and the keyword before an alternative. -/
theorem Parsed.reading_eq (source : String) (h : (Parsed.ofString source).errors = []) :
    (Parsed.ofString source).program.reading =
      (Tokens.ofString source).body.filter fun t =>
        t.kind ∉ [.assign, .comma, .semicolon, .parenLeft, .parenRight, .braceRight, .kwElse] := by
  have heof : (Tokens.ofString source).eof.kind = .eof := Lexer.kind_tokens_eof _
  refine (Parsed.reading_ofTokens heof h).trans (List.filter_congr fun t ht => ?_)
  have hne : t.kind ≠ .eof := Lexer.kind_ne_eof_of_mem_tokens ht
  rw [decide_eq_decide, List.mem_cons, not_or]
  exact and_iff_right hne

/-- The text `fn(x, y) { if (!x) { y } else { -x; } } f(1, 2)(3) return f`. -/
def adjacent : String :=
  "fn(x, y) \x7b if (!x) \x7b y \x7d else \x7b -x; \x7d \x7d f(1, 2)(3) return f"

/-- Statements without separators, a function literal, and a call of what a call returns. -/
theorem Parsed.reading_eq_adjacent :
    (Parsed.ofString adjacent).errors = [] ∧
    (Parsed.ofString adjacent).program.reading.map Token.literal =
      ["fn", "x", "y", "\x7b", "if", "!", "x", "\x7b", "y", "\x7b", "-", "x", "f", "1", "2", "3",
        "return", "f"] := by
  have h : (Parsed.ofString adjacent).errors = [] := by decide +kernel
  exact ⟨h, (congrArg (List.map Token.literal) (Parsed.reading_eq _ h)).trans (by decide +kernel)⟩

end LetFn
