/-
**Broken nodes and recorded errors.**

Whenever a parser gives a construct up it records an error, and one broken node takes the place of
all that had been read of the construct, its own broken nodes among it.  So every broken node of a
tree stands for an error of its own, in the order of the text, and what has been given up once has a
broken node to show for it ever after.  Only a block that is still open at the end of a text is put
on record without a broken node: its statements are kept as if its brace had come.

What is broken in a state is therefore accounted for from token to token: what a step adds stands
for errors that the step records, and a step that records one adds something.

Main definitions:

* `LetFn.Node.StandsFor` — the error that a broken node stands for;
* `LetFn.SyntaxError.Unclosed` — the error that leaves no broken node;
* `LetFn.Expr.broken`, `LetFn.Stmt.broken`, `LetFn.Program.broken` — the broken nodes of a tree, in
  the order of the text;
* `LetFn.Parser.State.broken` — those of all that has been read;
* `LetFn.Parser.Accounts` — **how what is broken changes with the errors on record**.

Main results:

* `LetFn.Parser.step_accounts`, `LetFn.Parser.run_accounts` — **reading a token, or several, is
  accounted for**;
* `LetFn.Parsed.accounts_ofTokens` — the broken nodes of a tree stand for errors of their own, and a
  tree without any was read with no error but for blocks that are not closed;
* `LetFn.Parsed.errors_correspond` — **recorded errors and broken nodes correspond**, and a program
  that was read without errors does not fail for what is broken.
-/

import Mathlib.Data.List.Forall2
import LetFn.Proofs.Eval.Scoping
import LetFn.Proofs.Parser.Origin

set_option relaxedAutoImplicit false
set_option autoImplicit false

namespace LetFn

open LetFn.Parser

/-! ### The error that a broken node stands for -/

/-- **The broken node stands for the error**: an expression is the node of the error, and a
statement is a binding that lacks its name or its equals sign. -/
def Node.StandsFor : Node → SyntaxError → Prop
  | .expr e, error => e = error.node
  | .stmt (.error t), error => error = .unexpected .identifier t ∨ error = .unexpected .assign t
  | _, _ => False

/-- A node among several that stand for errors of their own stands for one of them. -/
theorem Node.exists_error_of_standFor {ns : List Node} {errors : List SyntaxError} {n : Node}
    (h : List.SublistForall₂ Node.StandsFor ns errors) (hn : n ∈ ns) :
    ∃ error ∈ errors, n.StandsFor error := by
  induction h with
  | nil => cases hn
  | cons hstands _ ih =>
      rcases List.mem_cons.1 hn with rfl | hn
      · exact ⟨_, List.mem_cons_self, hstands⟩
      · obtain ⟨error, herror, hn⟩ := ih hn
        exact ⟨error, List.mem_cons_of_mem _ herror, hn⟩
  | cons_right _ ih =>
      obtain ⟨error, herror, hn⟩ := ih hn
      exact ⟨error, List.mem_cons_of_mem _ herror, hn⟩

/-- A block is not closed at the end of the text. -/
def SyntaxError.Unclosed (error : SyntaxError) : Prop :=
  ∃ t, error = .unexpected .braceRight t ∧ t.kind = .eof

/-! ### The broken nodes of a tree -/

/-- The broken nodes of an expression, in the order of the text. -/
def Expr.broken (e : Expr) : List Node :=
  e.nodes.filter fun n => n.Broken

/-- The broken nodes of a statement, in the order of the text. -/
def Stmt.broken (s : Stmt) : List Node :=
  s.nodes.filter fun n => n.Broken

/-- The broken nodes of a block, in the order of the text. -/
def Block.broken (b : Block) : List Node :=
  b.nodes.filter fun n => n.Broken

/-- The broken nodes of a program, in the order of the text. -/
def Program.broken (p : Program) : List Node :=
  p.nodes.filter fun n => n.Broken

theorem Expr.filter_nodesAll (es : List Expr) :
    ((Expr.nodesAll es).filter fun n => n.Broken) = es.flatMap Expr.broken := by
  induction es with
  | nil => rfl
  | cons e es ih => rw [Expr.nodesAll, List.filter_append, ih, List.flatMap_cons, Expr.broken]

theorem Stmt.filter_nodesAll (ss : List Stmt) :
    ((Stmt.nodesAll ss).filter fun n => n.Broken) = ss.flatMap Stmt.broken := by
  induction ss with
  | nil => rfl
  | cons s ss ih => rw [Stmt.nodesAll, List.filter_append, ih, List.flatMap_cons, Stmt.broken]

section Trees

variable (t : Token)

@[simp] theorem Expr.broken_ident (x : Ident) : (Expr.ident x).broken = [] := rfl

@[simp] theorem Expr.broken_integer (n : Int64) : (Expr.integer t n).broken = [] := rfl

@[simp] theorem Expr.broken_boolean (b : Bool) : (Expr.boolean t b).broken = [] := rfl

@[simp] theorem Expr.broken_unary (e : Expr) : (Expr.unary t e).broken = e.broken := rfl

@[simp] theorem Expr.broken_binary (l r : Expr) :
    (Expr.binary l t r).broken = l.broken ++ r.broken :=
  List.filter_append l.nodes r.nodes

@[simp] theorem Expr.broken_ifThen (c : Expr) (yes : Block) :
    (Expr.ifElse t c yes none).broken = c.broken ++ yes.broken :=
  List.filter_append c.nodes yes.nodes

@[simp] theorem Expr.broken_ifElse (c : Expr) (yes no : Block) :
    (Expr.ifElse t c yes (some no)).broken = c.broken ++ yes.broken ++ no.broken := by
  change List.filter _ (c.nodes ++ yes.nodes ++ no.nodes) = _
  rw [List.filter_append, List.filter_append]
  rfl

@[simp] theorem Expr.broken_function (xs : List Ident) (b : Block) :
    (Expr.function t xs b).broken = b.broken := rfl

@[simp] theorem Expr.broken_call (f : Expr) (es : List Expr) :
    (Expr.call t f es).broken = f.broken ++ es.flatMap Expr.broken := by
  change List.filter _ (f.nodes ++ Expr.nodesAll es) = _
  rw [List.filter_append, Expr.filter_nodesAll]
  rfl

@[simp] theorem SyntaxError.broken_node (error : SyntaxError) :
    error.node.broken = [.expr error.node] := by
  cases error <;> rfl

@[simp] theorem Stmt.broken_error : (Stmt.error t).broken = [.stmt (.error t)] := rfl

@[simp] theorem Block.broken_mk (ss : List Stmt) :
    (Block.mk t ss).broken = ss.flatMap Stmt.broken :=
  Stmt.filter_nodesAll ss

@[simp] theorem Head.broken_complete (head : Head) (e : Expr) :
    (head.complete e).broken = e.broken := by
  cases head <;> rfl

end Trees

namespace Parser

/-! ### What is broken in a state -/

/-- What is broken in several things that are kept with the last of them first. -/
def brokenIn {α : Type} (broken : α → List Node) (xs : List α) : List Node :=
  xs.reverse.flatMap broken

@[simp] theorem brokenIn_nil {α : Type} (broken : α → List Node) : brokenIn broken [] = [] := rfl

@[simp] theorem brokenIn_cons {α : Type} (broken : α → List Node) (x : α) (xs : List α) :
    brokenIn broken (x :: xs) = brokenIn broken xs ++ broken x := by
  simp [brokenIn]

/-- What is broken in what a pending construct keeps. -/
def Pending.broken : Pending → List Node
  | .unary _ => []
  | .binary l _ => l.broken
  | .group => []
  | .condition _ => []
  | .argument _ f es => f.broken ++ es.flatMap Expr.broken

/-- What is broken in what the owner of a block keeps. -/
def Owner.broken : Owner → List Node
  | .consequence _ c => c.broken
  | .alternative _ c yes => c.broken ++ yes.broken
  | .body _ _ => []

/-- What is broken in what a goal keeps. -/
def Goal.broken : Goal → List Node
  | .operand => []
  | .operator e => e.broken
  | .closer e => e.broken
  | .conditionParen _ => []
  | .brace owner => owner.broken
  | .otherwise _ c yes => c.broken ++ yes.broken
  | .parametersParen _ => []
  | .firstParameter _ => []
  | .parameter _ _ => []
  | .parametersEnd _ _ => []
  | .arguments _ f => f.broken

/-- What is broken in an open block and the statement around it. -/
def OpenBlock.broken (b : OpenBlock) : List Node :=
  brokenIn Stmt.broken b.before ++ (brokenIn Pending.broken b.pending ++ b.owner.broken)

/-- What is broken in the present statement. -/
def Phase.broken : Phase → List Node
  | .ready => []
  | .bindName _ => []
  | .bindAssign _ _ => []
  | .inside _ ps goal => brokenIn Pending.broken ps ++ goal.broken

/-- **What is broken in all that has been read**, in the order of the text. -/
def State.broken (s : State) : List Node :=
  brokenIn OpenBlock.broken s.outer ++ (brokenIn Stmt.broken s.before ++ s.phase.broken)

/-- What is broken in what becomes of an expression. -/
def Move.broken : Move → List Node
  | .stay ps goal => brokenIn Pending.broken ps ++ goal.broken
  | .openBlock owner ps => brokenIn Pending.broken ps ++ owner.broken
  | .finished e => e.broken

/-! ### Accounts -/

/-- **While `errors` were recorded, what is broken changed from `ns` to `ns'`.**  What is broken
then was broken before or stands for one of the errors; and if nothing is, nothing was, and no error
was recorded but for blocks that are not closed. -/
structure Accounts (ns : List Node) (errors : List SyntaxError) (ns' : List Node) : Prop where
  kept : ∃ new, ns'.Sublist (ns ++ new) ∧ List.SublistForall₂ Node.StandsFor new errors
  whole : ns' = [] → ns = [] ∧ ∀ error ∈ errors, error.Unclosed

namespace Accounts

variable {ns ns' ns'' : List Node} {errors errors' : List SyntaxError} {error : SyntaxError}

theorem refl (ns : List Node) : Accounts ns [] ns :=
  ⟨⟨[], by simp, .nil⟩, fun h => ⟨h, by simp⟩⟩

/-- Nothing is recorded, and what was broken is put together differently. -/
theorem of_eq (h : ns = ns') : Accounts ns [] ns' :=
  h ▸ refl ns

/-- The nodes of one list and of another stand for the errors of one list and of another. -/
theorem standFor_append {ms ms' : List Node}
    (h : List.SublistForall₂ Node.StandsFor ms errors)
    (h' : List.SublistForall₂ Node.StandsFor ms' errors') :
    List.SublistForall₂ Node.StandsFor (ms ++ ms') (errors ++ errors') := by
  rw [List.sublistForall₂_iff] at h h' ⊢
  obtain ⟨es, hes, hsub⟩ := h
  obtain ⟨es', hes', hsub'⟩ := h'
  exact ⟨es ++ es', List.rel_append hes hes', hsub.append hsub'⟩

/-- One stretch after another. -/
theorem trans (h : Accounts ns errors ns') (h' : Accounts ns' errors' ns'') :
    Accounts ns (errors ++ errors') ns'' where
  kept := by
    obtain ⟨new, hsub, hnew⟩ := h.kept
    obtain ⟨new', hsub', hnew'⟩ := h'.kept
    refine ⟨new ++ new', ?_, standFor_append hnew hnew'⟩
    rw [← List.append_assoc]
    exact hsub'.trans (hsub.append_right new')
  whole hempty := by
    obtain ⟨hmiddle, herrors'⟩ := h'.whole hempty
    obtain ⟨hstart, herrors⟩ := h.whole hmiddle
    exact ⟨hstart, List.forall_mem_append.2 ⟨herrors, herrors'⟩⟩

/-- What stands before stays. -/
theorem after (h : Accounts ns errors ns') (earlier : List Node) :
    Accounts (earlier ++ ns) errors (earlier ++ ns') where
  kept := by
    obtain ⟨new, hsub, hnew⟩ := h.kept
    refine ⟨new, ?_, hnew⟩
    rw [List.append_assoc]
    exact hsub.append_left earlier
  whole hempty := by
    obtain ⟨rfl, hempty⟩ := List.append_eq_nil_iff.1 hempty
    exact ⟨(h.whole hempty).1, (h.whole hempty).2⟩

/-- **Something is given up**: an error is recorded, and a broken node takes the place of `lost`. -/
theorem giveUp {n : Node} (hn : n.StandsFor error) (lost : List Node) :
    Accounts lost [error] [n] where
  kept := ⟨[n], List.sublist_append_right lost [n], .cons hn .nil⟩
  whole hempty := by cases hempty

end Accounts

/-! ### Inside an expression -/

/-- The node of an error stands for it. -/
theorem SyntaxError.node_standsFor (error : SyntaxError) : (Node.expr error.node).StandsFor error :=
  rfl

/-- The node of an error takes the place of what is lost. -/
theorem Accounts.node (error : SyntaxError) (lost : List Node) :
    Accounts lost [error] error.node.broken := by
  rw [SyntaxError.broken_node]
  exact .giveUp (SyntaxError.node_standsFor error) lost

theorem integer_accounts (t : Token) : Accounts [] (integer t).1 (integer t).2.broken := by
  unfold integer
  split
  · exact .refl []
  · exact .node _ []

/-- The first token of an operand. -/
theorem begin_accounts (t : Token) (ps : List Pending) :
    Accounts (brokenIn Pending.broken ps) (begin t ps).1
      (brokenIn Pending.broken (begin t ps).2.1 ++ (begin t ps).2.2.broken) := by
  unfold begin
  split
  case h_2 => simpa [Goal.broken] using (integer_accounts t).after (brokenIn Pending.broken ps)
  case h_10 => simpa [Goal.broken] using
      (Accounts.node (.noOperand t) []).after (brokenIn Pending.broken ps)
  all_goals exact .of_eq (by simp [Pending.broken, Goal.broken])

theorem broken_shift (t : Token) (ps : List Pending) (e : Expr) :
    (shift t ps e).broken = brokenIn Pending.broken ps ++ e.broken := by
  unfold shift
  split <;> simp [Move.broken, Goal.broken, Pending.broken]

theorem Pending.broken_operation? {p : Pending} {e e' : Expr} (h : p.operation? e = some e') :
    e'.broken = p.broken ++ e.broken := by
  cases p with
  | unary op =>
      obtain rfl := Option.some.inj h
      rfl
  | binary l op =>
      obtain rfl := Option.some.inj h
      exact Expr.broken_binary op l e
  | group | condition | argument => cases h

theorem Pending.broken_accept? {p : Pending} {t : Token} {ps : List Pending} {e : Expr}
    {move : Move} (h : p.accept? t ps e = some move) :
    move.broken = brokenIn Pending.broken ps ++ (p.broken ++ e.broken) := by
  cases p with
  | unary | binary => cases h
  | group =>
      obtain ⟨-, rfl⟩ : t.kind = .parenRight ∧ _ = move := by simpa [Pending.accept?] using h
      rfl
  | condition tok =>
      obtain ⟨-, rfl⟩ : t.kind = .parenRight ∧ _ = move := by simpa [Pending.accept?] using h
      rfl
  | argument tok f es =>
      simp only [Pending.accept?] at h
      split at h
      · obtain rfl := Option.some.inj h
        simp [Move.broken, Goal.broken, Pending.broken]
      · split at h
        · obtain rfl := Option.some.inj h
          simp [Move.broken, Goal.broken, Pending.broken]
        · cases h

/-- **Whatever a token does to the expression before it.** -/
theorem close_accounts (t : Token) (free : Bool) (ps : List Pending) (e : Expr) :
    Accounts (brokenIn Pending.broken ps ++ e.broken) (close t free ps e).1
      (close t free ps e).2.broken := by
  induction ps generalizing e free with
  | nil =>
      simp only [close]
      split
      · exact .of_eq (broken_shift t [] e).symm
      · exact .of_eq rfl
  | cons p ps ih =>
      simp only [close]
      split
      · exact .of_eq (broken_shift t (p :: ps) e).symm
      · rw [brokenIn_cons, List.append_assoc]
        split
        case h_1 e' hoperation =>
            rw [← Pending.broken_operation? hoperation]
            exact ih true e'
        case h_2 =>
            split
            case h_1 move haccept => exact .of_eq (Pending.broken_accept? haccept).symm
            -- the bracket is given up, with the expression in it
            case h_2 => exact ((Accounts.node _ _).after _).trans (ih true _)

/-- A construct is given up, and with it all that it had kept. -/
theorem giveUp_accounts (error : SyntaxError) (t : Token) (ps : List Pending) (lost : List Node) :
    Accounts (brokenIn Pending.broken ps ++ lost) (giveUp error t ps).1
      (giveUp error t ps).2.broken :=
  ((Accounts.node error lost).after _).trans (close_accounts t true ps error.node)

theorem expect_accounts (k : TokenKind) (t : Token) (ps : List Pending) {lost : List Node}
    {move : Move} (h : move.broken = brokenIn Pending.broken ps ++ lost) :
    Accounts (brokenIn Pending.broken ps ++ lost) (expect k t ps move).1
      (expect k t ps move).2.broken := by
  unfold expect
  split
  · exact .of_eq h.symm
  · exact giveUp_accounts _ t ps lost

theorem operand_accounts (t : Token) (ps : List Pending) :
    Accounts (brokenIn Pending.broken ps) (operand t ps).1 (operand t ps).2.broken := by
  unfold operand
  split
  · simpa using giveUp_accounts (.noOperand t) t ps []
  · exact begin_accounts t ps

/-- What a token does inside an expression. -/
theorem advance_accounts (t : Token) (ps : List Pending) (goal : Goal) :
    Accounts (brokenIn Pending.broken ps ++ goal.broken) (advance t ps goal).1
      (advance t ps goal).2.broken := by
  cases goal with
  | operand =>
      rw [Goal.broken, List.append_nil]
      exact operand_accounts t ps
  | operator e => exact close_accounts t true ps e
  | closer e => exact close_accounts t false ps e
  | conditionParen tok =>
      exact expect_accounts _ t ps (by simp [Move.broken, Goal.broken, Pending.broken])
  | brace owner => exact expect_accounts _ t ps rfl
  | otherwise tok c yes =>
      simp only [advance]
      split
      · exact .of_eq rfl
      · simpa [Goal.broken] using close_accounts t true ps (.ifElse tok c yes none)
  | parametersParen tok => exact expect_accounts _ t ps rfl
  | firstParameter tok =>
      simp only [advance]
      split
      · exact .of_eq rfl
      · exact expect_accounts _ t ps rfl
  | parameter tok xs => exact expect_accounts _ t ps rfl
  | parametersEnd tok xs =>
      simp only [advance]
      split
      · exact .of_eq rfl
      · exact expect_accounts _ t ps rfl
  | arguments tok f =>
      simp only [advance]
      split
      · exact .of_eq (by simp [Move.broken, Goal.broken])
      · simpa [Goal.broken, Pending.broken] using operand_accounts t (.argument tok f [] :: ps)

/-! ### Between statements -/

/-- What is broken in open blocks and in the statements of the innermost one. -/
def brokenBefore (outer : List OpenBlock) (before : List Stmt) : List Node :=
  brokenIn OpenBlock.broken outer ++ brokenIn Stmt.broken before

@[simp] theorem brokenBefore_cons (outer : List OpenBlock) (before : List Stmt) (s : Stmt) :
    brokenBefore outer (s :: before) = brokenBefore outer before ++ s.broken := by
  simp [brokenBefore]

theorem State.broken_mk (outer : List OpenBlock) (before : List Stmt) (phase : Phase) :
    (State.mk outer before phase).broken = brokenBefore outer before ++ phase.broken :=
  (List.append_assoc _ _ _).symm

theorem State.broken_of_ready {s : State} (h : s.phase = .ready) :
    s.broken = brokenBefore s.outer s.before := by
  obtain ⟨outer, before, phase⟩ := s
  obtain rfl : phase = .ready := h
  rw [State.broken_mk, Phase.broken, List.append_nil]

theorem Goal.broken_after (owner : Owner) (b : Block) :
    (owner.after b).broken = owner.broken ++ b.broken := by
  cases owner <;> simp [Owner.after, Goal.broken, Owner.broken]

/-- A block that is complete is kept in the statement around it. -/
theorem broken_resume (b : OpenBlock) (outer : List OpenBlock) (before : List Stmt) :
    (b.resume outer before).broken = brokenBefore (b :: outer) before := by
  simp [OpenBlock.resume, State.broken, Phase.broken, Goal.broken_after, brokenBefore,
    OpenBlock.broken, brokenIn]

theorem startExpr_accounts (t : Token) (outer : List OpenBlock) (before : List Stmt) :
    Accounts (brokenBefore outer before) (startExpr t outer before).1
      (startExpr t outer before).2.broken := by
  simp only [startExpr, State.broken_mk, Phase.broken]
  simpa using (begin_accounts t []).after (brokenBefore outer before)

theorem start_accounts (t : Token) (outer : List OpenBlock) (before : List Stmt) :
    Accounts (brokenBefore outer before) (start t outer before).1
      (start t outer before).2.broken := by
  unfold start
  split
  case h_5 =>
      cases outer with
      | nil => exact startExpr_accounts t [] before
      | cons b outer => exact .of_eq (broken_resume b outer before).symm
  case h_6 => exact startExpr_accounts t outer before
  all_goals exact .of_eq (by simp [State.broken_mk, Phase.broken, Goal.broken])

/-- A binding is given up, and nothing is lost. -/
theorem abandon_accounts {k : TokenKind} (hk : k = .identifier ∨ k = .assign) (t : Token)
    (outer : List OpenBlock) (before : List Stmt) :
    Accounts (brokenBefore outer before) (abandon k t outer before).1
      (abandon k t outer before).2.broken := by
  have hstands : (Node.stmt (.error t)).StandsFor (.unexpected k t) := by
    rcases hk with rfl | rfl
    · exact .inl rfl
    · exact .inr rfl
  have hbroken := (Accounts.giveUp hstands []).after (brokenBefore outer before)
  rw [List.append_nil, ← Stmt.broken_error, ← brokenBefore_cons] at hbroken
  exact hbroken.trans (start_accounts t outer (.error t :: before))

theorem carry_accounts {t : Token} {outer : List OpenBlock} {before : List Stmt} {head : Head}
    {ns : List Node} {r : List SyntaxError × Move} (h : Accounts ns r.1 r.2.broken) :
    Accounts (brokenBefore outer before ++ ns) (carry t outer before head r).1
      (carry t outer before head r).2.broken := by
  obtain ⟨errors, move⟩ := r
  cases move with
  | stay ps goal =>
      rw [carry, State.broken_mk]
      exact h.after _
  | openBlock owner ps =>
      have hbroken : (State.mk (⟨owner, t, before, head, ps⟩ :: outer) [] .ready).broken =
          brokenBefore outer before ++ (Move.openBlock owner ps).broken := by
        simp [State.broken, OpenBlock.broken, brokenBefore, Move.broken, Phase.broken]
      rw [carry, hbroken]
      exact h.after _
  | finished e =>
      have hstart := start_accounts t outer (head.complete e :: before)
      rw [brokenBefore_cons, Head.broken_complete] at hstart
      exact (h.after _).trans hstart

/-- **Reading one token is accounted for.** -/
theorem step_accounts (s : State) (t : Token) :
    Accounts s.broken (step s t).1 (step s t).2.broken := by
  obtain ⟨outer, before, phase⟩ := s
  rw [State.broken_mk]
  cases phase with
  | ready =>
      rw [Phase.broken, List.append_nil]
      exact start_accounts t outer before
  | bindName tok =>
      simp only [step, Phase.broken, List.append_nil]
      split
      · exact .of_eq (by simp [State.broken_mk, Phase.broken])
      · exact abandon_accounts (.inl rfl) t outer before
  | bindAssign tok x =>
      simp only [step, Phase.broken, List.append_nil]
      split
      · exact .of_eq (by simp [State.broken_mk, Phase.broken, Goal.broken])
      · exact abandon_accounts (.inr rfl) t outer before
  | inside head ps goal =>
      rw [step_inside]
      exact carry_accounts (advance_accounts t ps goal)

/-! ### Whole texts -/

/-- **Reading several tokens is accounted for.** -/
theorem run_accounts (s : State) (ts : List Token) :
    Accounts s.broken (run s ts).1 (run s ts).2.broken := by
  induction ts generalizing s with
  | nil => exact .refl _
  | cons t ts ih =>
      rw [run_cons]
      exact (step_accounts s t).trans (ih _)

/-- A block that is not closed is put on record, and nothing is broken on that account. -/
theorem Accounts.unclosed {eof : Token} (heof : eof.kind = .eof) (ns : List Node) :
    Accounts ns [.unexpected .braceRight eof] ns where
  kept := ⟨[], by simp, .nil⟩
  whole hempty := by
    refine ⟨hempty, fun error herror => ?_⟩
    obtain rfl := List.mem_singleton.1 herror
    exact ⟨eof, rfl, heof⟩

/-- The blocks that are open at the end of a text. -/
theorem finish_accounts {eof : Token} (heof : eof.kind = .eof) (outer : List OpenBlock)
    (before : List Stmt) :
    Accounts (brokenBefore outer before) (finish eof outer before).1
      (finish eof outer before).2.broken := by
  induction outer generalizing before with
  | nil =>
      refine .of_eq ?_
      rw [finish, Program.broken, Program.nodes, Stmt.filter_nodesAll]
      rfl
  | cons b outer ih =>
      have hresume := step_accounts (b.resume outer before) eof
      rw [broken_resume] at hresume
      -- the end token has completed the statement around the block, and left the others open
      obtain ⟨houter, hphase⟩ := step_eof heof (b.resume outer before)
      rw [State.broken_of_ready hphase, houter] at hresume
      exact (Accounts.unclosed heof _).trans (hresume.trans (ih _))

end Parser

namespace Parsed

/-- **The broken nodes of a tree stand for errors of their own**, and a tree without any was read
with no error but for blocks that are not closed. -/
theorem accounts_ofTokens {ts : Tokens} (heof : ts.eof.kind = .eof) :
    Accounts [] (ofTokens ts).errors (ofTokens ts).program.broken := by
  have hrun := run_accounts .initial (ts.body ++ [ts.eof])
  -- the end token has completed the last statement
  have hphase : (run .initial (ts.body ++ [ts.eof])).2.phase = .ready := by
    rw [run_append]
    exact (step_eof heof _).2
  rw [State.broken_of_ready hphase] at hrun
  exact hrun.trans (finish_accounts heof _ _)

section Correspondence

variable {ts : Tokens} (heof : ts.eof.kind = .eof)

include heof

/-- A broken node stands for an error on record. -/
theorem exists_error_of_broken {n : Node} (hn : n ∈ (ofTokens ts).program.nodes)
    (hbroken : n.Broken) : ∃ error ∈ (ofTokens ts).errors, n.StandsFor error := by
  obtain ⟨new, hsub, hnew⟩ := (accounts_ofTokens heof).kept
  have hmem : n ∈ (ofTokens ts).program.broken := List.mem_filter.2 ⟨hn, decide_eq_true hbroken⟩
  exact Node.exists_error_of_standFor hnew (hsub.subset hmem)

/-- There are no more broken nodes than errors on record. -/
theorem length_broken_le :
    (ofTokens ts).program.broken.length ≤ (ofTokens ts).errors.length := by
  obtain ⟨new, hsub, hnew⟩ := (accounts_ofTokens heof).kept
  obtain ⟨errors, hstand, hrecorded⟩ := List.sublistForall₂_iff.1 hnew
  calc (ofTokens ts).program.broken.length
      ≤ new.length := by simpa using hsub.length_le
    _ = errors.length := hstand.length_eq
    _ ≤ (ofTokens ts).errors.length := hrecorded.length_le

/-- Where nothing is broken, no error is on record but for blocks that are not closed. -/
theorem unclosed_of_whole (h : ∀ n ∈ (ofTokens ts).program.nodes, n.Whole) :
    ∀ error ∈ (ofTokens ts).errors, error.Unclosed := by
  refine ((accounts_ofTokens heof).whole (List.filter_eq_nil_iff.2 fun n hn => ?_)).2
  exact mt of_decide_eq_true (h n hn)

end Correspondence

/-- A tree that was read without errors is well-scoped where all names may be used. -/
theorem scoped_of_correct {ts : Tokens} (h : (ofTokens ts).errors = []) :
    (ofTokens ts).program.Scoped Set.univ :=
  Program.scoped_of_whole (whole_of_errors_eq_nil h)

/-- **Recorded errors and broken nodes correspond.**  A broken expression has the token of an error
on record, and what it says was expected or was wrong is from that error; a broken statement is a
binding that lacks its name or its equals sign.  There are no more broken nodes than errors; and if
there are none, every error is of a block that is not closed.  So in a program that was read without
errors nothing is broken, and when it is run in a new scope it does not fail for what is. -/
theorem errors_correspond (source : String) :
    (∀ t expected message,
      .expr (.error t expected message) ∈ (ofString source).program.nodes →
        (∃ k, expected = some k ∧ message = none ∧ .unexpected k t ∈ (ofString source).errors) ∨
        ∃ text, expected = none ∧ message = some text ∧
          (.noOperand t ∈ (ofString source).errors ∨ .tooLarge t ∈ (ofString source).errors)) ∧
    (∀ t, .stmt (.error t) ∈ (ofString source).program.nodes →
      .unexpected .identifier t ∈ (ofString source).errors ∨
        .unexpected .assign t ∈ (ofString source).errors) ∧
    ((ofString source).program.nodes.filter fun n => n.Broken).length ≤
      (ofString source).errors.length ∧
    ((∀ n ∈ (ofString source).program.nodes, n.Whole) →
      ∀ error ∈ (ofString source).errors, ∃ t, error = .unexpected .braceRight t ∧ t.kind = .eof) ∧
    ((ofString source).errors = [] →
      (∀ n ∈ (ofString source).program.nodes, n.Whole) ∧
      ∀ (depth : Nat) (w w' : World) (o : Option Outcome),
        (ofString source).program.run depth w.newGlobal.1 w.newGlobal.2 = some (o, w') →
        ∀ e, o = some (.error e) → ∀ x, e.message ≠ "parse error at " ++ x) := by
  have heof : (Tokens.ofString source).eof.kind = .eof := Lexer.kind_tokens_eof _
  refine ⟨fun t expected message hn => ?_, fun t hn => ?_, length_broken_le heof,
    unclosed_of_whole heof, fun hcorrect => ⟨?_, fun depth w w' o hrun e he => ?_⟩⟩
  · obtain ⟨error, herror, hnode⟩ := exists_error_of_broken heof hn trivial
    cases error with
    | unexpected k u =>
        obtain ⟨rfl, rfl, rfl⟩ := Expr.error.inj hnode
        exact .inl ⟨k, rfl, rfl, herror⟩
    | noOperand u =>
        obtain ⟨rfl, rfl, rfl⟩ := Expr.error.inj hnode
        exact .inr ⟨_, rfl, rfl, .inl herror⟩
    | tooLarge u =>
        obtain ⟨rfl, rfl, rfl⟩ := Expr.error.inj hnode
        exact .inr ⟨_, rfl, rfl, .inr herror⟩
  · obtain ⟨error, herror, rfl | rfl⟩ := exists_error_of_broken heof hn trivial
    · exact .inl herror
    · exact .inr herror
  · exact Stmt.forall_mem_nodesAll.2 (whole_of_errors_eq_nil hcorrect)
  · subst he
    exact (Program.run_scoped (scoped_of_correct hcorrect) hrun).message_ne_broken

/-- The text ends in two open blocks and a binding without a name: the binding is broken, and the
blocks have no broken nodes. -/
theorem errors_correspond_unclosed :
    (ofString "if (a) \x7b fn() \x7b let").errors =
      [.unexpected .identifier ⟨.eof, "", ⟨1, 20⟩⟩, .unexpected .braceRight ⟨.eof, "", ⟨1, 20⟩⟩,
        .unexpected .braceRight ⟨.eof, "", ⟨1, 20⟩⟩] ∧
    ((ofString "if (a) \x7b fn() \x7b let").program.nodes.filter fun n => n.Broken).length ≤ 3 := by
  have herrors : (ofString "if (a) \x7b fn() \x7b let").errors =
      [.unexpected .identifier ⟨.eof, "", ⟨1, 20⟩⟩, .unexpected .braceRight ⟨.eof, "", ⟨1, 20⟩⟩,
        .unexpected .braceRight ⟨.eof, "", ⟨1, 20⟩⟩] := by decide +kernel
  obtain ⟨-, -, hlength, -⟩ := errors_correspond "if (a) \x7b fn() \x7b let"
  exact ⟨herrors, by rwa [herrors] at hlength⟩

end Parsed

end LetFn
