/-
**Where the nodes of a tree come from.**

A parser makes nothing up.  Each node that it builds has a token that it has read, of the kind that
such a node begins with, and a broken node stands for an error that it has recorded.  So what is
known of the tokens of a text, or of the errors, is known of the tree that is read from it.

What a parser builds is judged together with the errors that it records on the way: if these are
among the errors of the origin, then what has been built stems from there.

Main definitions:

* `LetFn.Parser.Origin` — tokens that may be read and errors that may be recorded;
* `LetFn.Node.StemsFrom` — **what is required of a node** that a parser builds;
* `LetFn.Parser.Origin.Yields` — what is built stems from an origin, if the errors do;
* `LetFn.Parser.State.StemsFrom` — all that has been read so far stems from an origin.

Main results:

* `LetFn.Parser.step_yields`, `LetFn.Parser.run_yields` — **reading a token, or several, keeps this**;
* `LetFn.Parsed.stemsFrom_ofTokens` — the nodes of a tree stem from the tokens that were read and the
  errors that were recorded;
* `LetFn.Parsed.whole_of_errors_eq_nil` — **nothing is broken in a tree that was read without
  errors**.
-/

import LetFn.Parser.Program
import LetFn.Proofs.Parser.Grammar
import LetFn.Proofs.Syntax.Nodes

set_option relaxedAutoImplicit false
set_option autoImplicit false

namespace LetFn

open LetFn.Parser Grammar

/-! ### Origins -/

/-- Tokens that may be read, and errors that may be recorded. -/
structure Parser.Origin where
  token : Token → Prop
  error : SyntaxError → Prop

/-- A token of the origin, of a certain kind. -/
def Parser.Origin.Has (o : Origin) (k : TokenKind) (t : Token) : Prop :=
  o.token t ∧ t.kind = k

/-- The keyword of a truth value. -/
def boolKind (b : Bool) : TokenKind :=
  if b then .kwTrue else .kwFalse

/-- The name is spelled by a token. -/
def Ident.StemsFrom (o : Origin) (x : Ident) : Prop :=
  o.Has .identifier x.token ∧ x = .ofToken x.token

/-- **What is required of a node that a parser builds**: the token that it has, or the error that it
stands for.  No statement is a block by itself. -/
def Node.StemsFrom (o : Origin) : Node → Prop
  | .expr (.ident x) => x.StemsFrom o
  | .expr (.integer t n) => o.Has .integer t ∧ Integer.ofDigits? t.literal.toList = some n
  | .expr (.boolean t b) => o.Has (boolKind b) t
  | .expr (.unary op _) => o.token op ∧ op.kind ∈ unaryOperators
  | .expr (.binary _ op _) => o.token op ∧ op.kind ∈ binaryOperators
  | .expr (.ifElse t _ _ _) => o.Has .kwIf t
  | .expr (.function t xs _) => o.Has .kwFn t ∧ ∀ x ∈ xs, x.StemsFrom o
  | .expr (.call t _ _) => o.Has .parenLeft t
  | .expr (.error t expected message) => ∃ e, o.error e ∧ e.node = .error t expected message
  | .stmt (.bind t x _) => o.Has .kwLet t ∧ x.StemsFrom o
  | .stmt (.returns t _) => o.Has .kwReturn t
  | .stmt (.expr t _) => o.token t
  | .stmt (.block _) => False
  | .stmt (.error t) => ∃ k, o.error (.unexpected k t)
  | .block b => o.Has .braceLeft b.brace
  | .program _ => True

section Trees

variable (o : Origin)

/-- Every node of an expression stems from the origin. -/
abbrev Expr.StemsFrom (e : Expr) : Prop :=
  e.Every (Node.StemsFrom o)

/-- Every node of a statement stems from the origin. -/
abbrev Stmt.StemsFrom (s : Stmt) : Prop :=
  s.Every (Node.StemsFrom o)

/-- Every node of a block stems from the origin. -/
abbrev Block.StemsFrom (b : Block) : Prop :=
  b.Every (Node.StemsFrom o)

end Trees

theorem SyntaxError.node_stemsFrom {o : Origin} {error : SyntaxError} (h : o.error error) :
    error.node.StemsFrom o := by
  cases error <;> exact Expr.every_error.2 ⟨_, h, rfl⟩

theorem Ident.ofToken_stemsFrom {o : Origin} {t : Token} (h : o.Has .identifier t) :
    (Ident.ofToken t).StemsFrom o :=
  ⟨h, rfl⟩

namespace Parser

/-! ### What has been read so far -/

section States

variable (o : Origin)

/-- What a pending construct keeps stems from the origin. -/
def Pending.StemsFrom : Pending → Prop
  | .unary op => o.token op ∧ op.kind ∈ unaryOperators
  | .binary l op => l.StemsFrom o ∧ o.token op ∧ op.kind ∈ binaryOperators
  | .group => True
  | .condition t => o.Has .kwIf t
  | .argument t f es => o.Has .parenLeft t ∧ f.StemsFrom o ∧ ∀ e ∈ es, e.StemsFrom o

/-- What the owner of a block keeps stems from the origin. -/
def Owner.StemsFrom : Owner → Prop
  | .consequence t c => o.Has .kwIf t ∧ c.StemsFrom o
  | .alternative t c yes => o.Has .kwIf t ∧ c.StemsFrom o ∧ yes.StemsFrom o
  | .body t xs => o.Has .kwFn t ∧ ∀ x ∈ xs, x.StemsFrom o

/-- What a goal keeps stems from the origin. -/
def Goal.StemsFrom : Goal → Prop
  | .operand => True
  | .operator e => e.StemsFrom o
  | .closer e => e.StemsFrom o
  | .conditionParen t => o.Has .kwIf t
  | .brace owner => owner.StemsFrom o
  | .otherwise t c yes => o.Has .kwIf t ∧ c.StemsFrom o ∧ yes.StemsFrom o
  | .parametersParen t => o.Has .kwFn t
  | .firstParameter t => o.Has .kwFn t
  | .parameter t xs => o.Has .kwFn t ∧ ∀ x ∈ xs, x.StemsFrom o
  | .parametersEnd t xs => o.Has .kwFn t ∧ ∀ x ∈ xs, x.StemsFrom o
  | .arguments t f => o.Has .parenLeft t ∧ f.StemsFrom o

/-- What the beginning of a statement keeps stems from the origin. -/
def Head.StemsFrom : Head → Prop
  | .bind t x => o.Has .kwLet t ∧ x.StemsFrom o
  | .returns t => o.Has .kwReturn t
  | .expr t => o.token t

/-- What an open block and the statement around it keep stems from the origin. -/
structure OpenBlock.StemsFrom (b : OpenBlock) : Prop where
  owner : b.owner.StemsFrom o
  brace : o.Has .braceLeft b.brace
  before : ∀ s ∈ b.before, s.StemsFrom o
  head : b.head.StemsFrom o
  pending : ∀ p ∈ b.pending, p.StemsFrom o

/-- What the present statement keeps stems from the origin. -/
def Phase.StemsFrom : Phase → Prop
  | .ready => True
  | .bindName t => o.Has .kwLet t
  | .bindAssign t x => o.Has .kwLet t ∧ x.StemsFrom o
  | .inside head ps goal => head.StemsFrom o ∧ (∀ p ∈ ps, p.StemsFrom o) ∧ goal.StemsFrom o

/-- All that has been read stems from the origin. -/
structure State.StemsFrom (s : State) : Prop where
  outer : ∀ b ∈ s.outer, b.StemsFrom o
  before : ∀ r ∈ s.before, r.StemsFrom o
  phase : s.phase.StemsFrom o

/-- What becomes of an expression stems from the origin. -/
def Move.StemsFrom (t : Token) : Move → Prop
  | .stay ps goal => (∀ p ∈ ps, p.StemsFrom o) ∧ goal.StemsFrom o
  | .openBlock owner ps => t.kind = .braceLeft ∧ owner.StemsFrom o ∧ ∀ p ∈ ps, p.StemsFrom o
  | .finished e => e.StemsFrom o

/-- **What is built stems from the origin, if the errors do.** -/
def Origin.Yields {α : Type} (P : α → Prop) (r : List SyntaxError × α) : Prop :=
  (∀ error ∈ r.1, o.error error) → P r.2

end States

variable {o : Origin}

namespace Origin.Yields

variable {α : Type} {P : α → Prop} {r : List SyntaxError × α}

theorem of_nil {a : α} (h : P a) : o.Yields P ([], a) :=
  fun _ => h

/-- One error more. -/
theorem cons {error : SyntaxError} (h : o.error error → o.Yields P r) :
    o.Yields P (error :: r.1, r.2) := by
  intro herrors
  obtain ⟨herror, hrest⟩ := List.forall_mem_cons.1 herrors
  exact h herror hrest

/-- Several errors more, from what was built before. -/
theorem append {β : Type} {Q : β → Prop} {q : List SyntaxError × β} (hq : o.Yields Q q)
    (h : Q q.2 → o.Yields P r) : o.Yields P (q.1 ++ r.1, r.2) := by
  intro herrors
  obtain ⟨hfirst, hrest⟩ := List.forall_mem_append.1 herrors
  exact h (hq hfirst) hrest

end Origin.Yields

/-! ### Inside an expression -/

/-- A complete operation stems from the origin. -/
theorem Pending.operation?_stemsFrom {p : Pending} (hp : p.StemsFrom o) {e e' : Expr}
    (he : e.StemsFrom o) (h : p.operation? e = some e') : e'.StemsFrom o := by
  cases p with
  | unary op =>
      obtain rfl := Option.some.inj h
      exact Expr.every_unary.2 ⟨hp, he⟩
  | binary l op =>
      obtain rfl := Option.some.inj h
      exact Expr.every_binary.2 ⟨hp.2, hp.1, he⟩
  | group | condition | argument => cases h

variable {t : Token} (ht : o.token t) {ps : List Pending} (hps : ∀ p ∈ ps, p.StemsFrom o)

/-- A bracketed construct that is complete stems from the origin. -/
theorem Pending.accept?_stemsFrom {p : Pending} (hps : ∀ p ∈ ps, p.StemsFrom o)
    (hp : p.StemsFrom o) {e : Expr} (he : e.StemsFrom o) {move : Move}
    (h : p.accept? t ps e = some move) : move.StemsFrom o t := by
  cases p with
  | unary | binary => cases h
  | group =>
      obtain ⟨-, rfl⟩ : t.kind = .parenRight ∧ _ = move := by simpa [Pending.accept?] using h
      exact ⟨hps, he⟩
  | condition tok =>
      obtain ⟨-, rfl⟩ : t.kind = .parenRight ∧ _ = move := by simpa [Pending.accept?] using h
      exact ⟨hps, hp, he⟩
  | argument tok f es =>
      obtain ⟨htok, hf, hes⟩ := hp
      have hargs : ∀ x ∈ es ++ [e], x.StemsFrom o := by
        rw [List.forall_mem_append]
        exact ⟨hes, by simpa using he⟩
      simp only [Pending.accept?] at h
      split at h
      · obtain rfl := Option.some.inj h
        refine ⟨?_, trivial⟩
        rw [List.forall_mem_cons]
        exact ⟨⟨htok, hf, hargs⟩, hps⟩
      · split at h
        · obtain rfl := Option.some.inj h
          exact ⟨hps, Expr.every_call.2 ⟨htok, hf, hargs⟩⟩
        · cases h

include ht

omit ht in
/-- An integer literal, or the error that it is too large. -/
theorem integer_yields (ht : o.Has .integer t) : o.Yields (Expr.StemsFrom o) (integer t) := by
  unfold integer
  split
  case h_1 n hn => exact .of_nil (Expr.every_integer.2 ⟨ht, hn⟩)
  case h_2 => exact .cons (r := ([], _)) fun herror => .of_nil (SyntaxError.node_stemsFrom herror)

/-- The first token of an operand. -/
theorem begin_yields (hps : ∀ p ∈ ps, p.StemsFrom o) :
    o.Yields (fun r => (∀ p ∈ r.1, p.StemsFrom o) ∧ r.2.StemsFrom o) (begin t ps) := by
  unfold begin
  split
  case h_1 hk =>
      exact .of_nil ⟨hps, Expr.every_ident.2 (Ident.ofToken_stemsFrom ⟨ht, hk⟩)⟩
  case h_2 hk => exact fun herrors => ⟨hps, integer_yields ⟨ht, hk⟩ herrors⟩
  case h_3 hk | h_4 hk => exact .of_nil ⟨hps, Expr.every_boolean.2 ⟨ht, hk⟩⟩
  case h_5 hk | h_6 hk =>
      have hop : t.kind ∈ unaryOperators := by simp [hk, unaryOperators]
      exact .of_nil ⟨List.forall_mem_cons.2 ⟨⟨ht, hop⟩, hps⟩, trivial⟩
  case h_7 => exact .of_nil ⟨List.forall_mem_cons.2 ⟨trivial, hps⟩, trivial⟩
  case h_8 hk | h_9 hk => exact .of_nil ⟨hps, ht, hk⟩
  case h_10 =>
      exact .cons (r := ([], _)) fun herror => .of_nil ⟨hps, SyntaxError.node_stemsFrom herror⟩

include hps

/-- An operator takes what stems from the origin. -/
theorem shift_stemsFrom (hprec : 0 < t.kind.precedence) {e : Expr} (he : e.StemsFrom o) :
    (shift t ps e).StemsFrom o t := by
  unfold shift
  split
  case isTrue hparen => exact ⟨hps, ⟨ht, hparen⟩, he⟩
  case isFalse hparen =>
    refine ⟨?_, trivial⟩
    rw [List.forall_mem_cons]
    exact ⟨⟨he, ht, (mem_binaryOperators_iff _).2 ⟨hprec, hparen⟩⟩, hps⟩

/-- **Whatever a token does to the expression before it.** -/
theorem close_yields {e : Expr} (he : e.StemsFrom o) (free : Bool) :
    o.Yields (Move.StemsFrom o t) (close t free ps e) := by
  induction ps generalizing e free with
  | nil =>
      simp only [close]
      split
      case isTrue hfree => exact .of_nil (shift_stemsFrom ht hps (by omega) he)
      case isFalse => exact .of_nil he
  | cons p ps ih =>
      obtain ⟨hp, hps'⟩ := List.forall_mem_cons.1 hps
      simp only [close]
      split
      case isTrue hfree => exact .of_nil (shift_stemsFrom ht hps (by omega) he)
      case isFalse =>
        split
        -- an operation is complete, and the token comes after it
        case h_1 e' hoperation => exact ih hps' (Pending.operation?_stemsFrom hp he hoperation) true
        case h_2 =>
            split
            case h_1 move haccept => exact .of_nil (Pending.accept?_stemsFrom hps' hp he haccept)
            -- the bracket is given up, and a broken node stands for it
            case h_2 => exact .cons fun herror => ih hps' (SyntaxError.node_stemsFrom herror) true

theorem giveUp_yields (error : SyntaxError) :
    o.Yields (Move.StemsFrom o t) (giveUp error t ps) :=
  .cons fun herror => close_yields ht hps (SyntaxError.node_stemsFrom herror) true

theorem expect_yields {k : TokenKind} {move : Move} (h : t.kind = k → move.StemsFrom o t) :
    o.Yields (Move.StemsFrom o t) (expect k t ps move) := by
  unfold expect
  split
  case isTrue hk => exact .of_nil (h hk)
  case isFalse => exact giveUp_yields ht hps _

theorem operand_yields : o.Yields (Move.StemsFrom o t) (operand t ps) := by
  unfold operand
  split
  · exact giveUp_yields ht hps _
  · exact begin_yields ht hps

/-- What a token does inside an expression. -/
theorem advance_yields {goal : Goal} (hgoal : goal.StemsFrom o) :
    o.Yields (Move.StemsFrom o t) (advance t ps goal) := by
  cases goal with
  | operand => exact operand_yields ht hps
  | operator e => exact close_yields ht hps hgoal true
  | closer e => exact close_yields ht hps hgoal false
  | conditionParen tok =>
      exact expect_yields ht hps fun _ => ⟨List.forall_mem_cons.2 ⟨hgoal, hps⟩, trivial⟩
  | brace owner => exact expect_yields ht hps fun hk => ⟨hk, hgoal, hps⟩
  | otherwise tok c yes =>
      simp only [advance]
      split
      · exact .of_nil ⟨hps, hgoal⟩
      · exact close_yields ht hps (Expr.every_ifThen.2 hgoal) true
  | parametersParen tok => exact expect_yields ht hps fun _ => ⟨hps, hgoal⟩
  | firstParameter tok =>
      simp only [advance]
      split
      · exact .of_nil ⟨hps, hgoal, by simp⟩
      · refine expect_yields ht hps fun hk => ⟨hps, hgoal, ?_⟩
        simpa using Ident.ofToken_stemsFrom ⟨ht, hk⟩
  | parameter tok xs =>
      refine expect_yields ht hps fun hk => ⟨hps, hgoal.1, ?_⟩
      rw [List.forall_mem_append]
      exact ⟨hgoal.2, by simpa using Ident.ofToken_stemsFrom ⟨ht, hk⟩⟩
  | parametersEnd tok xs =>
      simp only [advance]
      split
      · exact .of_nil ⟨hps, hgoal⟩
      · exact expect_yields ht hps fun _ => ⟨hps, hgoal⟩
  | arguments tok f =>
      simp only [advance]
      split
      · exact .of_nil ⟨hps, Expr.every_call.2 ⟨hgoal.1, hgoal.2, by simp⟩⟩
      · refine operand_yields ht (List.forall_mem_cons.2 ⟨⟨hgoal.1, hgoal.2, by simp⟩, hps⟩)

omit hps

/-! ### Between statements -/

variable {outer : List OpenBlock} {before : List Stmt} (houter : ∀ b ∈ outer, b.StemsFrom o)
  (hbefore : ∀ r ∈ before, r.StemsFrom o)

omit ht in
theorem Owner.after_stemsFrom {owner : Owner} (howner : owner.StemsFrom o) {b : Block}
    (hb : b.StemsFrom o) : (owner.after b).StemsFrom o := by
  cases owner with
  | consequence tok c => exact ⟨howner.1, howner.2, hb⟩
  | alternative tok c yes => exact Expr.every_ifElse.2 ⟨howner.1, howner.2.1, howner.2.2, hb⟩
  | body tok xs => exact Expr.every_function.2 ⟨howner, hb⟩

include houter hbefore

omit ht in
/-- A block that is complete stems from the origin, and so does the statement around it. -/
theorem OpenBlock.resume_stemsFrom {b : OpenBlock} (hb : b.StemsFrom o) :
    (b.resume outer before).StemsFrom o where
  outer := houter
  before := hb.before
  phase := by
    have hblock : Block.StemsFrom o ⟨b.brace, before.reverse⟩ := by
      refine Block.every_mk.2 ⟨hb.brace, ?_⟩
      simpa using hbefore
    exact ⟨hb.head, hb.pending, Owner.after_stemsFrom hb.owner hblock⟩

theorem startExpr_yields : o.Yields (State.StemsFrom o) (startExpr t outer before) := by
  intro herrors
  have hnone : ∀ p ∈ ([] : List Pending), p.StemsFrom o := by simp
  obtain ⟨hps, hgoal⟩ := begin_yields ht hnone herrors
  exact ⟨houter, hbefore, ht, hps, hgoal⟩

theorem start_yields : o.Yields (State.StemsFrom o) (start t outer before) := by
  unfold start
  split
  case h_1 | h_2 => exact .of_nil ⟨houter, hbefore, trivial⟩
  case h_3 hk => exact .of_nil ⟨houter, hbefore, ht, hk⟩
  case h_4 hk => exact .of_nil ⟨houter, hbefore, ⟨ht, hk⟩, by simp, trivial⟩
  case h_5 hk =>
      cases outer with
      | nil => exact startExpr_yields ht houter hbefore
      | cons b outer =>
          obtain ⟨hb, houter⟩ := List.forall_mem_cons.1 houter
          exact .of_nil (OpenBlock.resume_stemsFrom houter hbefore hb)
  case h_6 => exact startExpr_yields ht houter hbefore

theorem abandon_yields (k : TokenKind) :
    o.Yields (State.StemsFrom o) (abandon k t outer before) := by
  refine .cons fun herror => start_yields ht houter ?_
  rw [List.forall_mem_cons]
  exact ⟨Stmt.every_error.2 ⟨k, herror⟩, hbefore⟩

omit ht houter hbefore in
theorem Head.complete_stemsFrom {head : Head} (hhead : head.StemsFrom o) {e : Expr}
    (he : e.StemsFrom o) : (head.complete e).StemsFrom o := by
  cases head with
  | bind tok x => exact Stmt.every_bind.2 ⟨hhead, he⟩
  | returns tok => exact Stmt.every_returns.2 ⟨hhead, he⟩
  | expr tok => exact Stmt.every_expr.2 ⟨hhead, he⟩

theorem carry_yields {head : Head} (hhead : head.StemsFrom o) {r : List SyntaxError × Move}
    (hr : o.Yields (Move.StemsFrom o t) r) :
    o.Yields (State.StemsFrom o) (carry t outer before head r) := by
  obtain ⟨errors, move⟩ := r
  cases move with
  | stay ps goal =>
      intro herrors
      exact ⟨houter, hbefore, hhead, hr herrors⟩
  | openBlock owner ps =>
      intro herrors
      obtain ⟨hk, howner, hps⟩ := hr herrors
      refine ⟨?_, by simp [carry], trivial⟩
      rw [carry, List.forall_mem_cons]
      exact ⟨⟨howner, ⟨ht, hk⟩, hbefore, hhead, hps⟩, houter⟩
  | finished e =>
      -- the token does not belong to the statement, and begins the next
      refine hr.append fun he => start_yields ht houter ?_
      rw [List.forall_mem_cons]
      exact ⟨Head.complete_stemsFrom hhead he, hbefore⟩

omit houter hbefore

/-- **Reading one token.** -/
theorem step_yields {s : State} (hs : s.StemsFrom o) :
    o.Yields (State.StemsFrom o) (step s t) := by
  obtain ⟨outer, before, phase⟩ := s
  obtain ⟨houter, hbefore, hphase⟩ := hs
  cases phase with
  | ready => exact start_yields ht houter hbefore
  | bindName tok =>
      simp only [step]
      split
      case isTrue hk =>
        exact .of_nil ⟨houter, hbefore, hphase, Ident.ofToken_stemsFrom ⟨ht, hk⟩⟩
      case isFalse => exact abandon_yields ht houter hbefore _
  | bindAssign tok x =>
      simp only [step]
      split
      · exact .of_nil ⟨houter, hbefore, hphase, by simp, trivial⟩
      · exact abandon_yields ht houter hbefore _
  | inside head ps goal =>
      obtain ⟨hhead, hps, hgoal⟩ := hphase
      rw [step_inside]
      exact carry_yields ht houter hbefore hhead (advance_yields ht hps hgoal)

omit ht

/-! ### Whole texts -/

/-- **Reading several tokens.** -/
theorem run_yields {ts : List Token} (hts : ∀ t ∈ ts, o.token t) {s : State}
    (hs : s.StemsFrom o) : o.Yields (State.StemsFrom o) (run s ts) := by
  induction ts generalizing s with
  | nil => exact .of_nil hs
  | cons t ts ih =>
      obtain ⟨ht, hts⟩ := List.forall_mem_cons.1 hts
      exact (step_yields ht hs).append fun hstep => ih hts hstep

/-- The blocks that are open at the end of a text. -/
theorem finish_yields {eof : Token} (heof : o.token eof) (houter : ∀ b ∈ outer, b.StemsFrom o)
    (hbefore : ∀ r ∈ before, r.StemsFrom o) :
    o.Yields (fun p : Program => ∀ r ∈ p.statements, r.StemsFrom o) (finish eof outer before) := by
  induction outer generalizing before with
  | nil => exact .of_nil (by simpa using hbefore)
  | cons b outer ih =>
      obtain ⟨hb, houter⟩ := List.forall_mem_cons.1 houter
      -- the block is closed as if its brace had come, and the end token follows once more
      have hresume := OpenBlock.resume_stemsFrom houter hbefore hb
      exact Origin.Yields.cons fun _ =>
        (step_yields heof hresume).append fun hstep => ih houter hstep.before

end Parser

namespace Parsed

/-- The tokens of a text, and the errors that were recorded while it was read. -/
def origin (ts : Tokens) : Origin where
  token t := t ∈ ts.body ++ [ts.eof]
  error e := e ∈ (ofTokens ts).errors

/-- **The nodes of a tree stem from the tokens that were read and the errors that were recorded.** -/
theorem stemsFrom_ofTokens (ts : Tokens) :
    ∀ r ∈ (ofTokens ts).program.statements, r.StemsFrom (origin ts) := by
  have hinitial : State.initial.StemsFrom (origin ts) :=
    ⟨by simp [State.initial], by simp [State.initial], trivial⟩
  have heof : (origin ts).token ts.eof := by simp [origin]
  have hall := (run_yields (o := origin ts) (fun t ht => ht) hinitial).append fun hstate =>
    finish_yields heof hstate.outer hstate.before
  exact hall fun error herror => herror

/-- **Nothing is broken in a tree that was read without errors.** -/
theorem whole_of_errors_eq_nil {ts : Tokens} (h : (ofTokens ts).errors = []) :
    ∀ r ∈ (ofTokens ts).program.statements, r.Every Node.Whole := by
  intro r hr n hn hbroken
  have hstems := stemsFrom_ofTokens ts r hr n hn
  have herror (e : SyntaxError) : ¬ (origin ts).error e := by
    simp [origin, h]
  unfold Node.Broken at hbroken
  split at hbroken
  case h_1 =>
    obtain ⟨e, he, -⟩ := hstems
    exact herror e he
  case h_2 =>
    obtain ⟨k, he⟩ := hstems
    exact herror _ he
  case h_3 => exact hbroken

end Parsed

end LetFn
