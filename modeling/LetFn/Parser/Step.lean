/-
**Reading one token.**

A token either takes the statement under way one step further, or ends it and begins the next one.
Nothing is read twice and nothing is looked up ahead: what a token does depends on the state alone,
and the state after it is computed by recursion on the stack of pending constructs.

Where a token is at fault there are two cases.  A token that was to be an operand and cannot be one
is passed over, and the expression it stands in is broken off there.  A token that was to be a
certain bracket, name or sign ends the construct that wanted it, and is then judged again by the
constructs around it.  In both cases one error is recorded, and a node for it takes the place of the
construct.

Main definitions:

* `LetFn.Parser.begin` — the first token of an operand;
* `LetFn.Parser.close` — what a token does to the expression before it;
* `LetFn.Parser.advance` — what a token does inside an expression;
* `LetFn.Parser.start` — what a token does where a statement may begin;
* `LetFn.Parser.step` — what a token does;
* `LetFn.Parser.carry` — what becomes of a state with the expression in it.

Main results:

* `LetFn.Parser.step_inside` — a step inside an expression, by what becomes of the expression;
* `LetFn.Parser.step_eof` — the end token completes the present statement and opens or closes no
  block.
-/

import LetFn.Integer.Decimal
import LetFn.Parser.State
import LetFn.Syntax.Error

set_option relaxedAutoImplicit false
set_option autoImplicit false

namespace LetFn.Parser

/-- What becomes of the expression under way. -/
inductive Move
  /-- The token belongs to the expression, which goes on. -/
  | stay (pending : List Pending) (goal : Goal)
  /-- The token is the brace that opens a block. -/
  | openBlock (owner : Owner) (pending : List Pending)
  /-- The expression was complete before the token. -/
  | finished (e : Expr)

/-! ### The beginning of an operand -/

/-- An integer literal, or the error that it is too large and the node for that. -/
def integer (t : Token) : List SyntaxError × Expr :=
  match Integer.ofDigits? t.literal.toList with
  | some n => ([], .integer t n)
  | none => ([.tooLarge t], (SyntaxError.tooLarge t).node)

/-- The first token of an operand.  A token that begins none is passed over. -/
def begin (t : Token) (ps : List Pending) : List SyntaxError × List Pending × Goal :=
  match t.kind with
  | .identifier => ([], ps, .operator (.ident (.ofToken t)))
  | .integer => ((integer t).1, ps, .operator (integer t).2)
  | .kwTrue => ([], ps, .operator (.boolean t true))
  | .kwFalse => ([], ps, .operator (.boolean t false))
  | .bang | .minus => ([], .unary t :: ps, .operand)
  | .parenLeft => ([], .group :: ps, .operand)
  | .kwIf => ([], ps, .conditionParen t)
  | .kwFn => ([], ps, .parametersParen t)
  | _ => ([.noOperand t], ps, .closer (SyntaxError.noOperand t).node)

/-! ### The end of an operand -/

/-- An operator may take an expression that `ps` wait for only if it binds stricter than this. -/
def strictness : List Pending → Nat
  | [] => 0
  | p :: _ => p.strictness

/-- An operator takes the expression `e` as its left operand; a parenthesis takes it as a callee. -/
def shift (t : Token) (ps : List Pending) (e : Expr) : Move :=
  if t.kind = .parenLeft then .stay ps (.arguments t e) else .stay (.binary e t :: ps) .operand

/-- The operation that an operand completes. -/
def Pending.operation? (e : Expr) : Pending → Option Expr
  | .unary op => some (.unary op e)
  | .binary l op => some (.binary l op e)
  | _ => none

/-- The bracket or comma that a bracketed construct wants after the expression `e`. -/
def Pending.accept? (t : Token) (ps : List Pending) (e : Expr) : Pending → Option Move
  | .group =>
    if t.kind = .parenRight then some (.stay ps (.operator e)) else none
  | .condition tok =>
    if t.kind = .parenRight then some (.stay ps (.brace (.consequence tok e))) else none
  | .argument tok callee before =>
    if t.kind = .comma then
      some (.stay (.argument tok callee (before ++ [e]) :: ps) .operand)
    else if t.kind = .parenRight then
      some (.stay ps (.operator (.call tok callee (before ++ [e]))))
    else
      none
  | _ => none

/-- What `t` does to the expression `e` before it.

An operator that binds strictly enough takes `e`, if `e` is `free` to be taken.  Otherwise `e` is
the last part of the innermost pending construct: an operation is complete and becomes the
expression before `t`, and a bracketed construct is complete if `t` is the bracket it wants, and
broken if not. -/
def close (t : Token) (free : Bool) : List Pending → Expr → List SyntaxError × Move
  | [], e =>
    if free ∧ strictness [] < t.kind.precedence then ([], shift t [] e) else ([], .finished e)
  | p :: ps, e =>
    if free ∧ strictness (p :: ps) < t.kind.precedence then
      ([], shift t (p :: ps) e)
    else
      match p.operation? e with
      | some e' => close t true ps e'
      | none =>
        match p.accept? t ps e with
        | some move => ([], move)
        | none =>
          let rest := close t true ps (SyntaxError.unexpected .parenRight t).node
          (.unexpected .parenRight t :: rest.1, rest.2)

/-! ### Inside an expression -/

/-- The construct for which `ps` wait is broken off before `t`. -/
def giveUp (error : SyntaxError) (t : Token) (ps : List Pending) : List SyntaxError × Move :=
  let rest := close t true ps error.node
  (error :: rest.1, rest.2)

/-- A token of kind `k` is wanted. -/
def expect (k : TokenKind) (t : Token) (ps : List Pending) (move : Move) :
    List SyntaxError × Move :=
  if t.kind = k then ([], move) else giveUp (.unexpected k t) t ps

/-- An operand is wanted.  The end of the text cannot be passed over. -/
def operand (t : Token) (ps : List Pending) : List SyntaxError × Move :=
  if t.kind = .eof then
    giveUp (.noOperand t) t ps
  else
    let first := begin t ps
    (first.1, .stay first.2.1 first.2.2)

/-- What `t` does where `goal` says what it is to be. -/
def advance (t : Token) (ps : List Pending) (goal : Goal) : List SyntaxError × Move :=
  match goal with
  | .operand => operand t ps
  | .operator e => close t true ps e
  | .closer e => close t false ps e
  | .conditionParen tok => expect .parenLeft t ps (.stay (.condition tok :: ps) .operand)
  | .brace owner => expect .braceLeft t ps (.openBlock owner ps)
  | .otherwise tok c yes =>
    if t.kind = .kwElse then
      ([], .stay ps (.brace (.alternative tok c yes)))
    else
      close t true ps (.ifElse tok c yes none)
  | .parametersParen tok => expect .parenLeft t ps (.stay ps (.firstParameter tok))
  | .firstParameter tok =>
    if t.kind = .parenRight then
      ([], .stay ps (.brace (.body tok [])))
    else
      expect .identifier t ps (.stay ps (.parametersEnd tok [.ofToken t]))
  | .parameter tok xs =>
    expect .identifier t ps (.stay ps (.parametersEnd tok (xs ++ [.ofToken t])))
  | .parametersEnd tok xs =>
    if t.kind = .comma then
      ([], .stay ps (.parameter tok xs))
    else
      expect .parenRight t ps (.stay ps (.brace (.body tok xs)))
  | .arguments tok callee =>
    if t.kind = .parenRight then
      ([], .stay ps (.operator (.call tok callee [])))
    else
      operand t (.argument tok callee [] :: ps)

/-! ### Between statements -/

/-- The block is complete with the statements `before`, the last of them first, and the statement
that contains it goes on. -/
def OpenBlock.resume (b : OpenBlock) (outer : List OpenBlock) (before : List Stmt) : State :=
  ⟨outer, b.before, .inside b.head b.pending (b.owner.after ⟨b.brace, before.reverse⟩)⟩

/-- A statement that is an expression begins with `t`. -/
def startExpr (t : Token) (outer : List OpenBlock) (before : List Stmt) :
    List SyntaxError × State :=
  let first := begin t []
  (first.1, ⟨outer, before, .inside (.expr t) first.2.1 first.2.2⟩)

/-- What `t` does where a statement may begin.  Semicolons are passed over, and a brace ends the
block it stands in. -/
def start (t : Token) (outer : List OpenBlock) (before : List Stmt) : List SyntaxError × State :=
  match t.kind with
  | .semicolon | .eof => ([], ⟨outer, before, .ready⟩)
  | .kwLet => ([], ⟨outer, before, .bindName t⟩)
  | .kwReturn => ([], ⟨outer, before, .inside (.returns t) [] .operand⟩)
  | .braceRight =>
    match outer with
    | b :: bs => ([], b.resume bs before)
    | [] => startExpr t [] before
  | _ => startExpr t outer before

/-- A binding lacks a token of kind `k` before `t`, which begins the next statement. -/
def abandon (k : TokenKind) (t : Token) (outer : List OpenBlock) (before : List Stmt) :
    List SyntaxError × State :=
  let rest := start t outer (.error t :: before)
  (.unexpected k t :: rest.1, rest.2)

/-- What `t` does: the errors it brings to light, and the state after it. -/
def step (s : State) (t : Token) : List SyntaxError × State :=
  match s.phase with
  | .ready => start t s.outer s.before
  | .bindName tok =>
    if t.kind = .identifier then
      ([], { s with phase := .bindAssign tok (.ofToken t) })
    else
      abandon .identifier t s.outer s.before
  | .bindAssign tok x =>
    if t.kind = .assign then
      ([], { s with phase := .inside (.bind tok x) [] .operand })
    else
      abandon .assign t s.outer s.before
  | .inside head ps goal =>
    match advance t ps goal with
    | (errors, .stay ps' goal') => (errors, { s with phase := .inside head ps' goal' })
    | (errors, .openBlock owner ps') =>
      (errors, ⟨⟨owner, t, s.before, head, ps'⟩ :: s.outer, [], .ready⟩)
    | (errors, .finished e) =>
      let rest := start t s.outer (head.complete e :: s.before)
      (errors ++ rest.1, rest.2)

/-- What has become of a state after what became of the expression in it. -/
def carry (t : Token) (outer : List OpenBlock) (before : List Stmt) (head : Head) :
    List SyntaxError × Move → List SyntaxError × State
  | (errors, .stay ps goal) => (errors, ⟨outer, before, .inside head ps goal⟩)
  | (errors, .openBlock owner ps) =>
    (errors, ⟨⟨owner, t, before, head, ps⟩ :: outer, [], .ready⟩)
  | (errors, .finished e) =>
    (errors ++ (start t outer (head.complete e :: before)).1,
      (start t outer (head.complete e :: before)).2)

/-- A step inside an expression, by what becomes of the expression. -/
theorem step_inside (t : Token) (outer : List OpenBlock) (before : List Stmt) (head : Head)
    (ps : List Pending) (goal : Goal) :
    step ⟨outer, before, .inside head ps goal⟩ t =
      carry t outer before head (advance t ps goal) := by
  simp only [step]
  rcases advance t ps goal with ⟨errors, _ | _ | _⟩ <;> rfl

/-! ### The end token -/

/-- The end token completes every expression. -/
theorem close_eof {t : Token} (h : t.kind = .eof) (free : Bool) (ps : List Pending) (e : Expr) :
    ∃ e', (close t free ps e).2 = .finished e' := by
  induction ps generalizing free e with
  | nil => exact ⟨e, by simp [close, h, TokenKind.precedence]⟩
  | cons p ps ih =>
    cases p with
    | unary op => simpa [close, h, TokenKind.precedence, Pending.operation?] using ih true _
    | binary l op => simpa [close, h, TokenKind.precedence, Pending.operation?] using ih true _
    | group =>
      simpa [close, h, TokenKind.precedence, Pending.operation?, Pending.accept?] using ih true _
    | condition tok =>
      simpa [close, h, TokenKind.precedence, Pending.operation?, Pending.accept?] using ih true _
    | argument tok callee before =>
      simpa [close, h, TokenKind.precedence, Pending.operation?, Pending.accept?] using ih true _

/-- The end token completes the expression under way. -/
theorem advance_eof {t : Token} (h : t.kind = .eof) (ps : List Pending) (goal : Goal) :
    ∃ e, (advance t ps goal).2 = .finished e := by
  cases goal <;>
    simp only [advance, expect, operand, giveUp, h, reduceCtorEq, if_true, if_false] <;>
    exact close_eof h _ _ _

/-- After the end token a statement may begin, in the block in which the end token was read. -/
theorem step_eof {t : Token} (h : t.kind = .eof) (s : State) :
    (step s t).2.outer = s.outer ∧ (step s t).2.phase = .ready := by
  obtain ⟨outer, before, phase⟩ := s
  cases phase with
  | ready => simp [step, start, h]
  | bindName tok => simp [step, start, abandon, h]
  | bindAssign tok x => simp [step, start, abandon, h]
  | inside head ps goal =>
    obtain ⟨e, he⟩ := advance_eof h ps goal
    rcases hm : advance t ps goal with ⟨errors, move⟩
    obtain rfl : move = .finished e := by simpa [hm] using he
    simp [step, hm, start, h]

end LetFn.Parser
