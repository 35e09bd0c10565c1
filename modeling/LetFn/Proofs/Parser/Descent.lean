/-
**A parser by recursive descent.**

A program can be read by functions that call each other, one for each construct: each looks at the
present token and at the one after it, and none ever goes back.  How tightly operators bind is a
parameter of the function that reads an expression: it reads an operand and then, as long as the
next token is an operator that binds tighter, an operation with what has been read as its left
operand.

Nothing in such a parser shows that it comes to an end.  Functions call each other without having
read anything, loops go round as often as they find something to do, and at the end of the text the
end token is given out again and again.  So it is written down here with a bound on how deep its
calls may nest and on how often a loop may go round, and without a result if that does not suffice;
and it keeps a record of where it has been.

Main definitions:

* `LetFn.Cursor` — the tokens that are left, the errors recorded, and where functions have been
  entered and loops gone round;
* `LetFn.Descent` — computations that move a cursor, or need a higher bound;
* `LetFn.Descent.iterate` — a loop;
* `LetFn.Descent.expression`, `LetFn.Descent.statement`, `LetFn.Descent.block`,
  `LetFn.Descent.program` — the parser;
* `LetFn.Descent.Ends` — a computation comes to an end, and something holds then.
-/

import LetFn.Parser.Program

set_option relaxedAutoImplicit false
set_option autoImplicit false

namespace LetFn

/-! ### A cursor -/

/-- A function of the parser, by what it reads. -/
inductive Routine
  | statement
  | block
  | expression
deriving DecidableEq

/-- A loop of the parser. -/
inductive Loop
  | program
  | block
  | operators
  | parameters
  | arguments
deriving DecidableEq

/-- One turn of a loop, and how many tokens were left before and after it. -/
structure Turn where
  loop : Loop
  before : Nat
  after : Nat
deriving DecidableEq

/-- The tokens that are left, the present one first: when there are none, the end token is the
present one, and remains so.  Errors are in the order in which they were recorded.  Each time that a
function was entered, the last time first, `entered` says how many tokens were left. -/
structure Cursor where
  rest : List Token
  eof : Token
  errors : List SyntaxError
  entered : Routine → List Nat
  turns : List Turn
  kind_eof : eof.kind = .eof
  kind_rest : ∀ t ∈ rest, t.kind ≠ .eof

namespace Cursor

/-- The present token. -/
def current (c : Cursor) : Token :=
  c.rest.headD c.eof

/-- The token after the present one. -/
def peek (c : Cursor) : Token :=
  c.rest.tail.headD c.eof

/-- How many tokens are left. -/
def left (c : Cursor) : Nat :=
  c.rest.length

/-- Goes on to the next token. -/
def consume (c : Cursor) : Cursor :=
  { c with rest := c.rest.tail, kind_rest := fun t ht => c.kind_rest t (List.mem_of_mem_tail ht) }

/-- Records an error. -/
def report (c : Cursor) (e : SyntaxError) : Cursor :=
  { c with errors := c.errors ++ [e] }

/-- Notes that a function is entered. -/
def enter (c : Cursor) (r : Routine) : Cursor :=
  { c with entered := fun r' => if r' = r then c.left :: c.entered r' else c.entered r' }

/-- Notes a turn of a loop, before which there were `before` tokens left. -/
def turned (c : Cursor) (loop : Loop) (before : Nat) : Cursor :=
  { c with turns := ⟨loop, before, c.left⟩ :: c.turns }

/-- The cursor at the first token. -/
def ofTokens (ts : Tokens) (heof : ts.eof.kind = .eof) (hbody : ∀ t ∈ ts.body, t.kind ≠ .eof) :
    Cursor :=
  ⟨ts.body, ts.eof, [], fun _ => [], [], heof, hbody⟩

/-- The cursor at the first token of a text. -/
def ofString (source : String) : Cursor :=
  ofTokens (.ofString source) (Lexer.kind_tokens_eof _) fun _ => Lexer.kind_ne_eof_of_mem_tokens

end Cursor

/-! ### Computations that move a cursor -/

/-- Computations that move a cursor.  There is no result if calls nest too deep or loops go round
too often. -/
abbrev Descent := StateT Cursor Option

namespace Descent

/-- The present token. -/
def current : Descent Token := do
  return (← get).current

/-- The token after the present one. -/
def peek : Descent Token := do
  return (← get).peek

/-- Goes on to the next token. -/
def consume : Descent Unit :=
  modify Cursor.consume

/-- Records an error. -/
def report (e : SyntaxError) : Descent Unit :=
  modify (·.report e)

/-- Notes that a function is entered. -/
def enter (r : Routine) : Descent Unit :=
  modify (·.enter r)

/-- Goes on to the next token if it is of kind `k`, and records an error if not. -/
def expect (k : TokenKind) : Descent Bool := do
  let t ← peek
  if t.kind = k then
    consume
    return true
  else
    report (.unexpected k t)
    return false

/-- What stands for an expression in which a token of kind `k` is missing. -/
def broken (k : TokenKind) : Descent Expr := do
  return (SyntaxError.unexpected k (← peek)).node

/-- Reads on after a token of kind `k`; if another token is next, the expression is broken off. -/
def expecting (k : TokenKind) (next : Descent Expr) : Descent Expr := do
  if ← expect k then next else broken k

/-- Reads on after a list; if it lacked a token of some kind, the expression is broken off. -/
def withList {α : Type} (next : α → Descent Expr) : Except TokenKind α → Descent Expr
  | .ok items => next items
  | .error k => broken k

/-- Goes round as long as `goes` says so: at most `bound` times is it asked. -/
def iterate {α : Type} (loop : Loop) (goes : Cursor → α → Bool) (body : α → Descent α) :
    (bound : Nat) → α → Descent α
  | 0, _ => fun _ => none
  | bound + 1, a => do
    let c ← get
    if goes c a then
      let a' ← body a
      modify (·.turned loop c.left)
      iterate loop goes body bound a'
    else
      return a

/-! ### Statements and blocks -/

section Nested

/-! How an expression is read is a parameter; so is the bound of the loops. -/

variable (expr : (strictness : Nat) → Descent Expr) (bound : Nat)

/-- A semicolon may end a statement. -/
def endStatement : Descent Unit := do
  if (← peek).kind = .semicolon then consume

/-- A binding, after its keyword. -/
def binding : Descent Stmt := do
  let token ← current
  if ← expect .identifier then
    let name := Ident.ofToken (← current)
    if ← expect .assign then
      consume
      let value ← expr 0
      endStatement
      return .bind token name value
    else
      return .error (← peek)
  else
    return .error (← peek)

/-- A statement that returns, after its keyword. -/
def returning : Descent Stmt := do
  let token ← current
  consume
  let value ← expr 0
  endStatement
  return .returns token value

/-- A statement that is an expression. -/
def expressionStatement : Descent Stmt := do
  let token ← current
  let value ← expr 0
  endStatement
  return .expr token value

/-- A statement that begins with a token of a certain kind; a semicolon is none. -/
def statementOf : TokenKind → Descent (Option Stmt)
  | .kwLet => do return some (← binding expr)
  | .kwReturn => do return some (← returning expr)
  | .semicolon => return none
  | _ => do return some (← expressionStatement expr)

/-- A statement. -/
def statement : Descent (Option Stmt) := do
  enter .statement
  statementOf expr (← current).kind

/-- A statement after others. -/
def statementAfter (before : List Stmt) : Descent (List Stmt) := do
  let st ← statement expr
  consume
  return before ++ st.toList

/-- A block, at its brace.  The present token at its end is its closing brace, or the end token if
the text ends inside the block. -/
def blockAt (brace : Token) : Descent Block := do
  consume
  let statements ← iterate .block
    (fun c _ => decide (c.current.kind ≠ .braceRight ∧ c.current.kind ≠ .eof))
    (statementAfter expr) bound []
  let t ← current
  if t.kind = .eof then report (.unexpected .braceRight t)
  return ⟨brace, statements⟩

/-- A block. -/
def block : Descent Block := do
  enter .block
  blockAt expr bound (← current)

/-! ### Operands -/

/-- What an operand may begin with. -/
inductive Beginning
  | identifier
  | integer
  | boolean
  | unary
  | group
  | conditional
  | function

/-- The table of tokens that begin an operand. -/
def beginning? : TokenKind → Option Beginning
  | .identifier => some .identifier
  | .integer => some .integer
  | .kwTrue | .kwFalse => some .boolean
  | .bang | .minus => some .unary
  | .parenLeft => some .group
  | .kwIf => some .conditional
  | .kwFn => some .function
  | _ => none

/-- An integer literal. -/
def integer : Descent Expr := do
  let token ← current
  match Integer.ofDigits? token.literal.toList with
  | some n => return .integer token n
  | none =>
    report (.tooLarge token)
    return (SyntaxError.tooLarge token).node

/-- A unary operation, at its operator. -/
def unary : Descent Expr := do
  let operator ← current
  consume
  return .unary operator (← expr unaryPrecedence)

/-- An expression in parentheses, at the first of them. -/
def group : Descent Expr := do
  consume
  let e ← expr 0
  expecting .parenRight (return e)

/-- A conditional, at its keyword. -/
def conditional : Descent Expr := do
  let token ← current
  expecting .parenLeft do
    consume
    let condition ← expr 0
    expecting .parenRight do
      expecting .braceLeft do
        let consequence ← block expr bound
        if (← peek).kind = .kwElse then
          consume
          expecting .braceLeft do
            return .ifElse token condition consequence (some (← block expr bound))
        else
          return .ifElse token condition consequence none

/-- The parenthesis that ends a list. -/
def closing {α : Type} (items : α) : Descent (Except TokenKind α) := do
  if ← expect .parenRight then return .ok items else return .error .parenRight

/-- Another parameter after a comma. -/
def parameterAfter (before : Except TokenKind (List Ident)) :
    Descent (Except TokenKind (List Ident)) := do
  consume
  if ← expect .identifier then
    let x := Ident.ofToken (← current)
    return before.map (· ++ [x])
  else
    return .error .identifier

/-- The parameters of a function, after the parenthesis; or the kind of token that was missing. -/
def parameters : Descent (Except TokenKind (List Ident)) := do
  if (← peek).kind = .parenRight then
    consume
    return .ok []
  else if ← expect .identifier then
    let x := Ident.ofToken (← current)
    let read ← iterate .parameters
      (fun c xs => xs.toOption.isSome && decide (c.peek.kind = .comma))
      parameterAfter bound (.ok [x])
    match read with
    | .ok xs => closing xs
    | .error k => return .error k
  else
    return .error .identifier

/-- A function, at its keyword. -/
def function : Descent Expr := do
  let token ← current
  expecting .parenLeft do
    withList (fun xs => expecting .braceLeft do return .function token xs (← block expr bound))
      (← parameters bound)

/-- An operand that begins in a certain way. -/
def operand : Beginning → Descent Expr
  | .identifier => do return .ident (.ofToken (← current))
  | .integer => integer
  | .boolean => do
    let token ← current
    return .boolean token (decide (token.kind = .kwTrue))
  | .unary => unary expr
  | .group => group expr
  | .conditional => conditional expr bound
  | .function => function expr bound

/-! ### Operations -/

/-- What an operator makes of the expression before it. -/
inductive Continuation
  | binary
  | call

/-- The table of tokens that may stand between an expression and what continues it. -/
def continuation? : TokenKind → Option Continuation
  | .plus | .minus | .star | .slash | .percent => some .binary
  | .equal | .notEqual | .less | .greater | .lessEqual | .greaterEqual => some .binary
  | .parenLeft => some .call
  | _ => none

/-- A binary operation, at its operator. -/
def binary (l : Expr) : Descent Expr := do
  let operator ← current
  consume
  return .binary l operator (← expr operator.kind.precedence)

/-- Another argument after a comma. -/
def argumentAfter (before : List Expr) : Descent (List Expr) := do
  consume
  consume
  return before ++ [← expr 0]

/-- The arguments of a call, after the parenthesis; or the kind of token that was missing. -/
def arguments : Descent (Except TokenKind (List Expr)) := do
  if (← peek).kind = .parenRight then
    consume
    return .ok []
  else
    consume
    let first ← expr 0
    let es ← iterate .arguments (fun c _ => decide (c.peek.kind = .comma)) (argumentAfter expr)
      bound [first]
    closing es

/-- A call, at the parenthesis. -/
def call (callee : Expr) : Descent Expr := do
  let token ← current
  withList (fun es => return .call token callee es) (← arguments expr bound)

/-- Whether the next token continues an expression that only tighter operators than `strictness` may
take. -/
def continues (strictness : Nat) (c : Cursor) : Bool :=
  decide (c.peek.kind ≠ .semicolon ∧ strictness < c.peek.kind.precedence) &&
    (continuation? c.peek.kind).isSome

/-- What the next token makes of the expression before it. -/
def continued (l : Expr) : Descent Expr := do
  consume
  match continuation? (← current).kind with
  | some .binary => binary expr l
  | some .call => call expr bound l
  | none => return l

end Nested

/-! ### Expressions and programs -/

/-- An expression, up to the first operator that does not bind tighter than `strictness`; calls nest
at most `bound` deep, and no loop goes round more often. -/
def expression : (bound strictness : Nat) → Descent Expr
  | 0, _ => fun _ => none
  | bound + 1, strictness => do
    enter .expression
    let token ← current
    match beginning? token.kind with
    | none =>
      report (.noOperand token)
      return (SyntaxError.noOperand token).node
    | some b =>
      let l ← operand (expression bound) bound b
      iterate .operators (fun c _ => continues strictness c) (continued (expression bound) bound)
        (bound + 1) l

/-- A program. -/
def program (bound : Nat) : Descent Program := do
  let statements ← iterate .program (fun c _ => decide (c.current.kind ≠ .eof))
    (statementAfter (expression bound)) bound []
  return ⟨statements⟩

/-! ### Coming to an end -/

variable {α β : Type} {c : Cursor}

/-- The computation comes to an end, and `post` holds of its result and of the cursor then. -/
def Ends (x : Descent α) (c : Cursor) (post : α → Cursor → Prop) : Prop :=
  ∃ a c', x c = some (a, c') ∧ post a c'

theorem Ends.of_eq {x : Descent α} {post : α → Cursor → Prop} {a : α} {c' : Cursor}
    (hx : x c = some (a, c')) (h : post a c') : Ends x c post :=
  ⟨a, c', hx, h⟩

theorem Ends.pure {a : α} {post : α → Cursor → Prop} (h : post a c) :
    Ends (Pure.pure a : Descent α) c post :=
  .of_eq rfl h

/-- Of a computation that ends less may be said. -/
theorem Ends.mono {x : Descent α} {post post' : α → Cursor → Prop} (h : Ends x c post)
    (hpost : ∀ a c', post a c' → post' a c') : Ends x c post' := by
  obtain ⟨a, c', hx, ha⟩ := h
  exact ⟨a, c', hx, hpost a c' ha⟩

/-- A computation goes on after one whose result and cursor are known. -/
theorem Ends.bind_eq {x : Descent α} {f : α → Descent β} {post : β → Cursor → Prop} {a : α}
    {c' : Cursor} (hx : x c = some (a, c')) (h : Ends (f a) c' post) : Ends (x >>= f) c post := by
  obtain ⟨b, c'', hb, hpost⟩ := h
  refine ⟨b, c'', ?_, hpost⟩
  change Option.bind (x c) _ = _
  rw [hx]
  exact hb

/-- **Computations one after the other come to an end.** -/
theorem Ends.bind {x : Descent α} {f : α → Descent β} {middle : α → Cursor → Prop}
    {post : β → Cursor → Prop} (hx : Ends x c middle)
    (hf : ∀ a c', middle a c' → Ends (f a) c' post) : Ends (x >>= f) c post := by
  obtain ⟨a, c', hx, ha⟩ := hx
  exact .bind_eq hx (hf a c' ha)

/-- **A loop comes to an end** whose turns go onward: an invariant of its turns holds then, and the
loop does not want to go on. -/
theorem Ends.iterate {loop : Loop} {goes : Cursor → α → Bool} {body : α → Descent α}
    (inv : α → Cursor → Prop)
    (hbody : ∀ a c, inv a c → goes c a = true →
      Ends (body a) c fun a' c' => c'.left < c.left ∧ inv a' (c'.turned loop c.left))
    {bound : Nat} {a : α} (hbound : c.left < bound) (ha : inv a c) :
    Ends (Descent.iterate loop goes body bound a) c fun a' c' =>
      inv a' c' ∧ goes c' a' = false := by
  induction bound generalizing a c with
  | zero => exact absurd hbound (Nat.not_lt_zero _)
  | succ bound ih =>
      refine .bind_eq rfl ?_
      cases hgoes : goes c a with
      | false =>
          rw [if_neg (by simp)]
          exact .pure ⟨ha, hgoes⟩
      | true =>
          rw [if_pos rfl]
          refine (hbody a c ha hgoes).bind fun a' c' ⟨hleft, ha'⟩ => .bind_eq rfl ?_
          exact ih (Nat.lt_of_lt_of_le hleft (Nat.le_of_lt_succ hbound)) ha'

end Descent

end LetFn
