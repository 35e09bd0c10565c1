/-
**What a parser has read so far.**

A program is read token by token.  Between two tokens the parser knows which blocks are open, which
statements stand before the present one, and how far the present one has come.  An expression under
way is a stack of *pending* constructs, innermost first, each of them waiting for the expression
that is being read, and a *goal*: what the next token is to be.  A block is part of an expression,
so an open block keeps the statement that contains it.

Operators have a precedence.  What is pending decides whether an operator may take the expression
read last as its left operand: after a binary operator only a stricter one may, after a unary
operator only a call, and between brackets any.

Main definitions:

* `LetFn.TokenKind.precedence` — how strictly an operator binds;
* `LetFn.Parser.Pending`, `LetFn.Parser.Goal` — the inside of an expression;
* `LetFn.Parser.Head`, `LetFn.Parser.Owner`, `LetFn.Parser.OpenBlock` — statements and blocks that
  are not complete;
* `LetFn.Parser.State` — all of it.
-/

import LetFn.Syntax.Basic

set_option relaxedAutoImplicit false
set_option autoImplicit false

namespace LetFn

/-! ### Precedence -/

/-- How strictly an operator binds; zero for a token that is no operator.  A parenthesis after an
expression is the operator of a call and binds strictest. -/
def TokenKind.precedence : TokenKind → Nat
  | .equal | .notEqual => 1
  | .less | .greater | .lessEqual | .greaterEqual => 2
  | .plus | .minus => 3
  | .star | .slash | .percent => 4
  | .parenLeft => 6
  | _ => 0

/-- How strictly a unary operator binds: stricter than a binary operator, less than a call. -/
def unaryPrecedence : Nat := 5

namespace Parser

/-! ### Inside an expression -/

/-- A construct that waits for the expression being read. -/
inductive Pending
  | unary (operator : Token)
  | binary (left : Expr) (operator : Token)
  /-- Parentheses around an expression. -/
  | group
  /-- The condition of the conditional that begins with `token`. -/
  | condition (token : Token)
  /-- An argument of a call, after the arguments `before`. -/
  | argument (token : Token) (callee : Expr) (before : List Expr)

/-- An operator may take the expression read last only if it binds stricter than this. -/
def Pending.strictness : Pending → Nat
  | .unary _ => unaryPrecedence
  | .binary _ op => op.kind.precedence
  | .group => 0
  | .condition _ => 0
  | .argument _ _ _ => 0

/-- The construct that a block belongs to. -/
inductive Owner
  | consequence (token : Token) (condition : Expr)
  | alternative (token : Token) (condition : Expr) (consequence : Block)
  | body (token : Token) (parameters : List Ident)

/-- What the next token is to be. -/
inductive Goal
  /-- An expression is to begin. -/
  | operand
  /-- An expression has been read, and an operator may take it as its left operand. -/
  | operator (left : Expr)
  /-- An expression has been read that no operator may take: it was broken off. -/
  | closer (left : Expr)
  /-- The parenthesis before a condition. -/
  | conditionParen (token : Token)
  /-- The brace before a block. -/
  | brace (owner : Owner)
  /-- An alternative may follow the consequence. -/
  | otherwise (token : Token) (condition : Expr) (consequence : Block)
  /-- The parenthesis before parameters. -/
  | parametersParen (token : Token)
  /-- A parameter, or the end of an empty list of them. -/
  | firstParameter (token : Token)
  /-- A parameter, after a comma. -/
  | parameter (token : Token) (before : List Ident)
  /-- A comma or the end, after a parameter. -/
  | parametersEnd (token : Token) (parameters : List Ident)
  /-- An argument, or the end of an empty list of them. -/
  | arguments (token : Token) (callee : Expr)

/-- What comes after a complete block. -/
def Owner.after : Owner → Block → Goal
  | .consequence t c, b => .otherwise t c b
  | .alternative t c yes, b => .operator (.ifElse t c yes (some b))
  | .body t ps, b => .operator (.function t ps b)

/-! ### Statements and blocks -/

/-- What a statement is going to be when its expression is complete. -/
inductive Head
  | bind (token : Token) (name : Ident)
  | returns (token : Token)
  | expr (token : Token)

/-- The statement that an expression completes. -/
def Head.complete : Head → Expr → Stmt
  | .bind t x, e => .bind t x e
  | .returns t, e => .returns t e
  | .expr t, e => .expr t e

/-- A block that is not complete, and where it stands: `head` and `pending` belong to the statement
that contains it, and `before` are the statements before that one, the last of them first. -/
structure OpenBlock where
  owner : Owner
  brace : Token
  before : List Stmt
  head : Head
  pending : List Pending

/-- How far the present statement has come. -/
inductive Phase
  /-- A statement may begin. -/
  | ready
  /-- A name is to follow. -/
  | bindName (token : Token)
  /-- An equals sign is to follow. -/
  | bindAssign (token : Token) (name : Ident)
  | inside (head : Head) (pending : List Pending) (goal : Goal)

/-- What has been read: the open blocks, innermost first, the complete statements of the innermost
one (or of the program), the last of them first, and the present statement. -/
structure State where
  outer : List OpenBlock
  before : List Stmt
  phase : Phase

/-- Nothing has been read. -/
def State.initial : State :=
  ⟨[], [], .ready⟩

end Parser

end LetFn
