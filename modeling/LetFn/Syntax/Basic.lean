/-
**The syntax of the language.**

A program is a list of statements; a statement binds a name, returns, or is an expression; an
expression is made of names, literals, operators, conditionals, functions and calls.  Every node
keeps the token it was written with, so that messages can say where it stands.  A construct that
could not be read is a node as well: reading never gives up, and what went wrong stays in its place.

Operators are kept as tokens: the kind says what an operator does, the literal how it is shown.

Main definitions:

* `LetFn.Ident` — an occurrence of a name;
* `LetFn.Expr`, `LetFn.Stmt`, `LetFn.Block` — the three sorts of node;
* `LetFn.Function` — a function literal by itself;
* `LetFn.Program` — a list of statements;
* `LetFn.Node` — a program or a part of one;
* `LetFn.Expr.token`, `LetFn.Stmt.token` — the token a node belongs to.
-/

import LetFn.Token.Basic

set_option relaxedAutoImplicit false
set_option autoImplicit false

namespace LetFn

/-- An occurrence of a name. -/
structure Ident where
  token : Token
  name : String
deriving DecidableEq

/-- The name that a token spells. -/
def Ident.ofToken (t : Token) : Ident :=
  ⟨t, t.literal⟩

mutual

/-- An expression. -/
inductive Expr
  | ident (id : Ident)
  | integer (token : Token) (value : Int64)
  | boolean (token : Token) (value : Bool)
  | unary (operator : Token) (operand : Expr)
  | binary (left : Expr) (operator : Token) (right : Expr)
  | ifElse (token : Token) (condition : Expr) (consequence : Block) (alternative : Option Block)
  | function (token : Token) (parameters : List Ident) (body : Block)
  /-- A call; its token is the parenthesis before the arguments. -/
  | call (token : Token) (callee : Expr) (arguments : List Expr)
  /-- What stands where no expression could be read: at `token`, where something was expected or,
  more particularly, for the reason that the message gives. -/
  | error (token : Token) (expected : Option TokenKind) (message : Option String)

/-- A statement. -/
inductive Stmt
  | bind (token : Token) (name : Ident) (value : Expr)
  | returns (token : Token) (value : Expr)
  | expr (token : Token) (value : Expr)
  | block (block : Block)
  /-- What stands where no statement could be read. -/
  | error (token : Token)

/-- A list of statements between braces, with the token of the first brace. -/
structure Block where
  brace : Token
  statements : List Stmt

end

/-- A function literal: its keyword, its parameters and its body. -/
structure Function where
  token : Token
  parameters : List Ident
  body : Block

/-- A program. -/
structure Program where
  statements : List Stmt

/-- What can be evaluated: a program or a part of one. -/
inductive Node
  | program (p : Program)
  | stmt (s : Stmt)
  | block (b : Block)
  | expr (e : Expr)

/-! ### The token of a node -/

/-- The token an expression belongs to: of an operation the operator, of a call the parenthesis. -/
def Expr.token : Expr → Token
  | .ident id => id.token
  | .integer t _ => t
  | .boolean t _ => t
  | .unary op _ => op
  | .binary _ op _ => op
  | .ifElse t _ _ _ => t
  | .function t _ _ => t
  | .call t _ _ => t
  | .error t _ _ => t

/-- The token a statement begins with. -/
def Stmt.token : Stmt → Token
  | .bind t _ _ => t
  | .returns t _ => t
  | .expr t _ => t
  | .block b => b.brace
  | .error t => t

/-- The expression that a statement evaluates, if it is not a block or broken. -/
def Stmt.expr? : Stmt → Option Expr
  | .bind _ _ e => some e
  | .returns _ e => some e
  | .expr _ e => some e
  | .block _ => none
  | .error _ => none

/-- The literal of the token a program begins with; it is empty for the empty program. -/
def Program.literal (p : Program) : String :=
  match p.statements with
  | [] => ""
  | s :: _ => s.token.literal

/-- For each statement the literal of its token and of its expression's token. -/
def Program.heads (p : Program) : List (String × Option String) :=
  p.statements.map fun s => (s.token.literal, s.expr?.map fun e => e.token.literal)

end LetFn
