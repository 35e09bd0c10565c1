/-
**Syntax errors.**

There are three causes: a token stands where another was expected, a token stands where an
expression was to begin, or a literal denotes no integer of 64 bits.  Each names the token at fault,
and its message begins with the place of that token.

Main definitions:

* `LetFn.SyntaxError` — the causes, `LetFn.SyntaxError.token` the token at fault;
* `LetFn.SyntaxError.message` — the wording;
* `LetFn.SyntaxError.node` — the node that stands for the expression that could not be read.
-/

import LetFn.Syntax.Basic

set_option relaxedAutoImplicit false
set_option autoImplicit false

namespace LetFn

/-- Why a part of a text could not be read. -/
inductive SyntaxError
  /-- A token of another kind was expected. -/
  | unexpected (expected : TokenKind) (got : Token)
  /-- An expression was to begin here, and none begins with this token. -/
  | noOperand (token : Token)
  /-- The literal denotes no integer of 64 bits. -/
  | tooLarge (token : Token)
deriving DecidableEq

namespace SyntaxError

/-- The token at fault. -/
def token : SyntaxError → Token
  | unexpected _ t => t
  | noOperand t => t
  | tooLarge t => t

/-- What is wrong with a literal that is too large. -/
def tooLargeReason : String :=
  "number too large to fit in target type"

/-- The wording of a syntax error. -/
def message : SyntaxError → String
  | unexpected k t =>
    t.pos.text ++ " Expected next token to be " ++ k.text ++ ", got " ++ t.quoted
  | noOperand t =>
    t.pos.text ++ " No prefix parse function for " ++ t.kind.text ++ " found at " ++ t.quoted
  | tooLarge t =>
    t.pos.text ++ " Could not parse " ++ t.quoted ++ " as integer: " ++ tooLargeReason

/-- The node that stands for the expression that could not be read. -/
def node : SyntaxError → Expr
  | unexpected k t => .error t (some k) none
  | noOperand t => .error t none (some ("no prefix parse function for " ++ t.kind.text))
  | tooLarge t => .error t none (some tooLargeReason)

end SyntaxError

end LetFn
