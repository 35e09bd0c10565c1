/-
**The grammar of the language.**

The parser is a machine that goes from token to token; this is the grammar it is meant for, written
down without it.  Only the kinds of the tokens are spoken of.  The grammar is ambiguous on purpose:
it says nothing of how strictly operators bind, and where one statement ends and the next begins is
not marked, so that a minus or a parenthesis may go on with an expression or begin a statement.

Lists are built from the left, in the order in which they are read.

Main definitions:

* `LetFn.Grammar.unaryOperators`, `LetFn.Grammar.binaryOperators` — the operators;
* `LetFn.Grammar.Category` — the syntactic categories;
* `LetFn.Grammar.Derives` — **the grammar**: a category has a list of kinds among its phrases.

Main results:

* `LetFn.Grammar.mem_binaryOperators_iff` — the binary operators are the kinds with a precedence,
  the parenthesis of a call apart.
-/

import LetFn.Parser.State

set_option relaxedAutoImplicit false
set_option autoImplicit false

namespace LetFn.Grammar

/-- The operators that stand before their operand. -/
def unaryOperators : List TokenKind :=
  [.bang, .minus]

/-- The operators that stand between their operands. -/
def binaryOperators : List TokenKind :=
  [.equal, .notEqual, .less, .greater, .lessEqual, .greaterEqual,
    .plus, .minus, .star, .slash, .percent]

/-- The binary operators are the kinds with a precedence, the parenthesis of a call apart. -/
theorem mem_binaryOperators_iff (k : TokenKind) :
    k ∈ binaryOperators ↔ 0 < k.precedence ∧ k ≠ .parenLeft := by
  cases k <;> decide

/-- The syntactic categories. -/
inductive Category
  /-- Statements and stray semicolons: a program, or what stands in a block. -/
  | items
  | statement
  | block
  | expression
  /-- At least one parameter, and commas between them. -/
  | parameters
  /-- At least one argument, and commas between them. -/
  | arguments
deriving DecidableEq

/-- **The grammar**: which kinds of token, in which order, make a phrase of a category. -/
inductive Derives : Category → List TokenKind → Prop
  | none : Derives .items []
  | semicolon {is : List TokenKind} :
      Derives .items is → Derives .items (is ++ [TokenKind.semicolon])
  | item {is s : List TokenKind} :
      Derives .items is → Derives .statement s → Derives .items (is ++ s)
  | bind {e : List TokenKind} :
      Derives .expression e → Derives .statement ([TokenKind.kwLet, .identifier, .assign] ++ e)
  | returns {e : List TokenKind} :
      Derives .expression e → Derives .statement ([TokenKind.kwReturn] ++ e)
  | expr {e : List TokenKind} :
      Derives .expression e → Derives .statement e
  | block {is : List TokenKind} :
      Derives .items is → Derives .block ([TokenKind.braceLeft] ++ is ++ [TokenKind.braceRight])
  | identifier : Derives .expression [.identifier]
  | integer : Derives .expression [.integer]
  | kwTrue : Derives .expression [.kwTrue]
  | kwFalse : Derives .expression [.kwFalse]
  | unary {op : TokenKind} {e : List TokenKind} :
      op ∈ unaryOperators → Derives .expression e → Derives .expression ([op] ++ e)
  | binary {l : List TokenKind} {op : TokenKind} {r : List TokenKind} :
      Derives .expression l → op ∈ binaryOperators → Derives .expression r →
      Derives .expression (l ++ [op] ++ r)
  | group {e : List TokenKind} :
      Derives .expression e →
      Derives .expression ([TokenKind.parenLeft] ++ e ++ [TokenKind.parenRight])
  | ifThen {c yes : List TokenKind} :
      Derives .expression c → Derives .block yes →
      Derives .expression ([TokenKind.kwIf, .parenLeft] ++ c ++ [TokenKind.parenRight] ++ yes)
  | ifElse {c yes no : List TokenKind} :
      Derives .expression c → Derives .block yes → Derives .block no →
      Derives .expression ([TokenKind.kwIf, .parenLeft] ++ c ++ [TokenKind.parenRight] ++ yes ++
        [TokenKind.kwElse] ++ no)
  | thunk {b : List TokenKind} :
      Derives .block b → Derives .expression ([TokenKind.kwFn, .parenLeft, .parenRight] ++ b)
  | function {ps b : List TokenKind} :
      Derives .parameters ps → Derives .block b →
      Derives .expression ([TokenKind.kwFn, .parenLeft] ++ ps ++ [TokenKind.parenRight] ++ b)
  | callEmpty {f : List TokenKind} :
      Derives .expression f → Derives .expression (f ++ [TokenKind.parenLeft, .parenRight])
  | call {f as : List TokenKind} :
      Derives .expression f → Derives .arguments as →
      Derives .expression (f ++ [TokenKind.parenLeft] ++ as ++ [TokenKind.parenRight])
  | parameter : Derives .parameters [.identifier]
  | moreParameters {ps : List TokenKind} :
      Derives .parameters ps → Derives .parameters (ps ++ [TokenKind.comma, .identifier])
  | argument {e : List TokenKind} :
      Derives .expression e → Derives .arguments e
  | moreArguments {as e : List TokenKind} :
      Derives .arguments as → Derives .expression e →
      Derives .arguments (as ++ [TokenKind.comma] ++ e)

end LetFn.Grammar
