/-
**Runtime errors.**

A program that fails says why: a name is not bound, a number is out of range, an operator or a call
does not apply to what it is given, or a part of the program could not be read in the first place.
The causes are kept apart; their wording is one function of them.  A host may bring in an error of
its own, which is its text.

Main definitions:

* `LetFn.Tag` — the types of the language by name;
* `LetFn.RuntimeError` — the causes, `LetFn.RuntimeError.message` the wording.
-/

import LetFn.Integer.Decimal
import LetFn.Token.Basic

set_option relaxedAutoImplicit false
set_option autoImplicit false

namespace LetFn

/-- The types of the language, with those of a pending return and of an error. -/
inductive Tag
  | integer | boolean | null | returned | error | function
deriving DecidableEq

/-- The name of a type in messages. -/
def Tag.text : Tag → String
  | integer => "INTEGER"
  | boolean => "BOOLEAN"
  | null => "NULL"
  | returned => "RETURN_VALUE"
  | error => "ERROR"
  | function => "FUNCTION"

/-- Why a program failed. -/
inductive RuntimeError
  /-- No scope around binds the name. -/
  | unbound (name : String)
  | divisionByZero
  /-- The result of a binary operation on integers is out of range. -/
  | overflow (left : Int64) (operator : String) (right : Int64)
  /-- The negative of an integer is out of range. -/
  | negationOverflow (operand : Int64)
  /-- The operator is not defined on operands of these two different types. -/
  | typeMismatch (left : Tag) (operator : String) (right : Tag)
  /-- The operator is not defined on operands of this type. -/
  | unknownBinary (left : Tag) (operator : String) (right : Tag)
  | unknownUnary (operator : String) (operand : Tag)
  /-- What is called is not a function. -/
  | notFunction (callee : Tag)
  | wrongArity (want got : Nat)
  /-- The part of the program to be evaluated could not be read. -/
  | broken (token : Token) (expected : Option TokenKind) (message : Option String)
  /-- An error of the host. -/
  | custom (text : String)
deriving DecidableEq

/-- The wording of a runtime error. -/
def RuntimeError.message : RuntimeError → String
  | unbound x => "identifier not found: " ++ x
  | divisionByZero => "division by zero"
  | overflow a op b =>
    "integer overflow: " ++ Integer.text a ++ " " ++ op ++ " " ++ Integer.text b
  | negationOverflow a => "integer overflow: -(" ++ Integer.text a ++ ")"
  | typeMismatch a op b => "type mismatch: " ++ a.text ++ " " ++ op ++ " " ++ b.text
  | unknownBinary a op b => "unknown operator: " ++ a.text ++ " " ++ op ++ " " ++ b.text
  | unknownUnary op a => "unknown operator: " ++ op ++ a.text
  | notFunction a => "not a function: " ++ a.text
  | wrongArity want got =>
    "wrong number of arguments: want=" ++ toString want ++ ", got=" ++ toString got
  | broken t expected message =>
    "parse error at " ++ t.pos.text ++ ": " ++
      match message, expected with
      | some m, _ => m
      | none, some k => "expected " ++ k.text ++ ", got " ++ t.quoted
      | none, none => "unexpected " ++ t.quoted
  | custom text => text

end LetFn
