/-
**Programs as text.**

A program is written on one line.  Every operation stands in parentheses of its own, so the text
shows how the operators were grouped, and statements are separated by a semicolon and a space.  The
text of a program without broken nodes can be read again; a broken node is written as a remark in
angle brackets, which cannot.

Main definitions:

* `LetFn.Expr.render`, `LetFn.Stmt.render`, `LetFn.Block.render`, `LetFn.Function.render`,
  `LetFn.Program.render` — the text of each sort of node.

Main results:

* `LetFn.Expr.renderAll_eq_map`, `LetFn.Stmt.renderAll_eq_map` — lists are written element by
  element.
-/

import LetFn.Integer.Decimal
import LetFn.Syntax.Basic

set_option relaxedAutoImplicit false
set_option autoImplicit false

namespace LetFn

/-- The text of a truth value. -/
def boolText (b : Bool) : String :=
  if b then "true" else "false"

/-- What is written for a construct that could not be read. -/
def brokenText (t : Token) (expected : Option TokenKind) (message : Option String) : String :=
  match message, expected with
  | some m, _ => "<error at " ++ t.quoted ++ ": " ++ m ++ ">"
  | none, some k => "<error at " ++ t.quoted ++ ": expected " ++ k.text ++ ">"
  | none, none => "<error at " ++ t.quoted ++ ">"

/-- The parameters of a function as text. -/
def parametersText (parameters : List Ident) : String :=
  ", ".intercalate (parameters.map Ident.name)

/-- Statements already written, between braces. -/
def bracedText (statements : List String) : String :=
  match statements with
  | [] => "\x7b \x7d"
  | _ :: _ => "\x7b " ++ "; ".intercalate statements ++ " \x7d"

mutual

/-- The text of an expression. -/
def Expr.render : Expr → String
  | .ident id => id.name
  | .integer _ n => Integer.text n
  | .boolean _ b => boolText b
  | .unary op e => "(" ++ op.literal ++ e.render ++ ")"
  | .binary l op r => "(" ++ l.render ++ " " ++ op.literal ++ " " ++ r.render ++ ")"
  | .ifElse _ c yes none => "if (" ++ c.render ++ ") " ++ yes.render
  | .ifElse _ c yes (some no) => "if (" ++ c.render ++ ") " ++ yes.render ++ " else " ++ no.render
  | .function _ ps body => "fn(" ++ parametersText ps ++ ") " ++ body.render
  | .call _ f args => f.render ++ "(" ++ ", ".intercalate (Expr.renderAll args) ++ ")"
  | .error t expected message => brokenText t expected message

/-- The texts of several expressions. -/
def Expr.renderAll : List Expr → List String
  | [] => []
  | e :: es => e.render :: Expr.renderAll es

/-- The text of a statement. -/
def Stmt.render : Stmt → String
  | .bind _ x e => "let " ++ x.name ++ " = " ++ e.render
  | .returns _ e => "return " ++ e.render
  | .expr _ e => e.render
  | .block b => b.render
  | .error t => brokenText t none none

/-- The texts of several statements. -/
def Stmt.renderAll : List Stmt → List String
  | [] => []
  | s :: ss => s.render :: Stmt.renderAll ss

/-- The text of a block. -/
def Block.render : Block → String
  | ⟨_, ss⟩ => bracedText (Stmt.renderAll ss)

end

/-- Expressions are written element by element. -/
@[simp] theorem Expr.renderAll_eq_map (es : List Expr) :
    Expr.renderAll es = es.map Expr.render := by
  induction es with
  | nil => rfl
  | cons e es ih => simp [Expr.renderAll, ih]

/-- Statements are written element by element. -/
@[simp] theorem Stmt.renderAll_eq_map (ss : List Stmt) :
    Stmt.renderAll ss = ss.map Stmt.render := by
  induction ss with
  | nil => rfl
  | cons s ss ih => simp [Stmt.renderAll, ih]

/-- The text of a function literal. -/
def Function.render (f : Function) : String :=
  (Expr.function f.token f.parameters f.body).render

/-- The text of a program. -/
def Program.render (p : Program) : String :=
  "; ".intercalate (p.statements.map Stmt.render)

end LetFn
