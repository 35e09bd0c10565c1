/-
**Running a node.**

Seen from outside, evaluating a node has an outcome, and a statement, a block or a program may have
none.  A program takes a pending return as a call does; a statement, a block and an expression by
themselves leave it pending.

Main definitions:

* `LetFn.Run` — computations that change the world, or need deeper calls;
* `LetFn.Expr.run`, `LetFn.Stmt.run`, `LetFn.Block.run` — the outcome of a node;
* `LetFn.Stmt.runAll`, `LetFn.Program.run` — statement after statement, until one unwinds;
* `LetFn.Node.run` — the outcome of any of them.
-/

import LetFn.Eval.Basic

set_option relaxedAutoImplicit false
set_option autoImplicit false

namespace LetFn

/-- Computations that change the world.  There is no result if calls nest too deep. -/
abbrev Run := StateT World Option

/-- The outcome of an expression. -/
def Expr.run (depth : Nat) (s : ScopeId) (e : Expr) : Run Outcome :=
  Outcome.ofExcept <$> (e.eval (Closure.call depth) s).run

/-- The outcome of a statement, if it has one. -/
def Stmt.run (depth : Nat) (s : ScopeId) (st : Stmt) : Run (Option Outcome) :=
  Outcome.ofExcept? <$> (st.eval (Closure.call depth) s).run

/-- The outcome of a block, if it has one. -/
def Block.run (depth : Nat) (s : ScopeId) (b : Block) : Run (Option Outcome) :=
  Outcome.ofExcept? <$> (b.eval (Closure.call depth) s).run

/-- The outcome of the last statement of a program; `last` is that of the statement before.  The
first statement that unwinds is the last to be evaluated: an error is the outcome of the program,
and of a pending return the outcome is what it brings. -/
def Stmt.runAll (depth : Nat) (s : ScopeId) (last : Option Outcome) :
    List Stmt → Run (Option Outcome)
  | [] => pure last
  | st :: sts => do
    match ← st.run depth s with
    | some (.returned o) => return some o
    | some (.error e) => return some (.error e)
    | o => Stmt.runAll depth s o sts

/-- The outcome of a program, if it has one. -/
def Program.run (depth : Nat) (s : ScopeId) (p : Program) : Run (Option Outcome) :=
  Stmt.runAll depth s none p.statements

/-- The outcome of a node, if it has one: an expression always has. -/
def Node.run (depth : Nat) (s : ScopeId) : Node → Run (Option Outcome)
  | .program p => p.run depth s
  | .stmt st => st.run depth s
  | .block b => b.run depth s
  | .expr e => some <$> e.run depth s

end LetFn
