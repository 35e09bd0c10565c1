/-
**Evaluation.**

Evaluating a node in a scope changes the world and gives a value, unless it unwinds.  The evaluator
is a recursion on the syntax; what a call does is a parameter of it, and the calls of closures are
in turn a recursion on how deep they may nest.  A computation that needs deeper calls than it may
use has no result; one that has a result has the same result however deep calls may nest beyond
that.

Main definitions:

* `LetFn.Eval` — computations that change the world and may unwind, or may need deeper calls;
* `LetFn.Calls` — what the calls of closures do;
* `LetFn.Expr.eval`, `LetFn.Stmt.eval`, `LetFn.Block.eval` — the evaluator;
* `LetFn.Closure.call` — the call of a closure.
-/

import LetFn.Eval.Operator
import LetFn.World

set_option relaxedAutoImplicit false
set_option autoImplicit false

namespace LetFn

/-- Computations that change the world and may unwind.  There is no result if calls nest too deep.
-/
abbrev Eval := ExceptT Exit (StateT World Option)

/-- What the calls of closures do. -/
abbrev Calls := Closure → List Value → Eval Value

namespace Eval

/-- What a result that may unwind does to the computation around it. -/
def ofExcept {α : Type} (r : Except Exit α) : Eval α :=
  ExceptT.mk (pure r)

/-- A failure unwinds. -/
def ofOperator (r : Except RuntimeError Value) : Eval Value :=
  ofExcept (r.mapError .error)

/-- The computation fails. -/
def fail {α : Type} (e : RuntimeError) : Eval α :=
  throw (.error e)

/-- The value of a name; what a host has bound may unwind. -/
def lookup (s : ScopeId) (x : String) : Eval Value := do
  match (← get).get? s x with
  | some o => ofExcept o.release
  | none => fail (.unbound x)

/-- Binds a name. -/
def assign (s : ScopeId) (x : String) (v : Value) : Eval Unit :=
  modify (·.set s x (.value v))

/-- Binds parameters to arguments, from the left. -/
def assignAll (s : ScopeId) : List Ident → List Value → Eval Unit
  | x :: xs, v :: vs => do
    assign s x.name v
    assignAll s xs vs
  | _, _ => pure ()

/-- Makes a closure. -/
def closure (literal : Function) (s : ScopeId) : Eval Value := do
  let c ← modifyGet (·.newClosure literal s)
  return .function c

/-- Makes the scope of a call. -/
def enclose (s : ScopeId) : Eval ScopeId :=
  modifyGet (·.enclose s)

/-- The end of a pending return: the call that it leaves has the value it brings. -/
def catchReturn (body : Eval Value) : Eval Value :=
  tryCatch body fun
    | .returned o => ofExcept o.release
    | .error e => fail e

/-- The call of any value: only a closure with as many parameters as there are arguments is called.
-/
def apply (call : Calls) (f : Value) (args : List Value) : Eval Value :=
  match f with
  | .function c =>
    if c.literal.parameters.length = args.length then
      call c args
    else
      fail (.wrongArity c.literal.parameters.length args.length)
  | _ => fail (.notFunction f.tag)

end Eval

/-! ### The evaluator -/

section Evaluator

variable (call : Calls)

mutual

/-- The value of an expression. -/
def Expr.eval (s : ScopeId) : Expr → Eval Value
  | .ident x => Eval.lookup s x.name
  | .integer _ n => pure (.integer n)
  | .boolean _ b => pure (.boolean b)
  | .unary op e => do
    let v ← e.eval s
    Eval.ofOperator (Operator.unary op v)
  | .binary l op r => do
    let a ← l.eval s
    let b ← r.eval s
    Eval.ofOperator (Operator.binary op a b)
  | .ifElse _ c yes none => do
    let v ← c.eval s
    if v.truthy then return (← yes.eval s).getD .null else return .null
  | .ifElse _ c yes (some no) => do
    let v ← c.eval s
    if v.truthy then return (← yes.eval s).getD .null else return (← no.eval s).getD .null
  | .function t ps body => Eval.closure ⟨t, ps, body⟩ s
  | .call _ f args => do
    let v ← f.eval s
    let vs ← Expr.evalAll s args
    Eval.apply call v vs
  | .error t expected message => Eval.fail (.broken t expected message)

/-- The values of arguments, from the left. -/
def Expr.evalAll (s : ScopeId) : List Expr → Eval (List Value)
  | [] => pure []
  | e :: es => do
    let v ← e.eval s
    let vs ← Expr.evalAll s es
    return v :: vs

/-- The value of a statement, if it has one: a binding has none. -/
def Stmt.eval (s : ScopeId) : Stmt → Eval (Option Value)
  | .bind _ x e => do
    let v ← e.eval s
    Eval.assign s x.name v
    return none
  | .returns _ e => do
    let v ← e.eval s
    throw (.returned (.value v))
  | .expr _ e => do
    let v ← e.eval s
    return some v
  | .block b => b.eval s
  | .error t => Eval.fail (.broken t none none)

/-- The value of the last statement; `last` is that of the statement before. -/
def Stmt.evalAll (s : ScopeId) (last : Option Value) : List Stmt → Eval (Option Value)
  | [] => pure last
  | st :: sts => do
    let v ← st.eval s
    Stmt.evalAll s v sts

/-- The value of the last statement of a block.  A block has no scope of its own. -/
def Block.eval (s : ScopeId) : Block → Eval (Option Value)
  | ⟨_, sts⟩ => Stmt.evalAll s none sts

end

end Evaluator

/-- The call of a closure where calls may nest `depth` deep: its body is evaluated in a new scope in
the scope of the closure, which binds the parameters. -/
def Closure.call : (depth : Nat) → Calls
  | 0 => fun _ _ => ExceptT.mk fun _ => none
  | depth + 1 => fun c args => do
    let s ← Eval.enclose c.scope
    Eval.assignAll s c.literal.parameters args
    Eval.catchReturn do
      return (← c.literal.body.eval (Closure.call depth) s).getD .null

end LetFn
