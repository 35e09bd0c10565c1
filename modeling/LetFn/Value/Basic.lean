/-
**Values, and the outcomes of evaluating.**

A value is an integer, a truth value, null or a closure: a function literal with the scope it was
written in.  Evaluating a literal twice makes two closures, which an identity tells apart; nothing
else about a closure is compared.

Evaluating an expression has an *outcome*: a value, a pending return on its way to the call that it
leaves, or an error.  The last two unwind, which is to say that everything around them is abandoned.
Programs never bind an outcome that unwinds, but a host may, and then reading the name unwinds.

Main definitions:

* `LetFn.Closure`, `LetFn.Value` — values, `LetFn.Value.equals` when the language holds them equal;
* `LetFn.Outcome` — values, pending returns and errors; `LetFn.Exit` — the last two alone;
* `LetFn.Outcome.release`, `LetFn.Outcome.ofExcept` — an outcome as a result that may unwind, and
  back.

Main results:

* `LetFn.Outcome.ofExcept_release`, `LetFn.Outcome.release_ofExcept` — the two are inverse.
-/

import LetFn.Syntax.Basic
import LetFn.Value.Error

set_option relaxedAutoImplicit false
set_option autoImplicit false

namespace LetFn

/-! ### Values -/

/-- The number of a scope. -/
abbrev ScopeId := Nat

/-- A function literal with the scope it was written in, and an identity of its own. -/
structure Closure where
  id : Nat
  literal : Function
  scope : ScopeId

/-- A value of the language. -/
inductive Value
  | integer (n : Int64)
  | boolean (b : Bool)
  | null
  | function (c : Closure)

namespace Value

/-- The type of a value. -/
def tag : Value → Tag
  | integer _ => .integer
  | boolean _ => .boolean
  | null => .null
  | function _ => .function

/-- What counts as true in a condition: everything but null and false. -/
def truthy : Value → Bool
  | null => false
  | boolean b => b
  | _ => true

/-- When the language holds two values equal: closures by their identity, all else by what it is. -/
def equals : Value → Value → Bool
  | integer a, integer b => a = b
  | boolean a, boolean b => a = b
  | null, null => true
  | function c, function d => c.id = d.id
  | _, _ => false

end Value

/-! ### Outcomes -/

/-- What comes of evaluating. -/
inductive Outcome
  | value (v : Value)
  /-- A pending return of an outcome. -/
  | returned (o : Outcome)
  | error (e : RuntimeError)

/-- What unwinds. -/
inductive Exit
  | returned (o : Outcome)
  | error (e : RuntimeError)

namespace Outcome

/-- The type of an outcome. -/
def tag : Outcome → Tag
  | value v => v.tag
  | returned _ => .returned
  | error _ => .error

/-- What counts as true: pending returns and errors do. -/
def truthy : Outcome → Bool
  | value v => v.truthy
  | _ => true

/-- Whether an outcome is an error. -/
def isError : Outcome → Bool
  | error _ => true
  | _ => false

/-- Whether everything around an outcome is abandoned. -/
def unwinds : Outcome → Bool
  | value _ => false
  | _ => true

/-- When two outcomes are equal: errors by their message. -/
def equals : Outcome → Outcome → Bool
  | value v, value u => v.equals u
  | returned a, returned b => a.equals b
  | error a, error b => a.message = b.message
  | _, _ => false

/-- What is left when a call takes the pending return that is meant for it. -/
def unwrap : Outcome → Outcome
  | returned o => o
  | o => o

/-- An outcome as a result that may unwind. -/
def release : Outcome → Except Exit Value
  | value v => .ok v
  | returned o => .error (.returned o)
  | error e => .error (.error e)

/-- A result that may unwind, as an outcome. -/
def ofExcept : Except Exit Value → Outcome
  | .ok v => value v
  | .error (.returned o) => returned o
  | .error (.error e) => error e

@[simp] theorem ofExcept_release (o : Outcome) : ofExcept o.release = o := by
  cases o <;> rfl

@[simp] theorem release_ofExcept (r : Except Exit Value) : (ofExcept r).release = r := by
  rcases r with (_ | _) | _ <;> rfl

/-- A result that may unwind or have no value, as an outcome. -/
def ofExcept? : Except Exit (Option Value) → Option Outcome
  | .ok v => v.map value
  | .error (.returned o) => some (returned o)
  | .error (.error e) => some (error e)

end Outcome

end LetFn
