/-
**Scopes.**

A scope binds names and lies in an outer scope, or in none.  Closures and running calls share their
scopes, so a scope is referred to by its number, and the world is the list of all scopes that were
ever made.  A name is looked up in a scope, then in its outer scope, and so on; it is bound in the
one scope given and in no other.

A new scope has a number above that of its outer scope, which is why a walk outward ends.

Main definitions:

* `LetFn.Scope` — names and their outcomes, and the outer scope;
* `LetFn.World` — all scopes, and how many closures have been made;
* `LetFn.World.get?`, `LetFn.World.contains`, `LetFn.World.names` — reading;
* `LetFn.World.newScope`, `LetFn.World.set`, `LetFn.World.newClosure` — writing.

Main results:

* `LetFn.Scope.get?_set` — **a scope binds a name to what was bound last**;
* `LetFn.World.get?_eq` — the walk outward, one step at a time.
-/

import LetFn.Value.Basic

set_option relaxedAutoImplicit false
set_option autoImplicit false

namespace LetFn

/-! ### One scope -/

/-- Names and what they are bound to, and the number of the outer scope. -/
structure Scope where
  bindings : List (String × Outcome)
  outer : Option ScopeId

namespace Scope

/-- What `x` is bound to. -/
def find? (x : String) : List (String × Outcome) → Option Outcome
  | [] => none
  | b :: bs => if b.1 = x then some b.2 else find? x bs

/-- Binds `x` to `o`, in the place of an earlier binding of `x` if there is one. -/
def bind (x : String) (o : Outcome) : List (String × Outcome) → List (String × Outcome)
  | [] => [(x, o)]
  | b :: bs => if b.1 = x then (x, o) :: bs else b :: bind x o bs

/-- What this scope itself binds a name to. -/
def get? (s : Scope) (x : String) : Option Outcome :=
  find? x s.bindings

/-- The scope after `x` is bound to `o`. -/
def set (s : Scope) (x : String) (o : Outcome) : Scope :=
  { s with bindings := bind x o s.bindings }

theorem find?_bind (x y : String) (o : Outcome) (bs : List (String × Outcome)) :
    find? y (bind x o bs) = if y = x then some o else find? y bs := by
  induction bs with
  | nil => by_cases h : x = y <;> simp [bind, find?, h, eq_comm]
  | cons b bs ih =>
    by_cases hb : b.1 = x
    · by_cases h : x = y <;> simp [bind, find?, hb, h, eq_comm]
    · by_cases hy : b.1 = y
      · subst hy
        simp [bind, find?, hb]
      · simp [bind, find?, hb, hy, ih]

/-- **A scope binds a name to what was bound last.** -/
theorem get?_set (s : Scope) (x y : String) (o : Outcome) :
    (s.set x o).get? y = if y = x then some o else s.get? y :=
  find?_bind x y o s.bindings

end Scope

/-! ### All scopes -/

/-- All scopes that were ever made, in the order of their numbers, and how many closures were. -/
structure World where
  scopes : Array Scope
  closures : Nat

namespace World

/-- The world in which there are no scopes. -/
def empty : World :=
  ⟨#[], 0⟩

/-- What a name is bound to in a scope or, failing that, in the scopes around it. -/
def get? (w : World) (s : ScopeId) (x : String) : Option Outcome :=
  match w.scopes[s]? with
  | none => none
  | some scope =>
    match scope.get? x with
    | some o => some o
    | none =>
      match scope.outer with
      | none => none
      | some a => if a < s then w.get? a x else none
termination_by s

/-- The walk outward, one step at a time. -/
theorem get?_eq {w : World} {s : ScopeId} {scope : Scope} (h : w.scopes[s]? = some scope)
    (x : String) :
    w.get? s x =
      (scope.get? x).or (scope.outer.bind fun a => if a < s then w.get? a x else none) := by
  rw [get?, h]
  cases hx : scope.get? x <;> cases ho : scope.outer <;> simp [hx, ho]

/-- Whether the scope itself binds a name. -/
def contains (w : World) (s : ScopeId) (x : String) : Bool :=
  (w.scopes[s]?.bind (·.get? x)).isSome

/-- The names that the scope itself binds, in the order of their characters. -/
def names (w : World) (s : ScopeId) : List String :=
  match w.scopes[s]? with
  | none => []
  | some scope => (scope.bindings.map (·.1)).mergeSort fun x y => decide (x ≤ y)

/-- The scope around a scope. -/
def outer? (w : World) (s : ScopeId) : Option ScopeId :=
  w.scopes[s]?.bind (·.outer)

/-- Makes an empty scope. -/
def newScope (w : World) (outer : Option ScopeId) : ScopeId × World :=
  (w.scopes.size, { w with scopes := w.scopes.push ⟨[], outer⟩ })

/-- Makes a scope that lies in no other. -/
def newGlobal (w : World) : ScopeId × World :=
  w.newScope none

/-- Makes a scope that lies in the scope `s`. -/
def enclose (w : World) (s : ScopeId) : ScopeId × World :=
  w.newScope (some s)

/-- Binds a name in the scope `s`. -/
def set (w : World) (s : ScopeId) (x : String) (o : Outcome) : World :=
  { w with scopes := w.scopes.modify s (·.set x o) }

/-- Makes a closure of a literal that was written in the scope `s`. -/
def newClosure (w : World) (literal : Function) (s : ScopeId) : Closure × World :=
  (⟨w.closures, literal, s⟩, { w with closures := w.closures + 1 })

end World

end LetFn
