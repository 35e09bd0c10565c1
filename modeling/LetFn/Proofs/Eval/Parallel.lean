/-
**Two runs side by side.**

What a run does depends neither on the numbers that its scopes and closures happen to have, nor on
the places of tokens, nor on scopes that it cannot reach and names that do not occur in it.  So two
runs that differ in nothing else go side by side: at every moment the world of the one is the world
of the other in other words, and they end together, with the same result in other words.

What the two may differ in is a *comparison*: other tokens for the literals of closures, other
numbers for scopes and closures, and what is compared at all — which nodes may be evaluated, which
names may occur in them, and which scopes and closures may be reached.

Main definitions:

* `LetFn.Renaming` — other numbers for scopes and closures;
* `LetFn.Comparison` — what two runs may differ in;
* `LetFn.Value.translate`, `LetFn.Outcome.translate` — a value or an outcome in other words;
* `LetFn.World.Matches` — one world is another in other words;
* `LetFn.Comparison.Parallel` — two computations go side by side.

Main results:

* `LetFn.World.Matches.get?` — a name is worth the same in other words;
* `LetFn.Comparison.Parallel.bind` — computations one after the other go side by side;
* `LetFn.Expr.eval_parallel`, `LetFn.Stmt.eval_parallel`, `LetFn.Block.eval_parallel` — **the
  evaluations of a node go side by side**;
* `LetFn.Closure.call_parallel` — so do calls, however deep they nest;
* `LetFn.Node.run_parallel` — **so do runs of any node**.
-/

import Mathlib.Order.Hom.Basic
import LetFn.Proofs.Eval.Runs
import LetFn.Proofs.Syntax.Nodes
import LetFn.Proofs.Syntax.Relabel

set_option relaxedAutoImplicit false
set_option autoImplicit false

namespace LetFn

/-! ### In other words -/

/-- Other numbers for scopes and closures: different ones for different ones, and the scopes in the
same order. -/
structure Renaming where
  scope : ScopeId ↪o ScopeId
  closure : Nat ↪ Nat

/-- **What two runs may differ in.**  A node that may be evaluated names only what may be named, and
if it is broken the error it is evaluated to is the same in both. -/
structure Comparison where
  /-- Other tokens for what is evaluated. -/
  label : Relabelling
  /-- Other numbers. -/
  numbers : Renaming
  /-- The nodes that may be evaluated. -/
  node : Node → Prop
  /-- The names that may occur. -/
  name : String → Prop
  /-- The scopes that may be reached. -/
  scope : ScopeId → Prop
  /-- The closures that may be reached. -/
  closure : Nat → Prop
  faithful : label.Faithful
  name_ident : ∀ {x}, node (.expr (.ident x)) → name x.name
  name_bind : ∀ {t x e}, node (.stmt (.bind t x e)) → name x.name
  name_parameter : ∀ {t ps b}, node (.expr (.function t ps b)) → ∀ x ∈ ps, name x.name
  token_error : ∀ {t k m}, node (.expr (.error t k m)) → label.broken t = t
  token_errorStmt : ∀ {t}, node (.stmt (.error t)) → label.broken t = t

section Translate

variable (C : Comparison)

/-- A closure in other words. -/
def Closure.translate (c : Closure) : Closure :=
  ⟨C.numbers.closure c.id, c.literal.relabel C.label, C.numbers.scope c.scope⟩

/-- A value in other words. -/
def Value.translate : Value → Value
  | .integer n => .integer n
  | .boolean b => .boolean b
  | .null => .null
  | .function c => .function (c.translate C)

/-- An outcome in other words. -/
def Outcome.translate : Outcome → Outcome
  | .value v => .value (v.translate C)
  | .returned o => .returned o.translate
  | .error e => .error e

/-- What unwinds, in other words. -/
def Exit.translate : Exit → Exit
  | .returned o => .returned (o.translate C)
  | .error e => .error e

/-- The body of the closure may be evaluated, with the parameters and in the scope that it has. -/
structure Closure.Admitted (c : Closure) : Prop where
  id : C.closure c.id
  scope : C.scope c.scope
  parameters : ∀ x ∈ c.literal.parameters, C.name x.name
  body : c.literal.body.Every C.node

/-- A value whose closures may be called. -/
def Value.Admitted : Value → Prop
  | .function c => c.Admitted C
  | _ => True

/-- An outcome with a value whose closures may be called. -/
def Outcome.Admitted : Outcome → Prop
  | .value v => v.Admitted C
  | .returned o => o.Admitted
  | .error _ => True

/-- What may unwind. -/
def Exit.Admitted : Exit → Prop
  | .returned o => o.Admitted C
  | .error _ => True

/-- A scope and the same scope in other words. -/
structure Scope.Matches (scope scope' : Scope) : Prop where
  outer : scope'.outer = scope.outer.map C.numbers.scope
  reaches : ∀ a ∈ scope.outer, C.scope a
  get? : ∀ {x}, C.name x → scope'.get? x = (scope.get? x).map (Outcome.translate C)
  admitted : ∀ {x o}, C.name x → scope.get? x = some o → o.Admitted C

/-- **A world and the same world in other words**, as far as it may be reached: scopes and closures
that are made next have the numbers that come next. -/
structure World.Matches (w w' : World) : Prop where
  scopes : ∀ {s : ScopeId}, C.scope s →
    Option.Rel (Scope.Matches C) w.scopes[s]? w'.scopes[C.numbers.scope s]?
  nextScope : ∀ k, C.numbers.scope (w.scopes.size + k) = w'.scopes.size + k
  reaches : ∀ k, C.scope (w.scopes.size + k)
  nextClosure : ∀ k, C.numbers.closure (w.closures + k) = w'.closures + k
  reachesClosure : ∀ k, C.closure (w.closures + k)

end Translate

variable {C : Comparison}

/-- Integers, truth values and null have no other words. -/
theorem Value.Plain.translate_eq {v : Value} (h : v.Plain) : v.translate C = v := by
  cases v with
  | function c => exact h.elim
  | _ => rfl

theorem Value.Plain.admitted {v : Value} (h : v.Plain) : v.Admitted C := by
  cases v with
  | function c => exact h.elim
  | _ => trivial

@[simp] theorem Value.tag_translate (v : Value) : (v.translate C).tag = v.tag := by
  cases v <;> rfl

@[simp] theorem Value.truthy_translate (v : Value) : (v.translate C).truthy = v.truthy := by
  cases v <;> rfl

/-- Closures are the same in other words if they are the same. -/
@[simp] theorem Value.equals_translate (u v : Value) :
    (u.translate C).equals (v.translate C) = u.equals v := by
  cases u <;> cases v <;> simp [Value.translate, Value.equals, Closure.translate]

/-! ### Operators -/

/-- An operator does to values in other words what it does to the values. -/
theorem Operator.unary_translate (op : Token) (v : Value) :
    Operator.unary (C.label.token op) (v.translate C) = Operator.unary op v := by
  obtain ⟨⟨hkind, hliteral⟩, -⟩ := C.faithful op
  simp only [Operator.unary, hkind, hliteral]
  cases v with
  | function c => cases op.kind <;> rfl
  | _ => rfl

theorem Operator.onIntegers_token (op : Token) (a b : Int64) :
    Operator.onIntegers (C.label.token op) a b = Operator.onIntegers op a b := by
  obtain ⟨⟨hkind, hliteral⟩, -⟩ := C.faithful op
  have hexact : Operator.exact (C.label.token op) a b = Operator.exact op a b := by
    funext m
    cases m <;> simp [Operator.exact, hliteral]
  simp only [Operator.onIntegers, hkind, hliteral, hexact]

/-- Values that are not both integers are compared, and told apart by their types. -/
theorem Operator.binary_of_not_integers {op : Token} {u v : Value}
    (h : ¬ ∃ a b, u = .integer a ∧ v = .integer b) :
    Operator.binary op u v =
      match op.kind with
      | .equal => .ok (.boolean (u.equals v))
      | .notEqual => .ok (.boolean !(u.equals v))
      | _ =>
        if u.tag = v.tag then
          .error (.unknownBinary u.tag op.literal v.tag)
        else
          .error (.typeMismatch u.tag op.literal v.tag) := by
  unfold Operator.binary
  split
  · exact absurd ⟨_, _, rfl, rfl⟩ h
  · rfl

theorem Operator.binary_translate (op : Token) (u v : Value) :
    Operator.binary (C.label.token op) (u.translate C) (v.translate C) =
      Operator.binary op u v := by
  obtain ⟨⟨hkind, hliteral⟩, -⟩ := C.faithful op
  by_cases hintegers : ∃ a b, u = .integer a ∧ v = .integer b
  · obtain ⟨a, b, rfl, rfl⟩ := hintegers
    exact onIntegers_token op a b
  · have hintegers' : ¬ ∃ a b, u.translate C = .integer a ∧ v.translate C = .integer b := by
      cases u <;> cases v <;> simp_all [Value.translate]
    rw [binary_of_not_integers hintegers, binary_of_not_integers hintegers']
    simp only [hkind, hliteral, Value.equals_translate, Value.tag_translate]

/-! ### Worlds -/

/-- A scope binds a value, and the value in other words. -/
theorem Scope.Matches.set {scope scope' : Scope} (h : scope.Matches C scope') (x : String)
    {v : Value} (hv : v.Admitted C) :
    (scope.set x (.value v)).Matches C (scope'.set x (.value (v.translate C))) where
  outer := h.outer
  reaches := h.reaches
  get? := by
    intro y hy
    rw [Scope.get?_set, Scope.get?_set]
    split
    · rfl
    · exact h.get? hy
  admitted := by
    intro y o hy ho
    rw [Scope.get?_set] at ho
    split at ho
    · obtain rfl := Option.some.inj ho
      exact hv
    · exact h.admitted hy ho

/-- A new scope, in other words. -/
theorem Scope.matches_new {a : ScopeId} (ha : C.scope a) :
    Scope.Matches C ⟨[], some a⟩ ⟨[], some (C.numbers.scope a)⟩ where
  outer := rfl
  reaches _ hb := Option.some.inj hb ▸ ha
  get? _ := rfl
  admitted _ ho := by cases ho

namespace World.Matches

variable {w w' : World} (h : w.Matches C w') {s : ScopeId} (hs : C.scope s)

include h hs

theorem exists_scope {scope : Scope} (hscope : w.scopes[s]? = some scope) :
    ∃ scope', w'.scopes[C.numbers.scope s]? = some scope' ∧ scope.Matches C scope' := by
  have hscopes := h.scopes hs
  rw [hscope] at hscopes
  generalize w'.scopes[C.numbers.scope s]? = found at hscopes
  cases hscopes with
  | some hmatches => exact ⟨_, rfl, hmatches⟩

theorem no_scope (hscope : w.scopes[s]? = none) : w'.scopes[C.numbers.scope s]? = none := by
  have hscopes := h.scopes hs
  rw [hscope] at hscopes
  generalize w'.scopes[C.numbers.scope s]? = found at hscopes
  cases hscopes
  rfl

/-- **A name is worth the same in other words.** -/
theorem get? {x : String} (hx : C.name x) :
    w'.get? (C.numbers.scope s) x = (w.get? s x).map (Outcome.translate C) ∧
      ∀ o, w.get? s x = some o → o.Admitted C := by
  induction s using Nat.strongRecOn with
  | ind s ih =>
      cases hscope : w.scopes[s]? with
      | none =>
          have hnone {w : World} {s : ScopeId} (hs : w.scopes[s]? = none) : w.get? s x = none := by
            rw [World.get?, hs]
          rw [hnone hscope, hnone (h.no_scope hs hscope)]
          exact ⟨rfl, by simp⟩
      | some scope =>
          obtain ⟨scope', hscope', hmatches⟩ := h.exists_scope hs hscope
          rw [World.get?_eq hscope, World.get?_eq hscope', hmatches.get? hx, hmatches.outer]
          cases hown : scope.get? x with
          | some o => exact ⟨rfl, fun o' ho => Option.some.inj ho ▸ hmatches.admitted hx hown⟩
          | none =>
              cases houter : scope.outer with
              | none => exact ⟨rfl, by simp⟩
              | some a =>
                  simp only [Option.map_none, Option.none_or, Option.map_some, Option.bind_some,
                    OrderEmbedding.lt_iff_lt]
                  split
                  · exact ih a ‹_› (hmatches.reaches a houter)
                  · exact ⟨rfl, by simp⟩

/-- A value is bound, and the value in other words. -/
theorem set (x : String) {v : Value} (hv : v.Admitted C) :
    (w.set s x (.value v)).Matches C (w'.set (C.numbers.scope s) x (.value (v.translate C))) where
  scopes := by
    intro a ha
    simp only [World.set, Array.getElem?_modify, EmbeddingLike.apply_eq_iff_eq]
    split
    · obtain rfl : s = a := ‹_›
      cases hscope : w.scopes[s]? with
      | none =>
          rw [h.no_scope hs hscope]
          exact .none
      | some scope =>
          obtain ⟨scope', hscope', hmatches⟩ := h.exists_scope hs hscope
          rw [hscope']
          exact .some (hmatches.set x hv)
    · exact h.scopes ha
  nextScope k := by
    simpa [World.set] using h.nextScope k
  reaches k := by
    simpa [World.set] using h.reaches k
  nextClosure := h.nextClosure
  reachesClosure := h.reachesClosure

/-- A scope is made in both worlds. -/
theorem enclose : (w.enclose s).2.Matches C (w'.enclose (C.numbers.scope s)).2 where
  scopes := by
    intro a ha
    have hnew : C.numbers.scope w.scopes.size = w'.scopes.size := h.nextScope 0
    simp only [World.enclose, World.newScope, Array.getElem?_push, ← hnew,
      EmbeddingLike.apply_eq_iff_eq]
    split
    · exact .some (Scope.matches_new hs)
    · exact h.scopes ha
  nextScope k := by
    have hk := h.nextScope (1 + k)
    simpa [World.enclose, World.newScope, Nat.add_assoc] using hk
  reaches k := by
    have hk := h.reaches (1 + k)
    simpa [World.enclose, World.newScope, Nat.add_assoc] using hk
  nextClosure := h.nextClosure
  reachesClosure := h.reachesClosure

omit hs in
/-- A closure is made in both worlds. -/
theorem newClosure (literal : Function) (s : ScopeId) :
    (w.newClosure literal s).2.Matches C
      (w'.newClosure (literal.relabel C.label) (C.numbers.scope s)).2 where
  scopes := h.scopes
  nextScope := h.nextScope
  reaches := h.reaches
  nextClosure k := by
    have hk := h.nextClosure (1 + k)
    simpa [World.newClosure, Nat.add_assoc] using hk
  reachesClosure k := by
    have hk := h.reachesClosure (1 + k)
    simpa [World.newClosure, Nat.add_assoc] using hk

end World.Matches

/-! ### Computations side by side -/

/-- What comes of two computations that go side by side: both need deeper calls, or both have a
result, or both unwind. -/
inductive Comparison.Follows (C : Comparison) {α β : Type} (R : α → β → Prop) :
    Option (Except Exit α × World) → Option (Except Exit β × World) → Prop
  | none : Follows C R none none
  | ok {a : α} {b : β} {w w' : World} :
      R a b → w.Matches C w' → Follows C R (some (.ok a, w)) (some (.ok b, w'))
  | exit {e : Exit} {w w' : World} :
      e.Admitted C → w.Matches C w' →
      Follows C R (some (.error e, w)) (some (.error (e.translate C), w'))

/-- **Two computations go side by side**: from a world and the same world in other words. -/
def Comparison.Parallel (C : Comparison) {α β : Type} (R : α → β → Prop) (x : Eval α)
    (y : Eval β) : Prop :=
  ∀ w w', w.Matches C w' → C.Follows R (x w) (y w')

namespace Comparison

/-- A value and the same value in other words. -/
def SameValue (C : Comparison) (v v' : Value) : Prop :=
  v' = v.translate C ∧ v.Admitted C

/-- A value in other words, if there is one. -/
def SameOption (C : Comparison) (o o' : Option Value) : Prop :=
  o' = o.map (Value.translate C) ∧ ∀ v ∈ o, v.Admitted C

/-- Values in other words. -/
def SameList (C : Comparison) (vs vs' : List Value) : Prop :=
  vs' = vs.map (Value.translate C) ∧ ∀ v ∈ vs, v.Admitted C

variable {α β γ δ : Type} {R : α → β → Prop} {S : γ → δ → Prop}

theorem Parallel.pure {a : α} {b : β} (h : R a b) : C.Parallel R (Pure.pure a) (Pure.pure b) :=
  fun _ _ hw => .ok h hw

theorem Parallel.fail (e : RuntimeError) : C.Parallel R (Eval.fail e) (Eval.fail e) :=
  fun _ _ hw => .exit (e := .error e) trivial hw

/-- **Computations one after the other go side by side.** -/
theorem Parallel.bind {x : Eval α} {y : Eval β} {f : α → Eval γ} {g : β → Eval δ}
    (hx : C.Parallel R x y) (hf : ∀ a b, R a b → C.Parallel S (f a) (g b)) :
    C.Parallel S (x >>= f) (y >>= g) := by
  intro w w' hw
  rw [Eval.bind_apply, Eval.bind_apply]
  have hfollows := hx w w' hw
  generalize x w = p, y w' = q at hfollows
  cases hfollows with
  | none => exact .none
  | ok hab hw => exact hf _ _ hab _ _ hw
  | exit he hw => exact .exit he hw

/-- An outcome that is let go. -/
theorem Follows.release {o : Outcome} (ho : o.Admitted C) {w w' : World} (hw : w.Matches C w') :
    C.Follows C.SameValue (some (o.release, w)) (some ((o.translate C).release, w')) := by
  cases o with
  | value v => exact .ok ⟨rfl, ho⟩ hw
  | returned o => exact .exit (e := .returned o) ho hw
  | error e => exact .exit (e := .error e) trivial hw

end Comparison

open Comparison

/-! ### The steps of evaluation -/

section Steps

variable {s : ScopeId} (hs : C.scope s)

include hs

theorem Eval.lookup_parallel {x : String} (hx : C.name x) :
    C.Parallel C.SameValue (Eval.lookup s x) (Eval.lookup (C.numbers.scope s) x) := by
  intro w w' hw
  obtain ⟨hget, hadmitted⟩ := hw.get? hs hx
  rw [Eval.lookup_apply, Eval.lookup_apply, hget]
  cases ho : w.get? s x with
  | none => exact .exit (e := .error (.unbound x)) trivial hw
  | some o => exact .release (hadmitted o ho) hw

theorem Eval.assign_parallel (x : String) {v v' : Value} (hv : C.SameValue v v') :
    C.Parallel (fun _ _ => True) (Eval.assign s x v) (Eval.assign (C.numbers.scope s) x v') := by
  obtain ⟨rfl, hv⟩ := hv
  exact fun w w' hw => .ok trivial (hw.set hs x hv)

theorem Eval.assignAll_parallel (xs : List Ident) (vs : List Value) (hvs : ∀ v ∈ vs, v.Admitted C) :
    C.Parallel (fun _ _ => True) (Eval.assignAll s xs vs)
      (Eval.assignAll (C.numbers.scope s) (xs.map (Ident.relabel C.label))
        (vs.map (Value.translate C))) := by
  induction xs generalizing vs with
  | nil => cases vs <;> exact .pure trivial
  | cons x xs ih =>
      cases vs with
      | nil => exact .pure trivial
      | cons v vs =>
          obtain ⟨hv, hvs⟩ := List.forall_mem_cons.1 hvs
          exact (Eval.assign_parallel hs x.name ⟨rfl, hv⟩).bind fun _ _ _ => ih vs hvs

theorem Eval.closure_parallel (literal : Function)
    (hparameters : ∀ x ∈ literal.parameters, C.name x.name) (hbody : literal.body.Every C.node) :
    C.Parallel C.SameValue (Eval.closure literal s)
      (Eval.closure (literal.relabel C.label) (C.numbers.scope s)) := by
  intro w w' hw
  have hnew : C.numbers.closure w.closures = w'.closures := hw.nextClosure 0
  refine .ok ⟨?_, hw.reachesClosure 0, hs, hparameters, hbody⟩ (hw.newClosure literal s)
  simp only [Value.translate, Closure.translate, hnew]

theorem Eval.enclose_parallel :
    C.Parallel (fun a a' => a' = C.numbers.scope a ∧ C.scope a) (Eval.enclose s)
      (Eval.enclose (C.numbers.scope s)) :=
  fun _ _ hw => .ok ⟨(hw.nextScope 0).symm, hw.reaches 0⟩ (hw.enclose hs)

end Steps

/-- An operation on values is the same in other words. -/
theorem Eval.ofOperator_parallel {r : Except RuntimeError Value} (hr : ∀ v, r = .ok v → v.Plain) :
    C.Parallel C.SameValue (Eval.ofOperator r) (Eval.ofOperator r) := by
  intro w w' hw
  cases r with
  | error e => exact .exit (e := .error e) trivial hw
  | ok v => exact .ok ⟨(hr v rfl).translate_eq.symm, (hr v rfl).admitted⟩ hw

theorem Eval.catchReturn_parallel {x y : Eval Value} (h : C.Parallel C.SameValue x y) :
    C.Parallel C.SameValue (Eval.catchReturn x) (Eval.catchReturn y) := by
  intro w w' hw
  have hfollows := h w w' hw
  change C.Follows _ (Option.bind (x w) _) (Option.bind (y w') _)
  generalize x w = p, y w' = q at hfollows
  cases hfollows with
  | none => exact .none
  | ok hv hw => exact .ok hv hw
  | @exit e _ _ he hw =>
      cases e with
      | returned o => exact .release he hw
      | error e => exact .exit (e := .error e) trivial hw

/-- A block that has no value is worth null. -/
theorem Eval.getD_parallel {x y : Eval (Option Value)} (h : C.Parallel C.SameOption x y) :
    C.Parallel C.SameValue (do return (← x).getD .null) (do return (← y).getD .null) := by
  refine h.bind fun o o' ho => .pure ?_
  obtain ⟨rfl, ho⟩ := ho
  cases o with
  | none => exact ⟨rfl, trivial⟩
  | some v => exact ⟨rfl, ho v rfl⟩

/-- Calls of closures go side by side. -/
def CallsParallel (C : Comparison) (call call' : Calls) : Prop :=
  ∀ c vs, c.Admitted C → (∀ v ∈ vs, v.Admitted C) →
    C.Parallel C.SameValue (call c vs) (call' (c.translate C) (vs.map (Value.translate C)))

/-- The calls of any values go side by side, if those of closures do. -/
theorem Eval.apply_parallel {call call' : Calls} (h : CallsParallel C call call') (f : Value)
    (vs : List Value) (hf : f.Admitted C) (hvs : ∀ v ∈ vs, v.Admitted C) :
    C.Parallel C.SameValue (Eval.apply call f vs)
      (Eval.apply call' (f.translate C) (vs.map (Value.translate C))) := by
  cases f with
  | integer n | boolean b | null => exact .fail _
  | function c =>
      simp only [Eval.apply, Value.translate, Closure.translate, Function.relabel, List.length_map]
      split
      · exact h c vs hf hvs
      · exact .fail _

/-! ### Every node -/

mutual

/-- **The evaluations of an expression go side by side.** -/
theorem Expr.eval_parallel {call call' : Calls} (h : CallsParallel C call call') {s : ScopeId}
    (hs : C.scope s) : (e : Expr) → e.Every C.node →
    C.Parallel C.SameValue (e.eval call s) ((e.relabel C.label).eval call' (C.numbers.scope s))
  | .ident x, he => Eval.lookup_parallel hs (C.name_ident (Expr.every_ident.1 he))
  | .integer _ _, _ => .pure ⟨rfl, trivial⟩
  | .boolean _ _, _ => .pure ⟨rfl, trivial⟩
  | .unary op e, he => by
    obtain ⟨-, he⟩ := Expr.every_unary.1 he
    refine (Expr.eval_parallel h hs e he).bind fun v v' hv => ?_
    obtain ⟨rfl, -⟩ := hv
    rw [Operator.unary_translate]
    exact Eval.ofOperator_parallel fun r hr => Operator.plain_unary hr
  | .binary l op r, he => by
    obtain ⟨-, hl, hr⟩ := Expr.every_binary.1 he
    refine (Expr.eval_parallel h hs l hl).bind fun a a' ha => ?_
    refine (Expr.eval_parallel h hs r hr).bind fun b b' hb => ?_
    obtain ⟨rfl, -⟩ := ha
    obtain ⟨rfl, -⟩ := hb
    rw [Operator.binary_translate]
    exact Eval.ofOperator_parallel fun r hr => Operator.plain_binary hr
  | .ifElse _ c yes none, he => by
    obtain ⟨-, hc, hyes⟩ := Expr.every_ifThen.1 he
    refine (Expr.eval_parallel h hs c hc).bind fun v v' hv => ?_
    obtain ⟨rfl, -⟩ := hv
    rw [Value.truthy_translate]
    cases v.truthy with
    | true => exact Eval.getD_parallel (Block.eval_parallel h hs yes hyes)
    | false => exact .pure ⟨rfl, trivial⟩
  | .ifElse _ c yes (some no), he => by
    obtain ⟨-, hc, hyes, hno⟩ := Expr.every_ifElse.1 he
    refine (Expr.eval_parallel h hs c hc).bind fun v v' hv => ?_
    obtain ⟨rfl, -⟩ := hv
    rw [Value.truthy_translate]
    cases v.truthy with
    | true => exact Eval.getD_parallel (Block.eval_parallel h hs yes hyes)
    | false => exact Eval.getD_parallel (Block.eval_parallel h hs no hno)
  | .function t ps body, he => by
    obtain ⟨hnode, hbody⟩ := Expr.every_function.1 he
    exact Eval.closure_parallel hs ⟨t, ps, body⟩ (C.name_parameter hnode) hbody
  | .call _ f es, he => by
    obtain ⟨-, hf, hes⟩ := Expr.every_call.1 he
    refine (Expr.eval_parallel h hs f hf).bind fun v v' hv => ?_
    refine (Expr.evalAll_parallel h hs es hes).bind fun vs vs' hvs => ?_
    obtain ⟨rfl, hv⟩ := hv
    obtain ⟨rfl, hvs⟩ := hvs
    exact Eval.apply_parallel h v vs hv hvs
  | .error t k m, he => by
    rw [Expr.relabel, C.token_error (Expr.every_error.1 he)]
    exact .fail _

/-- So do those of arguments. -/
theorem Expr.evalAll_parallel {call call' : Calls} (h : CallsParallel C call call') {s : ScopeId}
    (hs : C.scope s) : (es : List Expr) → (∀ e ∈ es, e.Every C.node) →
    C.Parallel C.SameList (Expr.evalAll call s es)
      (Expr.evalAll call' (C.numbers.scope s) (Expr.relabelAll C.label es))
  | [], _ => .pure ⟨rfl, by simp⟩
  | e :: es, hes => by
    obtain ⟨he, hes⟩ := List.forall_mem_cons.1 hes
    refine (Expr.eval_parallel h hs e he).bind fun v v' hv => ?_
    refine (Expr.evalAll_parallel h hs es hes).bind fun vs vs' hvs => .pure ?_
    obtain ⟨rfl, hv⟩ := hv
    obtain ⟨rfl, hvs⟩ := hvs
    exact ⟨rfl, List.forall_mem_cons.2 ⟨hv, hvs⟩⟩

/-- **The evaluations of a statement go side by side.** -/
theorem Stmt.eval_parallel {call call' : Calls} (h : CallsParallel C call call') {s : ScopeId}
    (hs : C.scope s) : (st : Stmt) → st.Every C.node →
    C.Parallel C.SameOption (st.eval call s) ((st.relabel C.label).eval call' (C.numbers.scope s))
  | .bind _ x e, hst => by
    obtain ⟨-, he⟩ := Stmt.every_bind.1 hst
    refine (Expr.eval_parallel h hs e he).bind fun v v' hv => ?_
    exact (Eval.assign_parallel hs x.name hv).bind fun _ _ _ => .pure ⟨rfl, by simp⟩
  | .returns _ e, hst => by
    obtain ⟨-, he⟩ := Stmt.every_returns.1 hst
    refine (Expr.eval_parallel h hs e he).bind fun v v' hv => ?_
    obtain ⟨rfl, hv⟩ := hv
    exact fun w w' hw => .exit (e := .returned (.value v)) hv hw
  | .expr _ e, hst => by
    obtain ⟨-, he⟩ := Stmt.every_expr.1 hst
    refine (Expr.eval_parallel h hs e he).bind fun v v' hv => .pure ?_
    obtain ⟨rfl, hv⟩ := hv
    exact ⟨rfl, by simpa using hv⟩
  | .block b, hst => Block.eval_parallel h hs b (Stmt.every_block.1 hst).2
  | .error t, hst => by
    rw [Stmt.relabel, C.token_errorStmt (Stmt.every_error.1 hst)]
    exact .fail _

/-- So do those of several statements. -/
theorem Stmt.evalAll_parallel {call call' : Calls} (h : CallsParallel C call call') {s : ScopeId}
    (hs : C.scope s) : (sts : List Stmt) → (∀ st ∈ sts, st.Every C.node) →
    (last last' : Option Value) → C.SameOption last last' →
      C.Parallel C.SameOption (Stmt.evalAll call s last sts)
        (Stmt.evalAll call' (C.numbers.scope s) last' (Stmt.relabelAll C.label sts))
  | [], _, _, _, hlast => .pure hlast
  | st :: sts, hsts, _, _, _ => by
    obtain ⟨hst, hsts⟩ := List.forall_mem_cons.1 hsts
    exact (Stmt.eval_parallel h hs st hst).bind fun o o' ho =>
      Stmt.evalAll_parallel h hs sts hsts o o' ho

/-- **The evaluations of a block go side by side.** -/
theorem Block.eval_parallel {call call' : Calls} (h : CallsParallel C call call') {s : ScopeId}
    (hs : C.scope s) : (b : Block) → b.Every C.node →
    C.Parallel C.SameOption (b.eval call s) ((b.relabel C.label).eval call' (C.numbers.scope s))
  | ⟨_, sts⟩, hb =>
    Stmt.evalAll_parallel h hs sts (Block.every_mk.1 hb).2 none none ⟨rfl, by simp⟩

end

/-! ### Calls and programs -/

/-- **Calls go side by side**, however deep they nest. -/
theorem Closure.call_parallel (depth : Nat) :
    CallsParallel C (Closure.call depth) (Closure.call depth) := by
  induction depth with
  | zero => exact fun c vs _ _ w w' _ => .none
  | succ depth ih =>
      intro c vs hc hvs
      refine (Eval.enclose_parallel hc.scope).bind fun s s' hs => ?_
      obtain ⟨rfl, hs⟩ := hs
      refine (Eval.assignAll_parallel hs c.literal.parameters vs hvs).bind fun _ _ _ => ?_
      refine Eval.catchReturn_parallel ?_
      exact Eval.getD_parallel (Block.eval_parallel ih hs c.literal.body hc.body)

/-- What comes of a program, by what comes of its statements. -/
theorem Program.run_apply (depth : Nat) (s : ScopeId) (p : Program) (w : World) :
    p.run depth s w =
      (Stmt.evalAll (Closure.call depth) s none p.statements w).map fun r =>
        ((Outcome.ofExcept? r.1).map Outcome.unwrap, r.2) := by
  have hrun := Stmt.runAll_eq depth s none p.statements w
  rw [Run.map_apply, Option.map_map] at hrun
  exact hrun

/-- If results go side by side, the outcomes that are made of them are the same in other words. -/
theorem Comparison.Follows.outcome {α : Type} {R : α → α → Prop}
    {p q : Option (Except Exit α × World)} (h : C.Follows R p q)
    (f : Except Exit α → Option Outcome)
    (hok : ∀ a b, R a b → f (.ok b) = (f (.ok a)).map (Outcome.translate C))
    (hexit : ∀ e, f (.error (e.translate C)) = (f (.error e)).map (Outcome.translate C)) :
    Option.Rel (fun r r' => r'.1 = r.1.map (Outcome.translate C) ∧ r.2.Matches C r'.2)
      (p.map fun r => (f r.1, r.2)) (q.map fun r => (f r.1, r.2)) := by
  cases h with
  | none => exact .none
  | ok hab hw => exact .some ⟨hok _ _ hab, hw⟩
  | @exit e _ _ he hw => exact .some ⟨hexit e, hw⟩

/-- **Runs of a program go side by side.** -/
theorem Program.run_parallel (depth : Nat) {p : Program} (hp : ∀ st ∈ p.statements, st.Every C.node)
    {s : ScopeId} (hs : C.scope s) {w w' : World} (hw : w.Matches C w') :
    Option.Rel (fun r r' => r'.1 = r.1.map (Outcome.translate C) ∧ r.2.Matches C r'.2)
      (p.run depth s w) ((p.relabel C.label).run depth (C.numbers.scope s) w') := by
  have hall := Stmt.evalAll_parallel (Closure.call_parallel depth) hs p.statements hp none none
    ⟨rfl, by simp⟩ w w' hw
  rw [Stmt.relabelAll_eq_map] at hall
  rw [Program.run_apply, Program.run_apply, Program.relabel]
  refine hall.outcome (fun r => (Outcome.ofExcept? r).map Outcome.unwrap) (fun o o' ho => ?_)
    fun e => ?_
  · obtain ⟨rfl, -⟩ := ho
    cases o <;> rfl
  · cases e <;> rfl

/-- A node with other tokens. -/
def Node.relabel (r : Relabelling) : Node → Node
  | .program p => .program (p.relabel r)
  | .stmt st => .stmt (st.relabel r)
  | .block b => .block (b.relabel r)
  | .expr e => .expr (e.relabel r)

/-- **Runs of any node go side by side.** -/
theorem Node.run_parallel (depth : Nat) {n : Node} (hn : n.Every C.node) {s : ScopeId}
    (hs : C.scope s) {w w' : World} (hw : w.Matches C w') :
    Option.Rel (fun r r' => r'.1 = r.1.map (Outcome.translate C) ∧ r.2.Matches C r'.2)
      (n.run depth s w) ((n.relabel C.label).run depth (C.numbers.scope s) w') := by
  have hcall := Closure.call_parallel (C := C) depth
  -- a statement or a block may have no value, in both runs
  have hoption {x y : Option (Except Exit (Option Value) × World)}
      (h : C.Follows C.SameOption x y) :
      Option.Rel (fun r r' => r'.1 = r.1.map (Outcome.translate C) ∧ r.2.Matches C r'.2)
        (x.map fun r => (Outcome.ofExcept? r.1, r.2))
        (y.map fun r => (Outcome.ofExcept? r.1, r.2)) := by
    refine h.outcome Outcome.ofExcept? (fun o o' ho => ?_) fun e => ?_
    · obtain ⟨rfl, -⟩ := ho
      cases o <;> rfl
    · cases e <;> rfl
  cases n with
  | program p => exact Program.run_parallel depth (Stmt.forall_mem_nodesAll.1 hn) hs hw
  | stmt st =>
      change Option.Rel _ (st.run depth s w) ((st.relabel C.label).run depth _ w')
      rw [Stmt.run, Stmt.run, Run.map_apply, Run.map_apply]
      exact hoption (Stmt.eval_parallel hcall hs st hn w w' hw)
  | block b =>
      change Option.Rel _ (b.run depth s w) ((b.relabel C.label).run depth _ w')
      rw [Block.run, Block.run, Run.map_apply, Run.map_apply]
      exact hoption (Block.eval_parallel hcall hs b hn w w' hw)
  | expr e =>
      change Option.Rel _ ((some <$> e.run depth s : Run _) w)
        ((some <$> (e.relabel C.label).run depth (C.numbers.scope s) : Run _) w')
      rw [Run.map_apply, Run.map_apply, Expr.run, Expr.run, Run.map_apply, Run.map_apply,
        Option.map_map, Option.map_map]
      refine (Expr.eval_parallel hcall hs e hn w w' hw).outcome
        (fun r => some (Outcome.ofExcept r)) (fun v v' hv => ?_) fun e => ?_
      · obtain ⟨rfl, -⟩ := hv
        rfl
      · cases e <;> rfl

end LetFn
