/-
**Calls are repeatable.**

A call leaves all scopes that there were as they were, so a second call of the same value with the
same arguments finds the world that the first one found, and in addition what the first one left
behind: scopes and closures that nothing from before refers to.  The two go side by side, and the
second has the result of the first, but for the numbers of the scopes and closures made in it.

Main definitions:

* `LetFn.Renaming.result` — what comes of a call, with other numbers.

Main results:

* `LetFn.World.matches_later` — a world goes on in any later world in which its scopes are
  unchanged;
* `LetFn.World.call_repeatable` — **calls are repeatable**.
-/

import LetFn.Proofs.Eval.Frame
import LetFn.Proofs.Eval.Renumber

set_option relaxedAutoImplicit false
set_option autoImplicit false

namespace LetFn

/-- What comes of a call, with other numbers. -/
def Renaming.result (π : Renaming) : Except Exit Value → Except Exit Value
  | .ok v => .ok (v.rename π)
  | .error e => .error (e.rename π)

/-- **A world goes on in any later world in which its scopes are unchanged.** -/
theorem World.matches_later {w w' : World} (hw : w.Closed) (hkeeps : w.Keeps w')
    (hgrows : w.Grows w') : w.Matches (.renumbered (.later w w')) w' := by
  refine (World.matches_refl (Region.covers_all w)).later hw hgrows fun s hs _ => ?_
  change w'.scopes[s]? = w.scopes[s]?
  rw [Array.getElem?_eq_getElem hs]
  exact hkeeps s _ (Array.getElem?_eq_getElem hs)

/-! ### Calling twice -/

/-- **Calls are repeatable.**  In a reachable world, and however deep calls may nest, let the call
of a value come to an end.  Then the same call in the world after it comes to an end as well, and
there are other numbers with which its result is that of the first call.  These numbers are those
that were in use for what was there before, and they take the scopes and closures made in the first
call one by one to those made in the second; and each scope after the first call is, with these
numbers, a scope after the second. -/
theorem World.call_repeatable (depth : Nat) {w w₁ : World} (hw : w.Reachable) {f : Value}
    {args : List Value} (hf : f.Within w) (hargs : ∀ v ∈ args, v.Within w)
    {r₁ : Except Exit Value}
    (h : Eval.apply (Closure.call depth) f args w = some (r₁, w₁)) :
    ∃ (π : Renaming) (w₂ : World),
      Eval.apply (Closure.call depth) f args w₁ = some (π.result r₁, w₂) ∧
      (∀ s < w.scopes.size, π.scope s = s) ∧
      (∀ k < w.closures, π.closure k = k) ∧
      Set.BijOn π.scope (Set.Ico w.scopes.size w₁.scopes.size)
        (Set.Ico w₁.scopes.size w₂.scopes.size) ∧
      Set.BijOn π.closure (Set.Ico w.closures w₁.closures) (Set.Ico w₁.closures w₂.closures) ∧
      ∀ (s : ScopeId) (scope : Scope), w₁.scopes[s]? = some scope →
        ∃ scope', w₂.scopes[π.scope s]? = some scope' ∧
          scope'.outer = scope.outer.map π.scope ∧
          ∀ x, scope'.get? x = (scope.get? x).map (Outcome.rename π) := by
  have hkeeps := Eval.apply_keeps_scopes (Closure.call_keeps depth) h
  have hgrows := (Eval.closed_of_apply hw.closed hf hargs h).2
  have hmatches := World.matches_later hw.closed hkeeps hgrows
  have hparallel := Eval.apply_parallel (Closure.call_parallel depth) f args
    f.admitted_renumbered (fun v _ => v.admitted_renumbered) w w₁ hmatches
  -- the value called and the arguments are there before both calls
  have hargs' : args.map (Value.translate (.renumbered (.later w w₁))) = args := by
    conv_rhs => rw [← List.map_id args]
    refine List.map_congr_left fun v hv => ?_
    rw [Value.translate_renumbered, Value.rename_later (hargs v hv), id]
  rw [Value.translate_renumbered, Value.rename_later hf, hargs', h] at hparallel
  obtain ⟨w₂, hrun, hmatches'⟩ : ∃ w₂,
      Eval.apply (Closure.call depth) f args w₁ = some ((Renaming.later w w₁).result r₁, w₂) ∧
      w₁.Matches (.renumbered (.later w w₁)) w₂ := by
    generalize Eval.apply (Closure.call depth) f args w₁ = q at hparallel
    cases hparallel with
    | ok hv hw =>
        obtain ⟨rfl, -⟩ := hv
        exact ⟨_, by rw [Value.translate_renumbered]; rfl, hw⟩
    | exit he hw => exact ⟨_, by rw [Exit.translate_renumbered]; rfl, hw⟩
  refine ⟨.later w w₁, w₂, hrun, fun s hs => shift_of_lt _ hs, fun k hk => shift_of_lt _ hk,
    shift_bijOn hgrows.scopes (hmatches'.nextScope 0),
    shift_bijOn hgrows.closures (hmatches'.nextClosure 0), fun s scope hs => ?_⟩
  obtain ⟨scope', hs', hscope⟩ := hmatches'.exists_scope trivial hs
  refine ⟨scope', hs', hscope.outer, fun x => ?_⟩
  rw [hscope.get? trivial]
  cases scope.get? x with
  | none => rfl
  | some o => exact congrArg some o.translate_renumbered

/-- The function `fn() { x }`, whatever its tokens. -/
def Function.recall : Function :=
  ⟨⟨.kwFn, "fn", .start⟩, [], ⟨⟨.braceLeft, "\x7b", .start⟩,
    [.expr ⟨.identifier, "x", .start⟩ (.ident ⟨⟨.identifier, "x", .start⟩, "x"⟩)]⟩⟩

/-- The function `fn(x) { fn() { x } }`, whatever its tokens. -/
def Function.remember : Function :=
  ⟨⟨.kwFn, "fn", .start⟩, [⟨⟨.identifier, "x", .start⟩, "x"⟩], ⟨⟨.braceLeft, "\x7b", .start⟩,
    [.expr Function.recall.token (.function Function.recall.token Function.recall.parameters
      Function.recall.body)]⟩⟩

/-- The world with one scope, in which one function was written. -/
def World.oneFunction : World :=
  ⟨#[⟨[], none⟩], 1⟩

/-- A function that makes a function makes another one when it is called again, in another scope. -/
theorem World.call_repeatable_remember :
    World.oneFunction.Reachable ∧
    (Value.function ⟨0, Function.remember, 0⟩).Within World.oneFunction ∧
    ∃ (w₁ w₂ : World) (π : Renaming),
      Eval.apply (Closure.call 1) (.function ⟨0, Function.remember, 0⟩) [.boolean true]
        World.oneFunction = some (.ok (.function ⟨1, Function.recall, 1⟩), w₁) ∧
      Eval.apply (Closure.call 1) (.function ⟨0, Function.remember, 0⟩) [.boolean true] w₁ =
        some (.ok (.function ⟨π.closure 1, Function.recall, π.scope 1⟩), w₂) ∧
      w₁.scopes.size = 2 ∧ 2 ≤ π.scope 1 ∧ π.scope 0 = 0 := by
  have hrun : (Node.expr (.function Function.remember.token Function.remember.parameters
      Function.remember.body)).run 0 0 World.empty.newGlobal.2 =
        some (some (.value (.function ⟨0, Function.remember, 0⟩)), World.oneFunction) := rfl
  have hreachable : World.oneFunction.Reachable := .run (.newGlobal .empty) (by decide) hrun
  have hwithin : (Value.function ⟨0, Function.remember, 0⟩).Within World.oneFunction :=
    ⟨by decide, by decide⟩
  have hargs : ∀ v ∈ [Value.boolean true], v.Within World.oneFunction := by
    intro v hv
    rw [List.mem_singleton.1 hv]
    trivial
  obtain ⟨w₁, hw₁, hcall⟩ : ∃ w₁ : World, w₁.scopes.size = 2 ∧
      Eval.apply (Closure.call 1) (.function ⟨0, Function.remember, 0⟩) [.boolean true]
        World.oneFunction = some (.ok (.function ⟨1, Function.recall, 1⟩), w₁) := ⟨_, rfl, rfl⟩
  obtain ⟨π, w₂, hagain, hsame, -, hscopes, -⟩ :=
    World.call_repeatable 1 hreachable hwithin hargs hcall
  refine ⟨hreachable, hwithin, w₁, w₂, π, hcall, hagain, hw₁, ?_, hsame 0 (by decide)⟩
  have hnew : 1 ∈ Set.Ico World.oneFunction.scopes.size w₁.scopes.size :=
    ⟨by decide, by rw [hw₁]; decide⟩
  exact hw₁ ▸ (hscopes.mapsTo hnew).1

end LetFn
