/-
**Evaluation only writes the scope it runs in.**

A node that is evaluated in a scope may bind names there, and nowhere else: a block has no scope of
its own, and a call makes a new one and writes to that.  Scopes are never removed, no scope is moved
to another outer scope, and no name is ever unbound.

A call made in the course of evaluation may nest deep, and each call in it makes a scope of its own;
so that a call leaves all scopes alone is shown by induction on how deep calls may nest.

Main definitions:

* `LetFn.World.Keeps` — all scopes are what they were;
* `LetFn.World.Frame` — only some names in one scope may have changed.

Main results:

* `LetFn.Closure.call_keeps` — **a call leaves all scopes as they were**;
* `LetFn.Node.run_frame` — **evaluation only writes the scope it runs in**, and there only the names
  that the node binds.
-/

import LetFn.Proofs.Eval.Promise
import LetFn.Proofs.Eval.Runs

set_option relaxedAutoImplicit false
set_option autoImplicit false

namespace LetFn

/-! ### How scopes may change -/

/-- Every scope of the one world is the same scope in the other. -/
def World.Keeps (w w' : World) : Prop :=
  ∀ (a : ScopeId) (scope : Scope), w.scopes[a]? = some scope → w'.scopes[a]? = some scope

/-- The scope has the same outer scope and binds at least the same names, and names for which
`bound` does not hold to the same outcomes. -/
structure Scope.Extends (bound : String → Prop) (scope scope' : Scope) : Prop where
  outer : scope'.outer = scope.outer
  names : ∀ x, (scope.get? x).isSome → (scope'.get? x).isSome
  same : ∀ x, ¬ bound x → scope'.get? x = scope.get? x

/-- Every scope of the one world but `s` is the same scope in the other, and in `s` only names for
which `bound` holds may have been bound anew. -/
structure World.Frame (s : ScopeId) (bound : String → Prop) (w w' : World) : Prop where
  others : ∀ (a : ScopeId) (scope : Scope), a ≠ s → w.scopes[a]? = some scope →
    w'.scopes[a]? = some scope
  own : ∀ scope, w.scopes[s]? = some scope →
    ∃ scope', w'.scopes[s]? = some scope' ∧ scope.Extends bound scope'

namespace World

variable {s : ScopeId} {bound : String → Prop} {w w' w'' : World}

theorem Keeps.refl (w : World) : w.Keeps w :=
  fun _ _ h => h

/-- Where no scope changes, none changes out of frame. -/
theorem Keeps.frame (h : w.Keeps w') : Frame s bound w w' where
  others a scope _ ha := h a scope ha
  own scope hs := ⟨scope, h s scope hs, rfl, fun _ hx => hx, fun _ _ => rfl⟩

theorem Frame.trans (h : Frame s bound w w') (h' : Frame s bound w' w'') :
    Frame s bound w w'' where
  others a scope hne ha := h'.others a scope hne (h.others a scope hne ha)
  own scope hs := by
    obtain ⟨scope', hs', hextends⟩ := h.own scope hs
    obtain ⟨scope'', hs'', hextends'⟩ := h'.own scope' hs'
    refine ⟨scope'', hs'', hextends'.outer.trans hextends.outer, ?_, ?_⟩
    · exact fun x hx => hextends'.names x (hextends.names x hx)
    · exact fun x hx => (hextends'.same x hx).trans (hextends.same x hx)

/-- A scope that is new may be written at will. -/
theorem Keeps.trans_frame (h : w.Keeps w') (hs : w.scopes[s]? = none)
    (h' : Frame s bound w' w'') : w.Keeps w'' := by
  intro a scope ha
  refine h'.others a scope ?_ (h a scope ha)
  rintro rfl
  rw [hs] at ha
  cases ha

/-- Binding a name in a scope stays in the frame of that scope. -/
theorem frame_set {x : String} (hx : bound x) (o : Outcome) : Frame s bound w (w.set s x o) where
  others a scope hne ha := by
    rw [World.set, Array.getElem?_modify, if_neg (Ne.symm hne), ha]
  own scope hs := by
    refine ⟨scope.set x o, ?_, rfl, ?_, ?_⟩
    · rw [World.set, Array.getElem?_modify, if_pos rfl, hs]
      rfl
    · intro y hy
      rw [Scope.get?_set]
      split
      · rfl
      · exact hy
    · intro y hy
      rw [Scope.get?_set, if_neg]
      rintro rfl
      exact hy hx

/-- Making a scope changes none that there was. -/
theorem keeps_newScope {outer : Option ScopeId} : w.Keeps (w.newScope outer).2 := by
  intro a scope ha
  obtain ⟨hlt, -⟩ := Array.getElem?_eq_some_iff.1 ha
  rw [World.newScope, Array.getElem?_push, if_neg (by omega), ha]

theorem keeps_enclose : w.Keeps (w.enclose s).2 :=
  keeps_newScope

end World

/-! ### Evaluation in a frame -/

/-- The promise to change nothing out of the frame of a scope. -/
def Promise.frame (s : ScopeId) (bound : String → Prop) : Promise where
  holds _ := True
  changes := World.Frame s bound
  value _ _ := True
  exit _ _ := True
  changes_refl w := (World.Keeps.refl w).frame
  changes_trans := World.Frame.trans
  value_of_changes _ h := h

/-- Whatever comes of a computation, a frame has nothing to say of it. -/
theorem Promise.yields_frame {s : ScopeId} {bound : String → Prop} (w : World)
    (r : Except Exit Value) : (Promise.frame s bound).Yields (fun _ _ => True) w r := by
  cases r <;> trivial

/-- Calls leave all scopes as they were. -/
def CallsKeep (call : Calls) : Prop :=
  ∀ c vs w r w', call c vs w = some (r, w') → w.Keeps w'

/-- The call of any value leaves all scopes as they were, if those of closures do. -/
theorem Eval.apply_keeps_scopes {call : Calls} (h : CallsKeep call) {f : Value} {vs : List Value}
    {w w' : World} {r : Except Exit Value} (hr : Eval.apply call f vs w = some (r, w')) :
    w.Keeps w' := by
  cases f with
  | function c =>
      simp only [Eval.apply] at hr
      split at hr
      · exact h c vs w r w' hr
      · obtain ⟨-, rfl⟩ := Prod.mk.inj (Option.some.inj hr)
        exact .refl w
  | integer n | boolean b | null =>
      obtain ⟨-, rfl⟩ := Prod.mk.inj (Option.some.inj hr)
      exact .refl w

/-- The steps of evaluation in a scope keep to its frame. -/
theorem Promise.grants_frame {call : Calls} (h : CallsKeep call) (s : ScopeId)
    (bound : String → Prop) : (Promise.frame s bound).Grants call s bound where
  plain _ _ _ := trivial
  lookup w x :=
    .of_eq (Eval.lookup_apply s x w) fun _ =>
      ⟨trivial, (World.Keeps.refl w).frame, Promise.yields_frame w _⟩
  assign w x v hx _ :=
    .of_eq (Eval.assign_apply s x v w) fun _ => ⟨trivial, World.frame_set hx _, trivial⟩
  closure w literal :=
    .of_eq (Eval.closure_apply literal s w) fun _ =>
      ⟨trivial, World.Keeps.frame fun _ _ h => h, trivial⟩
  error _ _ := trivial
  returned _ _ _ := trivial
  call _ _ _ _ _ := fun _ r w' hr =>
    ⟨trivial, (Eval.apply_keeps_scopes h hr).frame, Promise.yields_frame w' r⟩

/-! ### Calls and nodes -/

/-- **A call leaves all scopes as they were**, however deep the calls in it nest. -/
theorem Closure.call_keeps (depth : Nat) : CallsKeep (Closure.call depth) := by
  induction depth with
  | zero => intro c vs w r w' h; cases h
  | succ depth ih =>
      intro c vs w r w' h
      rw [Closure.call_succ] at h
      have hnew : w.scopes[(w.enclose c.scope).1]? = none := by
        simp [World.enclose, World.newScope]
      -- the call may write its own scope at will, and that scope is new
      have hgrants := Promise.grants_frame ih (w.enclose c.scope).1 fun _ => True
      have henter := Closure.enter_keeps _ hgrants
        (fun w o _ => Promise.yields_frame w o.release) (fun _ _ h => h) c vs (w.enclose c.scope).2
        fun _ _ => trivial
      obtain ⟨-, hframe, -⟩ := henter trivial r w' h
      exact World.keeps_enclose.trans_frame hnew hframe

/-- A run of a node stays in the frame of its scope and of the names that the node binds. -/
theorem Node.run_frame {depth : Nat} {s : ScopeId} {n : Node} {w w' : World}
    {o : Option Outcome} (h : n.run depth s w = some (o, w')) :
    World.Frame s (· ∈ n.bound) w w' := by
  have hgrants := Promise.grants_frame (Closure.call_keeps depth) s (· ∈ n.bound)
  obtain ⟨-, hframe, -⟩ := Node.run_keeps hgrants (fun _ hx => hx) trivial h
  exact hframe

/-- **Evaluation only writes the scope it runs in.**  A run of any node leaves all other scopes as
they were; its own scope keeps its outer scope and all names, and only names that the node binds may
be bound to something else.  The call of any value leaves all scopes as they were. -/
theorem World.writes_own_scope (depth : Nat) (w w' : World) :
    (∀ (n : Node) (s : ScopeId) (o : Option Outcome), n.run depth s w = some (o, w') →
      (∀ (a : ScopeId) (scope : Scope), a ≠ s → w.scopes[a]? = some scope →
        w'.scopes[a]? = some scope) ∧
      ∀ scope, w.scopes[s]? = some scope → ∃ scope', w'.scopes[s]? = some scope' ∧
        scope'.outer = scope.outer ∧
        (∀ x, (scope.get? x).isSome → (scope'.get? x).isSome) ∧
        ∀ x, scope'.get? x ≠ scope.get? x → x ∈ n.bound) ∧
    ∀ (f : Value) (args : List Value) (r : Except Exit Value),
      Eval.apply (Closure.call depth) f args w = some (r, w') →
      ∀ (a : ScopeId) (scope : Scope), w.scopes[a]? = some scope → w'.scopes[a]? = some scope := by
  refine ⟨fun n s o h => ?_, fun f args r h => ?_⟩
  · obtain ⟨hothers, hown⟩ := Node.run_frame h
    refine ⟨hothers, fun scope hs => ?_⟩
    obtain ⟨scope', hs', houter, hnames, hsame⟩ := hown scope hs
    refine ⟨scope', hs', houter, hnames, fun x hx => ?_⟩
    exact Decidable.byContradiction fun hbound => hx (hsame x hbound)
  · exact Eval.apply_keeps_scopes (Closure.call_keeps depth) h

/-- The function `fn(x) { let y = x }`, whatever its tokens. -/
def Function.shadowing : Function :=
  ⟨⟨.kwFn, "fn", .start⟩, [⟨⟨.identifier, "x", .start⟩, "x"⟩],
    ⟨⟨.braceLeft, "\x7b", .start⟩, [.bind ⟨.kwLet, "let", .start⟩
      ⟨⟨.identifier, "y", .start⟩, "y"⟩ (.ident ⟨⟨.identifier, "x", .start⟩, "x"⟩)]⟩⟩

/-- The world with one scope, in which `y` is 7. -/
def World.sevenY : World :=
  ⟨#[⟨[("y", .value (.integer 7))], none⟩], 1⟩

/-- A function that binds `y` leaves the `y` around it alone: where it is written and called, and
where it is only called. -/
theorem World.writes_own_scope_shadowing :
    (∃ o w' scope', (Node.expr (.call ⟨.parenLeft, "(", .start⟩
        (.function Function.shadowing.token Function.shadowing.parameters Function.shadowing.body)
        [.boolean ⟨.kwTrue, "true", .start⟩ true])).run 1 0 World.sevenY = some (o, w') ∧
      w'.scopes[0]? = some scope' ∧ scope'.get? "y" = some (.value (.integer 7))) ∧
    ∃ r w', Eval.apply (Closure.call 1) (.function ⟨0, Function.shadowing, 0⟩) [.boolean true]
        World.sevenY = some (r, w') ∧
      w'.scopes[0]? = some ⟨[("y", .value (.integer 7))], none⟩ := by
  constructor
  · obtain ⟨⟨o, w'⟩, h⟩ := Option.isSome_iff_exists.1 (show ((Node.expr (.call
      ⟨.parenLeft, "(", .start⟩ (.function Function.shadowing.token Function.shadowing.parameters
        Function.shadowing.body) [.boolean ⟨.kwTrue, "true", .start⟩ true])).run 1 0
        World.sevenY).isSome = true by decide +kernel)
    obtain ⟨-, hown⟩ := (World.writes_own_scope 1 World.sevenY w').1 _ 0 o h
    obtain ⟨scope', hs, -, -, hchanged⟩ := hown _ rfl
    refine ⟨o, w', scope', h, hs, ?_⟩
    by_cases hy : scope'.get? "y" = (⟨[("y", .value (.integer 7))], none⟩ : Scope).get? "y"
    · exact hy
    · exact absurd (hchanged "y" hy) List.not_mem_nil
  · obtain ⟨⟨r, w'⟩, h⟩ := Option.isSome_iff_exists.1 (show (Eval.apply (Closure.call 1)
      (.function ⟨0, Function.shadowing, 0⟩) [.boolean true] World.sevenY).isSome = true
      by decide +kernel)
    exact ⟨r, w', h, (World.writes_own_scope 1 World.sevenY w').2 _ _ r h 0 _ rfl⟩

end LetFn
