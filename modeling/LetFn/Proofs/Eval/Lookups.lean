/-
**No name is looked up in vain.**

At every moment in the course of a run of a well-scoped program, the node whose turn has come is
well-scoped where it is evaluated, wherever the function that it belongs to was made and whoever has
called it.  So if it is a name, the name is bound.  Only a function literal may use a name that is
not bound yet, its own; but to evaluate a literal is not to look at its body.

Main definitions:

* `LetFn.Node.Scoped` — the names that are used in a node may be used;
* `LetFn.Moment.Sound` — a moment in the course of a run of a well-scoped program.

Main results:

* `LetFn.Node.Part.sound` — **the parts of a node that is well-scoped are well-scoped when their
  turn comes**;
* `LetFn.Moment.Visits.sound` — so is whatever comes in the course of a run;
* `LetFn.Program.lookups_succeed` — **a well-scoped program looks up no name in vain**.
-/

import LetFn.Proofs.Eval.Course
import LetFn.Proofs.Eval.Scoping

set_option relaxedAutoImplicit false
set_option autoImplicit false

namespace LetFn

/-- The names that are used in a node may be used. -/
def Node.Scoped (G : Set String) : Node → Prop
  | .program p => p.Scoped G
  | .stmt st => st.Scoped G
  | .block b => b.Scoped G
  | .expr e => e.Scoped G

/-- **The node whose turn has come is well-scoped where it is evaluated**, in a sound world, unless
it is a function literal. -/
structure Moment.Sound (free : Set String) (n : ScopeId) (m : Moment) : Prop where
  holds : (Promise.sound free n m.scope).holds m.world
  node : m.node.IsLiteral ∨ m.node.Scoped (m.world.known free m.scope)

variable {free : Set String} {n : ScopeId} {call : Calls}

/-- When the statements before it have been evaluated, a statement of a well-scoped list is
well-scoped. -/
theorem Stmt.evalAll_prefix_scoped (h : CallsSound free n call) (s : ScopeId) {st : Stmt}
    {sts' : List Stmt} (sts : List Stmt) (last : Option Value) (w : World)
    (hsts : Stmt.ScopedAll (w.known free s) (sts ++ st :: sts')) :
    (Promise.sound free n s).Keeps w (Stmt.evalAll call s last sts)
      fun w' _ => st.Scoped (w'.known free s) := by
  induction sts generalizing last w with
  | nil => exact .pure hsts.1
  | cons u us ih =>
      refine (Stmt.eval_scoped h s u w hsts.1).bind fun o w' hw' ho => ih o w' ?_
      exact Stmt.ScopedAll.mono (Set.union_subset (hw'.known_subset free s) ho.2) _ hsts.2

/-- **The parts of a node that is well-scoped are well-scoped when their turn comes**, in the world
that the parts before them have left. -/
theorem Node.Part.sound (h : CallsSound free n call) {s : ScopeId} {node node' : Node}
    {w w' : World} {us : List Value} (hpart : node.Part call s w us node' w')
    (hw : (Promise.sound free n s).holds w) (hnode : node.Scoped (w.known free s)) :
    (Promise.sound free n s).holds w' ∧
      (node'.IsLiteral ∨ node'.Scoped (w'.known free s)) := by
  cases hpart with
  | operand | returned | value | block => exact ⟨hw, .inr hnode⟩
  | left => exact ⟨hw, .inr hnode.1⟩
  | callee => exact ⟨hw, .inr hnode.1⟩
  | @condition t c yes no =>
      cases no with
      | none => exact ⟨hw, .inr hnode.1⟩
      | some no => exact ⟨hw, .inr hnode.1⟩
  | @right l r _ _ _ _ hl =>
      obtain ⟨hw', hframe, -⟩ := Expr.eval_scoped h s l w hnode.1 hw _ _ hl
      exact ⟨hw', .inr (Expr.Scoped.mono (hframe.known_subset free s) r hnode.2)⟩
  | @consequence t c yes no _ _ _ hc _ =>
      cases no with
      | none =>
          obtain ⟨hw', hframe, -⟩ := Expr.eval_scoped h s c w hnode.1 hw _ _ hc
          exact ⟨hw', .inr (Block.Scoped.mono (hframe.known_subset free s) yes hnode.2)⟩
      | some no =>
          obtain ⟨hw', hframe, -⟩ := Expr.eval_scoped h s c w hnode.1 hw _ _ hc
          exact ⟨hw', .inr (Block.Scoped.mono (hframe.known_subset free s) yes hnode.2.1)⟩
  | @alternative t c yes no _ _ _ hc _ =>
      obtain ⟨hw', hframe, -⟩ := Expr.eval_scoped h s c w hnode.1 hw _ _ hc
      exact ⟨hw', .inr (Block.Scoped.mono (hframe.known_subset free s) no hnode.2.2)⟩
  | @argument t f e es es' _ w₁ _ _ _ hf hes =>
      obtain ⟨hw₁, hframe, -⟩ := Expr.eval_scoped h s f w hnode.1 hw _ _ hf
      obtain ⟨hbefore, he⟩ := Expr.scopedAll_append.1
        (Expr.ScopedAll.mono (hframe.known_subset free s) _ hnode.2)
      obtain ⟨hw₂, hframe', -⟩ := Expr.evalAll_scoped h s es w₁ hbefore hw₁ _ _ hes
      exact ⟨hw₂, .inr (Expr.Scoped.mono (hframe'.known_subset free s) e he.1)⟩
  | bound =>
      rcases Expr.function_or_scoped hnode with ⟨t, xs, body, rfl⟩ | he
      · exact ⟨hw, .inl ⟨t, xs, body, rfl⟩⟩
      · exact ⟨hw, .inr he⟩
  | ofBlock hsts | ofProgram hsts =>
      obtain ⟨hw', -, hst⟩ := Stmt.evalAll_prefix_scoped h s _ none w hnode hw _ _ hsts
      exact ⟨hw', .inr hst⟩

/-- **Whatever comes in the course of a run of what is well-scoped is well-scoped.** -/
theorem Moment.Visits.sound {m m' : Moment} (h : m.Visits m') (hm : m.Sound free n) :
    m'.Sound free n := by
  induction h with
  | refl => exact hm
  | part _ hpart ih =>
      rcases ih.node with ⟨t, xs, body, hliteral⟩ | hnode
      · -- a function literal has no parts
        obtain rfl := hliteral
        cases hpart
      · obtain ⟨hw, hnode'⟩ := hpart.sound (Closure.call_scoped free n _) ih.holds hnode
        exact ⟨hw, hnode'⟩
  | @body depth s _ us _ f es w w₁ w₂ _ c _ hf hes harity hassign ih =>
      rcases ih.node with ⟨t, xs, body, hliteral⟩ | hnode
      · cases hliteral
      · have hcalls := Closure.call_scoped free n (depth + 1)
        obtain ⟨hw₁, hframe, hc⟩ := Expr.eval_scoped hcalls s f w hnode.1 ih.holds _ _ hf
        obtain ⟨hw₂, hframe', hus⟩ := Expr.evalAll_scoped hcalls s es w₁
          (Expr.ScopedAll.mono (hframe.known_subset free s) es hnode.2) hw₁ _ _ hes
        have hc : c.Sound free n w₂ := (Promise.sound free n s).value_of_changes hframe' hc
        obtain ⟨hw₃, -, hbody⟩ := Closure.body_scoped hc harity hus
          (Closure.enclose_sound hc hw₂.1) _ _ hassign
        exact ⟨hw₃, .inr hbody⟩

/-- **A well-scoped program looks up no name in vain.**  Whatever functions it makes, stores, passes
on and calls later from elsewhere: whenever it is the turn of a name in the course of its run in a
new scope, the name is bound; and if the run comes to an end, it has not failed for a name that is
not. -/
theorem Program.lookups_succeed {p : Program} (hp : p.Scoped ∅) (depth : Nat) (w : World) :
    (∀ (m : Moment) (x : Ident),
      Moment.Visits ⟨depth, w.newGlobal.1, [], .program p, w.newGlobal.2⟩ m →
      m.node = .expr (.ident x) → (m.world.get? m.scope x.name).isSome) ∧
    ∀ (w' : World) (o : Option Outcome),
      p.run depth w.newGlobal.1 w.newGlobal.2 = some (o, w') →
      ∀ e, o = some (.error e) → ∀ x, e.message ≠ "identifier not found: " ++ x := by
  constructor
  · intro m x hm hx
    have hsound : m.Sound ∅ w.newGlobal.1 :=
      hm.sound ⟨World.newGlobal_sound ∅ w, .inr (hp.newGlobal w)⟩
    rcases hsound.node with ⟨t, xs, body, hliteral⟩ | hnode
    · rw [hx] at hliteral
      cases hliteral
    · rw [hx] at hnode
      exact hnode.resolve_left (Set.notMem_empty _)
  · rintro w' o h e rfl
    exact (Program.run_scoped hp h).message_ne_notFound

/-- The program `let f = fn(x) { if (x) { f(false) } else { x(x) } }; f(f)`, whatever its
tokens. -/
def Program.selfCall : Program :=
  have brace : Token := ⟨.braceLeft, "\x7b", .start⟩
  have paren : Token := ⟨.parenLeft, "(", .start⟩
  have f : Ident := ⟨⟨.identifier, "f", .start⟩, "f"⟩
  have x : Ident := ⟨⟨.identifier, "x", .start⟩, "x"⟩
  ⟨[.bind ⟨.kwLet, "let", .start⟩ f (.function ⟨.kwFn, "fn", .start⟩ [x]
      ⟨brace, [.expr ⟨.kwIf, "if", .start⟩ (.ifElse ⟨.kwIf, "if", .start⟩ (.ident x)
        ⟨brace, [.expr f.token (.call paren (.ident f) [.boolean ⟨.kwFalse, "false", .start⟩ false])]⟩
        (some ⟨brace, [.expr x.token (.call paren (.ident x) [.ident x])]⟩))]⟩),
    .expr f.token (.call paren (.ident f) [.ident f])]⟩

/-- A function that calls itself, and then calls its argument, knows all its names. -/
theorem Program.lookups_succeed_selfCall :
    Program.selfCall.Scoped ∅ ∧
    ∃ o w', Program.selfCall.run 2 World.empty.newGlobal.1 World.empty.newGlobal.2 =
        some (o, w') ∧
      ∀ e, o = some (.error e) → ∀ x, e.message ≠ "identifier not found: " ++ x := by
  have hscoped : Program.selfCall.Scoped ∅ := by
    simp [Program.selfCall, Program.Scoped, Stmt.ScopedAll, Stmt.Scoped, Expr.Scoped, Block.Scoped,
      Expr.ScopedAll, bindingScope, Stmt.declared, Ident.names]
  obtain ⟨⟨o, w'⟩, hrun⟩ := Option.isSome_iff_exists.1 (show (Program.selfCall.run 2
    World.empty.newGlobal.1 World.empty.newGlobal.2).isSome = true by decide +kernel)
  exact ⟨hscoped, o, w', hrun, (Program.lookups_succeed hscoped 2 World.empty).2 w' o hrun⟩

end LetFn
