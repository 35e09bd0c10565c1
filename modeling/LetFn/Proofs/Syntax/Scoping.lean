/-
**Well-scoped programs.**

Which names a program may use where can be read off its text.  A name may be used if it was bound
before, in the same list of statements or around it; a function may use its parameters besides, and
its own name if it is bound to one.  What is bound in a branch of a conditional counts in that
branch alone: whether it is bound afterwards depends on which branch is taken.

Well-scopedness is relative to a set of names that may be used from the start.  If this is the set
of all names, then it says no more than that nothing in the program is broken.

Main definitions:

* `LetFn.Expr.Scoped`, `LetFn.Stmt.Scoped`, `LetFn.Block.Scoped`, `LetFn.Program.Scoped` — **the
  names that are used may be used**;
* `LetFn.Stmt.declared` — the names that may be used after a statement.

Main results:

* `LetFn.Expr.Scoped.mono` — what is well-scoped is so where more names may be used;
* `LetFn.Program.scoped_of_whole` — a program in which nothing is broken is well-scoped where all
  names may be used.
-/

import Mathlib.Data.Set.Insert
import LetFn.Proofs.Syntax.Nodes

set_option relaxedAutoImplicit false
set_option autoImplicit false

namespace LetFn

/-! ### Well-scopedness -/

/-- The names of parameters. -/
def Ident.names (xs : List Ident) : Set String :=
  {y | ∃ x ∈ xs, x.name = y}

/-- The names that may be used in an expression that `x` is bound to: a function may use its own. -/
def bindingScope (G : Set String) (x : String) : Expr → Set String
  | .function _ _ _ => insert x G
  | _ => G

/-- The names that may be used after a statement and not before it. -/
def Stmt.declared : Stmt → Set String
  | .bind _ x _ => {x.name}
  | _ => ∅

mutual

/-- **The names that are used in an expression may be used**, where those of `G` may. -/
def Expr.Scoped (G : Set String) : Expr → Prop
  | .ident x => x.name ∈ G
  | .integer _ _ => True
  | .boolean _ _ => True
  | .unary _ e => e.Scoped G
  | .binary l _ r => l.Scoped G ∧ r.Scoped G
  | .ifElse _ c yes none => c.Scoped G ∧ yes.Scoped G
  | .ifElse _ c yes (some no) => c.Scoped G ∧ yes.Scoped G ∧ no.Scoped G
  | .function _ xs body => body.Scoped (G ∪ Ident.names xs)
  | .call _ f es => f.Scoped G ∧ Expr.ScopedAll G es
  | .error _ _ _ => False

/-- The names that are used in several expressions may be used. -/
def Expr.ScopedAll (G : Set String) : List Expr → Prop
  | [] => True
  | e :: es => e.Scoped G ∧ Expr.ScopedAll G es

/-- The names that are used in a statement may be used. -/
def Stmt.Scoped (G : Set String) : Stmt → Prop
  | .bind _ x e => e.Scoped (bindingScope G x.name e)
  | .returns _ e => e.Scoped G
  | .expr _ e => e.Scoped G
  | .block b => b.Scoped G
  | .error _ => False

/-- The names that are used in several statements may be used: those that a statement binds may be
used in the statements after it. -/
def Stmt.ScopedAll (G : Set String) : List Stmt → Prop
  | [] => True
  | s :: ss => s.Scoped G ∧ Stmt.ScopedAll (G ∪ s.declared) ss

/-- The names that are used in a block may be used. -/
def Block.Scoped (G : Set String) : Block → Prop
  | ⟨_, ss⟩ => Stmt.ScopedAll G ss

end

/-- The names that are used in the body of a function may be used, its parameters among them. -/
def Function.Scoped (G : Set String) (f : Function) : Prop :=
  f.body.Scoped (G ∪ Ident.names f.parameters)

/-- The names that are used in a program may be used. -/
def Program.Scoped (G : Set String) (p : Program) : Prop :=
  Stmt.ScopedAll G p.statements

/-! ### More names -/

theorem bindingScope_mono {G H : Set String} (h : G ⊆ H) (x : String) (e : Expr) :
    bindingScope G x e ⊆ bindingScope H x e := by
  cases e with
  | function t xs body => exact Set.insert_subset_insert h
  | ident | integer | boolean | unary | binary | ifElse | call | error => exact h

/-- Only a function may use the name that it is bound to. -/
theorem Expr.function_or_scoped {G : Set String} {x : String} {e : Expr}
    (h : e.Scoped (bindingScope G x e)) :
    (∃ t xs body, e = .function t xs body) ∨ e.Scoped G := by
  cases e with
  | function t xs body => exact .inl ⟨t, xs, body, rfl⟩
  | ident | integer | boolean | unary | binary | ifElse | call | error => exact .inr h

mutual

/-- **What is well-scoped is so where more names may be used.** -/
theorem Expr.Scoped.mono {G H : Set String} (h : G ⊆ H) :
    (e : Expr) → e.Scoped G → e.Scoped H
  | .ident _ => fun he => h he
  | .integer _ _ => fun _ => trivial
  | .boolean _ _ => fun _ => trivial
  | .unary _ e => Expr.Scoped.mono h e
  | .binary l _ r => And.imp (Expr.Scoped.mono h l) (Expr.Scoped.mono h r)
  | .ifElse _ c yes none => And.imp (Expr.Scoped.mono h c) (Block.Scoped.mono h yes)
  | .ifElse _ c yes (some no) =>
    And.imp (Expr.Scoped.mono h c) (And.imp (Block.Scoped.mono h yes) (Block.Scoped.mono h no))
  | .function _ _ body => Block.Scoped.mono (Set.union_subset_union_left _ h) body
  | .call _ f es => And.imp (Expr.Scoped.mono h f) (Expr.ScopedAll.mono h es)
  | .error _ _ _ => False.elim

theorem Expr.ScopedAll.mono {G H : Set String} (h : G ⊆ H) :
    (es : List Expr) → Expr.ScopedAll G es → Expr.ScopedAll H es
  | [] => fun _ => trivial
  | e :: es => And.imp (Expr.Scoped.mono h e) (Expr.ScopedAll.mono h es)

theorem Stmt.Scoped.mono {G H : Set String} (h : G ⊆ H) :
    (s : Stmt) → s.Scoped G → s.Scoped H
  | .bind _ x e => Expr.Scoped.mono (bindingScope_mono h x.name e) e
  | .returns _ e => Expr.Scoped.mono h e
  | .expr _ e => Expr.Scoped.mono h e
  | .block b => Block.Scoped.mono h b
  | .error _ => False.elim

theorem Stmt.ScopedAll.mono {G H : Set String} (h : G ⊆ H) :
    (ss : List Stmt) → Stmt.ScopedAll G ss → Stmt.ScopedAll H ss
  | [] => fun _ => trivial
  | s :: ss =>
    And.imp (Stmt.Scoped.mono h s) (Stmt.ScopedAll.mono (Set.union_subset_union_left _ h) ss)

theorem Block.Scoped.mono {G H : Set String} (h : G ⊆ H) :
    (b : Block) → b.Scoped G → b.Scoped H
  | ⟨_, ss⟩ => Stmt.ScopedAll.mono h ss

end

/-- Expressions are well-scoped one by one. -/
theorem Expr.scopedAll_append {G : Set String} {es es' : List Expr} :
    Expr.ScopedAll G (es ++ es') ↔ Expr.ScopedAll G es ∧ Expr.ScopedAll G es' := by
  induction es with
  | nil => exact (iff_of_eq (true_and _)).symm
  | cons e es ih => exact (and_congr_right' ih).trans and_assoc.symm

/-! ### All names -/

mutual

/-- Where all names may be used, an expression in which nothing is broken is well-scoped. -/
theorem Expr.scoped_of_whole {G : Set String} (hG : ∀ x, x ∈ G) :
    (e : Expr) → e.Every Node.Whole → e.Scoped G
  | .ident x, _ => hG x.name
  | .integer _ _, _ => trivial
  | .boolean _ _, _ => trivial
  | .unary _ e, he => Expr.scoped_of_whole hG e (Expr.every_unary.1 he).2
  | .binary l _ r, he => by
    obtain ⟨-, hl, hr⟩ := Expr.every_binary.1 he
    exact ⟨Expr.scoped_of_whole hG l hl, Expr.scoped_of_whole hG r hr⟩
  | .ifElse _ c yes none, he => by
    obtain ⟨-, hc, hyes⟩ := Expr.every_ifThen.1 he
    exact ⟨Expr.scoped_of_whole hG c hc, Block.scoped_of_whole hG yes hyes⟩
  | .ifElse _ c yes (some no), he => by
    obtain ⟨-, hc, hyes, hno⟩ := Expr.every_ifElse.1 he
    exact ⟨Expr.scoped_of_whole hG c hc, Block.scoped_of_whole hG yes hyes,
      Block.scoped_of_whole hG no hno⟩
  | .function _ _ body, he =>
    Block.scoped_of_whole (fun x => .inl (hG x)) body (Expr.every_function.1 he).2
  | .call _ f es, he => by
    obtain ⟨-, hf, hes⟩ := Expr.every_call.1 he
    exact ⟨Expr.scoped_of_whole hG f hf, Expr.scopedAll_of_whole hG es hes⟩
  | .error _ _ _, he => absurd trivial (Expr.every_error.1 he)

theorem Expr.scopedAll_of_whole {G : Set String} (hG : ∀ x, x ∈ G) :
    (es : List Expr) → (∀ e ∈ es, e.Every Node.Whole) → Expr.ScopedAll G es
  | [], _ => trivial
  | e :: es, hes => by
    rw [List.forall_mem_cons] at hes
    exact ⟨Expr.scoped_of_whole hG e hes.1, Expr.scopedAll_of_whole hG es hes.2⟩

theorem Stmt.scoped_of_whole {G : Set String} (hG : ∀ x, x ∈ G) :
    (s : Stmt) → s.Every Node.Whole → s.Scoped G
  | .bind _ x e, hs => by
    refine Expr.scoped_of_whole (fun y => ?_) e (Stmt.every_bind.1 hs).2
    cases e with
    | function t xs body => exact .inr (hG y)
    | ident | integer | boolean | unary | binary | ifElse | call | error => exact hG y
  | .returns _ e, hs => Expr.scoped_of_whole hG e (Stmt.every_returns.1 hs).2
  | .expr _ e, hs => Expr.scoped_of_whole hG e (Stmt.every_expr.1 hs).2
  | .block b, hs => Block.scoped_of_whole hG b (Stmt.every_block.1 hs).2
  | .error _, hs => absurd trivial (Stmt.every_error.1 hs)

theorem Stmt.scopedAll_of_whole {G : Set String} (hG : ∀ x, x ∈ G) :
    (ss : List Stmt) → (∀ s ∈ ss, s.Every Node.Whole) → Stmt.ScopedAll G ss
  | [], _ => trivial
  | s :: ss, hss => by
    rw [List.forall_mem_cons] at hss
    exact ⟨Stmt.scoped_of_whole hG s hss.1,
      Stmt.scopedAll_of_whole (fun x => .inl (hG x)) ss hss.2⟩

theorem Block.scoped_of_whole {G : Set String} (hG : ∀ x, x ∈ G) :
    (b : Block) → b.Every Node.Whole → b.Scoped G
  | ⟨_, ss⟩, hb => Stmt.scopedAll_of_whole hG ss (Block.every_mk.1 hb).2

end

/-- **A program in which nothing is broken is well-scoped where all names may be used.** -/
theorem Program.scoped_of_whole {p : Program} (h : ∀ s ∈ p.statements, s.Every Node.Whole) :
    p.Scoped Set.univ :=
  Stmt.scopedAll_of_whole Set.mem_univ p.statements h

end LetFn
