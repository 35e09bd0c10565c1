/-
**A return in tail position is redundant.**

The last statement of the body of a function has the last word: its value is what comes of the call,
and so is what it returns.  If the statement is a conditional, the same holds of the last statement
of the branch that is taken, and so on inward.  These statements are in *tail position*, and there
it makes no difference whether a value is returned or merely left: the one comes to the call as the
value of the body, the other as a pending return, and the call makes the same of both.

Main definitions:

* `LetFn.Block.TailEq`, `LetFn.Stmt.TailEq`, `LetFn.Expr.TailEq` — **the same but for returns in
  tail position**;
* `LetFn.Eval.settle` — what a call makes of its body.

Main results:

* `LetFn.Eval.catchReturn_bind_congr` — what is done last decides what a call makes of it;
* `LetFn.Block.TailEq.settle_eval` — a call makes the same of bodies that are the same but for
  returns in tail position;
* `LetFn.Eval.apply_of_tailEq` — **calls of functions that are the same but for returns in tail
  position are the same**.
-/

import LetFn.Proofs.Eval.Promise

set_option relaxedAutoImplicit false
set_option autoImplicit false

namespace LetFn

/-! ### Tail position -/

mutual

/-- **The same statement but for returns in tail position**: the value of the statement may be
returned in the one and left in the other. -/
inductive Stmt.TailEq : Stmt → Stmt → Prop
  | refl (st : Stmt) : Stmt.TailEq st st
  | expr {t : Token} {e e' : Expr} : Expr.TailEq e e' → Stmt.TailEq (.expr t e) (.expr t e')
  | addReturn {t t' : Token} {e e' : Expr} :
      Expr.TailEq e e' → Stmt.TailEq (.expr t e) (.returns t' e')
  | dropReturn {t t' : Token} {e e' : Expr} :
      Expr.TailEq e e' → Stmt.TailEq (.returns t e) (.expr t' e')

/-- The same expression but for returns in tail position, which there are in the branches of a
conditional. -/
inductive Expr.TailEq : Expr → Expr → Prop
  | refl (e : Expr) : Expr.TailEq e e
  | ifThen {t : Token} {c : Expr} {yes yes' : Block} :
      Block.TailEq yes yes' → Expr.TailEq (.ifElse t c yes none) (.ifElse t c yes' none)
  | ifElse {t : Token} {c : Expr} {yes yes' no no' : Block} :
      Block.TailEq yes yes' → Block.TailEq no no' →
      Expr.TailEq (.ifElse t c yes (some no)) (.ifElse t c yes' (some no'))

/-- **The same block but for returns in tail position**: the last statement is in tail position. -/
inductive Block.TailEq : Block → Block → Prop
  | refl (b : Block) : Block.TailEq b b
  | last {t : Token} {sts : List Stmt} {st st' : Stmt} :
      Stmt.TailEq st st' → Block.TailEq ⟨t, sts ++ [st]⟩ ⟨t, sts ++ [st']⟩

end

/-! ### What a call makes of its body -/

namespace Eval

/-- **What a call makes of its body**: it takes a pending return, and a body without a value is
worth null. -/
def settle (body : Eval (Option Value)) : Eval Value :=
  catchReturn do return (← body).getD .null

/-- **What is done last decides what a call makes of it.** -/
theorem catchReturn_bind_congr {α : Type} {x : Eval α} {f g : α → Eval Value}
    (h : ∀ a, catchReturn (f a) = catchReturn (g a)) :
    catchReturn (x >>= f) = catchReturn (x >>= g) := by
  funext w
  rw [catchReturn_apply, catchReturn_apply, bind_apply, bind_apply]
  cases x w with
  | none => rfl
  | some r =>
      obtain ⟨e | a, w'⟩ := r
      · rfl
      · have ha := congrFun (h a) w'
        rwa [catchReturn_apply, catchReturn_apply] at ha

theorem settle_bind_congr {α : Type} {x : Eval α} {f g : α → Eval (Option Value)}
    (h : ∀ a, settle (f a) = settle (g a)) : settle (x >>= f) = settle (x >>= g) := by
  rw [settle, settle, bind_assoc, bind_assoc]
  exact catchReturn_bind_congr h

end Eval

section Settle

variable {call : Calls} {s : ScopeId}

/-- The last statement is evaluated after the others, whatever came of them. -/
theorem Stmt.evalAll_append_singleton (last : Option Value) (sts : List Stmt) (st : Stmt) :
    Stmt.evalAll call s last (sts ++ [st]) =
      (Stmt.evalAll call s last sts >>= fun _ => st.eval call s) := by
  induction sts generalizing last with
  | nil =>
      change (st.eval call s >>= pure) = (pure last >>= fun _ => st.eval call s)
      rw [bind_pure, pure_bind]
  | cons x sts ih =>
      change (x.eval call s >>= fun v => Stmt.evalAll call s v (sts ++ [st])) =
        ((x.eval call s >>= fun v => Stmt.evalAll call s v sts) >>= fun _ => st.eval call s)
      rw [bind_assoc]
      exact congrArg _ (funext ih)

/-- What a call makes of a value that is left. -/
theorem Stmt.settle_eval_expr (t : Token) (e : Expr) :
    Eval.settle ((Stmt.expr t e).eval call s) = Eval.catchReturn (e.eval call s) := by
  change Eval.catchReturn ((e.eval call s >>= fun v => pure (some v)) >>= fun o =>
    pure (o.getD .null)) = _
  rw [bind_assoc]
  exact congrArg Eval.catchReturn (bind_pure (e.eval call s))

/-- **A call makes of a value that is returned what it makes of one that is left.** -/
theorem Stmt.settle_eval_returns (t : Token) (e : Expr) :
    Eval.settle ((Stmt.returns t e).eval call s) = Eval.catchReturn (e.eval call s) := by
  change Eval.catchReturn ((e.eval call s >>= fun v => throw (.returned (.value v))) >>=
    fun (o : Option Value) => pure (o.getD .null)) = _
  rw [bind_assoc]
  refine Eq.trans ?_ (congrArg Eval.catchReturn (bind_pure (e.eval call s)))
  exact Eval.catchReturn_bind_congr fun v => rfl

mutual

/-- A call makes the same of statements that are the same but for returns in tail position. -/
theorem Stmt.TailEq.settle_eval {st st' : Stmt} :
    st.TailEq st' → Eval.settle (st.eval call s) = Eval.settle (st'.eval call s)
  | .refl _ => rfl
  | .expr h => by rw [Stmt.settle_eval_expr, Stmt.settle_eval_expr, h.catchReturn_eval]
  | .addReturn h => by rw [Stmt.settle_eval_expr, Stmt.settle_eval_returns, h.catchReturn_eval]
  | .dropReturn h => by rw [Stmt.settle_eval_returns, Stmt.settle_eval_expr, h.catchReturn_eval]

/-- A call makes the same of expressions that are the same but for returns in tail position. -/
theorem Expr.TailEq.catchReturn_eval {e e' : Expr} :
    e.TailEq e' → Eval.catchReturn (e.eval call s) = Eval.catchReturn (e'.eval call s)
  | .refl _ => rfl
  | .ifThen hyes => by
    refine Eval.catchReturn_bind_congr fun v => ?_
    cases v.truthy with
    | true => exact hyes.settle_eval
    | false => rfl
  | .ifElse hyes hno => by
    refine Eval.catchReturn_bind_congr fun v => ?_
    cases v.truthy with
    | true => exact hyes.settle_eval
    | false => exact hno.settle_eval

/-- **A call makes the same of bodies that are the same but for returns in tail position.** -/
theorem Block.TailEq.settle_eval {b b' : Block} :
    b.TailEq b' → Eval.settle (b.eval call s) = Eval.settle (b'.eval call s)
  | .refl _ => rfl
  | .last h => by
    change Eval.settle (Stmt.evalAll call s none _) = Eval.settle (Stmt.evalAll call s none _)
    rw [Stmt.evalAll_append_singleton, Stmt.evalAll_append_singleton]
    exact Eval.settle_bind_congr fun _ => h.settle_eval

end

end Settle

/-! ### Calls -/

/-- **A return in tail position is redundant.**  Calls of two functions with the same parameters and
the same captured scope, whose bodies are the same but for returns in tail position, are the same:
with any arguments and in any world, and however deep calls may nest, either both come to an end or
neither does, and they come to the same end in the same world. -/
theorem Eval.apply_of_tailEq (depth : Nat) {body body' : Block} (h : body.TailEq body')
    (id id' : Nat) (t t' : Token) (xs : List Ident) (s : ScopeId) (args : List Value) (w : World) :
    Eval.apply (Closure.call depth) (.function ⟨id, ⟨t, xs, body⟩, s⟩) args w =
      Eval.apply (Closure.call depth) (.function ⟨id', ⟨t', xs, body'⟩, s⟩) args w := by
  cases depth with
  | zero => rfl
  | succ depth =>
      simp only [Eval.apply]
      split
      · rw [Closure.call_succ, Closure.call_succ, Closure.enter, Closure.enter]
        exact congrFun (congrArg _ (funext fun _ => h.settle_eval)) _
      · rfl

/-- The expression `if (x) <yes> else <no>`, whatever its tokens. -/
def Expr.choice (yes no : Stmt) : Expr :=
  have brace : Token := ⟨.braceLeft, "\x7b", .start⟩
  .ifElse ⟨.kwIf, "if", .start⟩ (.ident ⟨⟨.identifier, "x", .start⟩, "x"⟩) ⟨brace, [yes]⟩
    (some ⟨brace, [no]⟩)

/-- The statement `n`. -/
def Stmt.left (n : Int64) : Stmt :=
  .expr ⟨.integer, "", .start⟩ (.integer ⟨.integer, "", .start⟩ n)

/-- The statement `return n`. -/
def Stmt.returned (n : Int64) : Stmt :=
  .returns ⟨.kwReturn, "return", .start⟩ (.integer ⟨.integer, "", .start⟩ n)

/-- The body `{ if (x) { return 1 } else { 2 } }`. -/
def Block.leaving : Block :=
  ⟨⟨.braceLeft, "\x7b", .start⟩, [.expr ⟨.kwIf, "if", .start⟩ (.choice (.returned 1) (.left 2))]⟩

/-- The body `{ return if (x) { 1 } else { return 2 } }`. -/
def Block.returning : Block :=
  ⟨⟨.braceLeft, "\x7b", .start⟩,
    [.returns ⟨.kwReturn, "return", .start⟩ (.choice (.left 1) (.returned 2))]⟩

/-- Whether the call of a function of `x` with the body comes to the integer `n`. -/
def Block.comesTo (b : Block) (x : Bool) (n : Int64) : Option Bool :=
  (Eval.apply (Closure.call 1) (.function ⟨0, ⟨⟨.kwFn, "fn", .start⟩,
    [⟨⟨.identifier, "x", .start⟩, "x"⟩], b⟩, 0⟩) [.boolean x] World.empty.newGlobal.2).map fun r =>
      r.1.toOption.any (Value.equals (.integer n))

/-- The two bodies differ in every return, and calls come to the same in either branch. -/
theorem Eval.apply_of_tailEq_choice :
    Block.leaving.TailEq Block.returning ∧
    Block.returning.comesTo true 1 = some true ∧ Block.returning.comesTo false 2 = some true := by
  have hyes : Block.TailEq ⟨⟨.braceLeft, "\x7b", .start⟩, [.returned 1]⟩
      ⟨⟨.braceLeft, "\x7b", .start⟩, [.left 1]⟩ :=
    @Block.TailEq.last _ [] _ _ (.dropReturn (.refl _))
  have hno : Block.TailEq ⟨⟨.braceLeft, "\x7b", .start⟩, [.left 2]⟩
      ⟨⟨.braceLeft, "\x7b", .start⟩, [.returned 2]⟩ :=
    @Block.TailEq.last _ [] _ _ (.addReturn (.refl _))
  have htail : Block.leaving.TailEq Block.returning :=
    @Block.TailEq.last _ [] _ _ (.addReturn (.ifElse hyes hno))
  refine ⟨htail, ?_, ?_⟩
  · rw [Block.comesTo, ← Eval.apply_of_tailEq 1 htail 0 0 ⟨.kwFn, "fn", .start⟩]
    decide +kernel
  · rw [Block.comesTo, ← Eval.apply_of_tailEq 1 htail 0 0 ⟨.kwFn, "fn", .start⟩]
    decide +kernel

end LetFn
