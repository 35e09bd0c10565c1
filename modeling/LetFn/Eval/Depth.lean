/-
**Deeper calls change no result.**

How deep calls may nest decides only whether there is a result.  A computation that has one when
calls may nest to some depth has the same one when they may nest deeper, so it makes sense to speak
of the result of a program without naming a depth.

Main definitions:

* `LetFn.Eval.Within` — one computation has all the results of another.

Main results:

* `LetFn.Expr.eval_within`, `LetFn.Stmt.eval_within`, `LetFn.Block.eval_within` — a node evaluated
  with better calls has all the results it had;
* `LetFn.Closure.call_within` — **a call that may nest deeper has all the results it had**.
-/

import LetFn.Eval.Basic

set_option relaxedAutoImplicit false
set_option autoImplicit false

namespace LetFn

/-! ### Refinement -/

/-- The computation `y` has all the results that `x` has. -/
def Eval.Within {α : Type} (x y : Eval α) : Prop :=
  ∀ w r, x w = some r → y w = some r

namespace Eval.Within

/-- A computation has its own results. -/
theorem refl {α : Type} (x : Eval α) : Within x x :=
  fun _ _ h => h

/-- What is had through a computation between is had. -/
theorem trans {α : Type} {x y z : Eval α} (hxy : Within x y) (hyz : Within y z) : Within x z :=
  fun w r h => hyz w r (hxy w r h)

/-- A sequence has all the results that its parts have. -/
theorem bind {α β : Type} {x y : Eval α} {f g : α → Eval β} (hx : Within x y)
    (hf : ∀ a, Within (f a) (g a)) : Within (x >>= f) (y >>= g) := by
  intro w r h
  change Option.bind (x w) _ = some r at h
  change Option.bind (y w) _ = some r
  cases hxw : x w with
  | none => simp [hxw] at h
  | some p =>
    rw [hx w p hxw]
    rw [hxw] at h
    obtain ⟨a | e, w'⟩ := p
    · exact h
    · exact hf e w' r h

/-- Taking a pending return keeps all results. -/
theorem catchReturn {x y : Eval Value} (h : Within x y) :
    Within (Eval.catchReturn x) (Eval.catchReturn y) := by
  intro w r hr
  change Option.bind (x w) _ = some r at hr
  change Option.bind (y w) _ = some r
  cases hxw : x w with
  | none => simp [hxw] at hr
  | some p =>
    rw [h w p hxw]
    rw [hxw] at hr
    exact hr

end Eval.Within

/-- Calls that have all the results of other calls. -/
def CallsWithin (call call' : Calls) : Prop :=
  ∀ c vs, (call c vs).Within (call' c vs)

/-- The call of any value has all the results it had. -/
theorem Eval.apply_within {call call' : Calls}
    (h : CallsWithin call call') (f : Value) (vs : List Value) :
    (Eval.apply call f vs).Within (Eval.apply call' f vs) := by
  unfold Eval.apply
  split
  · split
    · exact h _ _
    · exact .refl _
  · exact .refl _

/-! ### The evaluator -/

mutual

/-- An expression evaluated with better calls has all the results it had. -/
theorem Expr.eval_within {call call' : Calls} (h : CallsWithin call call')
    (s : ScopeId) : (e : Expr) → (e.eval call s).Within (e.eval call' s)
  | .ident _ => .refl _
  | .integer _ _ => .refl _
  | .boolean _ _ => .refl _
  | .unary _ e => (Expr.eval_within h s e).bind fun _ => .refl _
  | .binary l _ r =>
    (Expr.eval_within h s l).bind fun _ => (Expr.eval_within h s r).bind fun _ => .refl _
  | .ifElse _ c yes none => (Expr.eval_within h s c).bind fun v => by
    cases v.truthy
    · exact .refl _
    · exact (Block.eval_within h s yes).bind fun _ => .refl _
  | .ifElse _ c yes (some no) => (Expr.eval_within h s c).bind fun v => by
    cases v.truthy
    · exact (Block.eval_within h s no).bind fun _ => .refl _
    · exact (Block.eval_within h s yes).bind fun _ => .refl _
  | .function _ _ _ => .refl _
  | .call _ f args =>
    (Expr.eval_within h s f).bind fun v =>
      (Expr.evalAll_within h s args).bind fun vs => Eval.apply_within h v vs
  | .error _ _ _ => .refl _

/-- Arguments evaluated with better calls have all the results they had. -/
theorem Expr.evalAll_within {call call' : Calls} (h : CallsWithin call call')
    (s : ScopeId) : (es : List Expr) → (Expr.evalAll call s es).Within (Expr.evalAll call' s es)
  | [] => .refl _
  | e :: es =>
    (Expr.eval_within h s e).bind fun _ => (Expr.evalAll_within h s es).bind fun _ => .refl _

/-- A statement evaluated with better calls has all the results it had. -/
theorem Stmt.eval_within {call call' : Calls} (h : CallsWithin call call')
    (s : ScopeId) : (st : Stmt) → (st.eval call s).Within (st.eval call' s)
  | .bind _ _ e => (Expr.eval_within h s e).bind fun _ => .refl _
  | .returns _ e => (Expr.eval_within h s e).bind fun _ => .refl _
  | .expr _ e => (Expr.eval_within h s e).bind fun _ => .refl _
  | .block b => Block.eval_within h s b
  | .error _ => .refl _

/-- Statements evaluated with better calls have all the results they had. -/
theorem Stmt.evalAll_within {call call' : Calls} (h : CallsWithin call call')
    (s : ScopeId) (last : Option Value) :
    (sts : List Stmt) → (Stmt.evalAll call s last sts).Within (Stmt.evalAll call' s last sts)
  | [] => .refl _
  | st :: sts => (Stmt.eval_within h s st).bind fun v => Stmt.evalAll_within h s v sts

/-- A block evaluated with better calls has all the results it had. -/
theorem Block.eval_within {call call' : Calls} (h : CallsWithin call call')
    (s : ScopeId) : (b : Block) → (b.eval call s).Within (b.eval call' s)
  | ⟨_, sts⟩ => Stmt.evalAll_within h s none sts

end

/-! ### Calls -/

/-- A call that may nest one deeper has all the results it had. -/
theorem Closure.call_within_succ (depth : Nat) :
    CallsWithin (Closure.call depth) (Closure.call (depth + 1)) := by
  induction depth with
  | zero => intro c vs w r h; cases h
  | succ depth ih =>
    intro c vs
    exact .bind (.refl _) fun s => .bind (.refl _) fun _ =>
      .catchReturn ((Block.eval_within ih s _).bind fun _ => .refl _)

/-- **A call that may nest deeper has all the results it had.** -/
theorem Closure.call_within {depth depth' : Nat} (h : depth ≤ depth') :
    CallsWithin (Closure.call depth) (Closure.call depth') := by
  induction h with
  | refl => exact fun c vs => .refl _
  | step _ ih => exact fun c vs => (ih c vs).trans (Closure.call_within_succ _ c vs)

end LetFn
