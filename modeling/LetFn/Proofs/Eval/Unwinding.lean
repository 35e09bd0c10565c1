/-
**What unwinds abandons everything around it.**

An error or a pending return is the outcome not only of the node that it comes from, but of every
node around it, as far as the evaluation goes: nothing is evaluated any more, and the world stays as
it is.  A program takes a pending return, and so does the call whose body it leaves; an error leaves
calls as well.

Where a node stands in another one is said by the parts that are evaluated before it: a node stands
in a *context* if its turn comes in the course of the evaluation of the context, calls apart.  What
the context has behind the node plays no part in that.

Main definitions:

* `LetFn.Exit.outcome` — what unwinds, as an outcome;
* `LetFn.Node.Context` — **a node whose turn comes in the evaluation of another**;
* `LetFn.Node.Exits` — the evaluation of a node unwinds.

Main results:

* `LetFn.Node.Part.exits` — if a part unwinds when its turn has come, so does the node;
* `LetFn.Node.Context.exits` — what unwinds abandons the context;
* `LetFn.Moment.Visits.run_error` — **an error abandons everything around it**, calls included;
* `LetFn.Node.run_unwinds` — **what unwinds abandons everything around it**, down to the program or
  the body of the function.
-/

import LetFn.Proofs.Eval.Course

set_option relaxedAutoImplicit false
set_option autoImplicit false

namespace LetFn

/-! ### What unwinds -/

/-- What unwinds, as an outcome. -/
def Exit.outcome : Exit → Outcome
  | .returned o => .returned o
  | .error e => .error e

theorem Outcome.exists_exit {u : Outcome} (h : u.unwinds = true) : ∃ e : Exit, u = e.outcome := by
  cases u with
  | value v => cases h
  | returned o => exact ⟨.returned o, rfl⟩
  | error e => exact ⟨.error e, rfl⟩

theorem Outcome.ofExcept?_eq_outcome_iff {r : Except Exit (Option Value)} {e : Exit} :
    ofExcept? r = some e.outcome ↔ r = .error e := by
  rcases r with (_ | _) | (_ | v) <;> cases e <;> simp [ofExcept?, Exit.outcome]

/-- What is left of what unwinds when a call takes it. -/
theorem Eval.caught_error (e : Exit) : Eval.caught (.error e) = e.outcome.unwrap.release := by
  cases e <;> rfl

/-- **The evaluation of a node unwinds** with `e` and leaves the world `w'`. -/
def Node.Exits (call : Calls) (s : ScopeId) (n : Node) (w : World) (e : Exit) (w' : World) : Prop :=
  match n with
  | .program p => Stmt.evalAll call s none p.statements w = some (.error e, w')
  | .stmt st => st.eval call s w = some (.error e, w')
  | .block b => b.eval call s w = some (.error e, w')
  | .expr x => x.eval call s w = some (.error e, w')

section Runs

variable {depth : Nat} {s : ScopeId} {n : Node} {w w' : World} {e : Exit}

/-- What unwinds from a node that is no program is its outcome. -/
theorem Node.exits_iff (hn : ∀ p, n ≠ .program p) :
    n.Exits (Closure.call depth) s w e w' ↔ n.run depth s w = some (some e.outcome, w') := by
  cases n with
  | program p => exact absurd rfl (hn p)
  | stmt st =>
      change _ ↔ st.run depth s w = _
      simp only [Stmt.run_eq_some_iff, Outcome.ofExcept?_eq_outcome_iff, exists_eq_right]
      rfl
  | block b =>
      change _ ↔ b.run depth s w = _
      simp only [Block.run_eq_some_iff, Outcome.ofExcept?_eq_outcome_iff, exists_eq_right]
      rfl
  | expr x =>
      have hrelease : e.outcome.release = .error e := by cases e <;> rfl
      change _ ↔ (some <$> x.run depth s) w = _
      simp only [Run.map_eq_some_iff, Option.some_inj, exists_eq_right, Expr.run_eq_iff, hrelease]
      rfl

/-- A program takes a pending return, and nothing else. -/
theorem Program.run_of_exits {p : Program}
    (h : (Node.program p).Exits (Closure.call depth) s w e w') :
    p.run depth s w = some (some e.outcome.unwrap, w') :=
  Program.run_eq_some_iff.2 ⟨.error e, h, by cases e <;> rfl⟩

end Runs

/-! ### Part by part -/

section Parts

variable {call : Calls} {s : ScopeId} {w w' w'' : World} {e : Exit}

/-- No argument is evaluated after one that unwinds. -/
theorem Expr.evalAll_of_exits {es es' : List Expr} {x : Expr} {vs : List Value}
    (hes : Expr.evalAll call s es w = some (.ok vs, w'))
    (hx : (Node.expr x).Exits call s w' e w'') :
    Expr.evalAll call s (es ++ x :: es') w = some (.error e, w'') := by
  induction es generalizing w vs with
  | nil =>
      obtain ⟨-, rfl⟩ := Eval.pure_eq_ok_iff.1 hes
      exact Eval.bind_eq_of_error hx _
  | cons y es ih =>
      obtain ⟨v, w₁, hy, hes⟩ := Eval.bind_eq_ok_iff.1 hes
      obtain ⟨us, w₂, hus, hvs⟩ := Eval.bind_eq_ok_iff.1 hes
      obtain ⟨-, rfl⟩ := Eval.pure_eq_ok_iff.1 hvs
      exact (Eval.bind_eq_of_ok hy _).trans (Eval.bind_eq_of_error (ih hus) _)

/-- No statement is evaluated after one that unwinds. -/
theorem Stmt.evalAll_of_exits {sts sts' : List Stmt} {st : Stmt} {first last : Option Value}
    (hsts : Stmt.evalAll call s first sts w = some (.ok last, w'))
    (hst : (Node.stmt st).Exits call s w' e w'') :
    Stmt.evalAll call s first (sts ++ st :: sts') w = some (.error e, w'') := by
  induction sts generalizing w first with
  | nil =>
      obtain ⟨-, rfl⟩ := Eval.pure_eq_ok_iff.1 hsts
      exact Eval.bind_eq_of_error hst _
  | cons x sts ih =>
      obtain ⟨v, w₁, hx, hsts⟩ := Eval.bind_eq_ok_iff.1 hsts
      exact (Eval.bind_eq_of_ok hx _).trans (ih hsts)

/-- **If a part unwinds when its turn has come, so does the node**, in the same world. -/
theorem Node.Part.exits {n n' : Node} {vs : List Value} (hpart : n.Part call s w vs n' w')
    (h : n'.Exits call s w' e w'') : n.Exits call s w e w'' := by
  cases hpart with
  | operand | left | callee | bound | returned | value => exact Eval.bind_eq_of_error h _
  | @condition _ _ _ no => cases no <;> exact Eval.bind_eq_of_error h _
  | right hl => exact (Eval.bind_eq_of_ok hl _).trans (Eval.bind_eq_of_error h _)
  | @consequence _ _ _ no _ _ _ hc hv =>
      cases no with
      | none | some =>
          refine (Eval.bind_eq_of_ok hc _).trans ?_
          rw [if_pos hv]
          exact Eval.bind_eq_of_error h _
  | alternative hc hv =>
      refine (Eval.bind_eq_of_ok hc _).trans ?_
      rw [if_neg (ne_true_of_eq_false hv)]
      exact Eval.bind_eq_of_error h _
  | argument hf hes =>
      exact (Eval.bind_eq_of_ok hf _).trans (Eval.bind_eq_of_error (Expr.evalAll_of_exits hes h) _)
  | block => exact h
  | ofBlock hsts | ofProgram hsts => exact Stmt.evalAll_of_exits hsts h

end Parts

/-! ### Contexts -/

/-- **A node whose turn comes in the evaluation of another**, the world in which it comes being the
last argument: it is the node itself, or a part of a node whose turn comes. -/
inductive Node.Context (call : Calls) (s : ScopeId) (n : Node) (w : World) : Node → World → Prop
  | hole : Context call s n w n w
  | part {n' n'' : Node} {w' w'' : World} {vs : List Value} :
      Context call s n w n' w' → n'.Part call s w' vs n'' w'' → Context call s n w n'' w''

/-- **What unwinds abandons the context.** -/
theorem Node.Context.exits {call : Calls} {s : ScopeId} {n n' : Node} {w w' w'' : World} {e : Exit}
    (hcontext : n.Context call s w n' w') (h : n'.Exits call s w' e w'') :
    n.Exits call s w e w'' := by
  induction hcontext with
  | hole => exact h
  | part _ hpart ih => exact ih (hpart.exits h)

/-! ### Calls -/

/-- A call takes what unwinds from the body of the function. -/
theorem Closure.call_of_exits {depth : Nat} {c : Closure} {args : List Value} {w w' w'' : World}
    {e : Exit}
    (hassign : Eval.assignAll (w.enclose c.scope).1 c.literal.parameters args
      (w.enclose c.scope).2 = some (.ok (), w'))
    (h : (Node.block c.literal.body).Exits (Closure.call depth) (w.enclose c.scope).1 w' e w'') :
    Closure.call (depth + 1) c args w = some (e.outcome.unwrap.release, w'') := by
  rw [Closure.call_succ, Closure.enter, Eval.bind_eq_of_ok hassign, Eval.catchReturn_apply,
    Eval.bind_eq_of_error h, ← Eval.caught_error]
  rfl

/-- An error that comes in the course of what begins at a moment is what it unwinds with. -/
theorem Moment.Visits.exits_error {m m' : Moment} {error : RuntimeError} {w : World}
    (hm : m.Visits m')
    (h : m'.node.Exits (Closure.call m'.depth) m'.scope m'.world (.error error) w) :
    m.node.Exits (Closure.call m.depth) m.scope m.world (.error error) w := by
  induction hm with
  | refl => exact h
  | part _ hpart ih => exact ih (hpart.exits h)
  | body _ hf hes harity hassign ih =>
      refine ih ((Eval.bind_eq_of_ok hf _).trans ((Eval.bind_eq_of_ok hes _).trans ?_))
      rw [Eval.apply, if_pos harity]
      exact Closure.call_of_exits hassign h

/-- **An error abandons everything around it**, however many calls that is: if it comes in the
course of a run, it is the outcome of the run, and the world stays as it is. -/
theorem Moment.Visits.run_error {m m' : Moment} {error : RuntimeError} {w : World}
    (hm : m.Visits m') (hnode : ∀ p, m'.node ≠ .program p)
    (h : m'.node.run m'.depth m'.scope m'.world = some (some (.error error), w)) :
    m.node.run m.depth m.scope m.world = some (some (.error error), w) := by
  have hexits := hm.exits_error ((Node.exits_iff (e := .error error) hnode).2 h)
  cases hn : m.node with
  | program p =>
      rw [hn] at hexits
      exact Program.run_of_exits hexits
  | stmt | block | expr =>
      rw [hn] at hexits
      exact (Node.exits_iff (by simp)).1 hexits

/-- **What unwinds abandons everything around it.**  A node in a context that has an error or a
pending return for its outcome, when its turn has come, leaves that outcome and its world to the
whole statement, block or expression, whatever stands behind it.  A program has the same error, or
what the pending return brings; and so has the call of a closure whose body the context is. -/
theorem Node.run_unwinds {depth : Nat} {s : ScopeId} {n n' : Node} {w w' w'' : World} {u : Outcome}
    (hcontext : n.Context (Closure.call depth) s w n' w') (hhole : ∀ p, n' ≠ .program p)
    (hrun : n'.run depth s w' = some (some u, w'')) (hu : u.unwinds = true) :
    ((∀ p, n ≠ .program p) → n.run depth s w = some (some u, w'')) ∧
    (∀ p, n = .program p → p.run depth s w = some (some u.unwrap, w'')) ∧
    ∀ (c : Closure) (args : List Value) (w₀ : World), n = .block c.literal.body →
      c.literal.parameters.length = args.length → (w₀.enclose c.scope).1 = s →
      Eval.assignAll s c.literal.parameters args (w₀.enclose c.scope).2 = some (.ok (), w) →
      Eval.apply (Closure.call (depth + 1)) (.function c) args w₀ =
        some (u.unwrap.release, w'') := by
  obtain ⟨e, rfl⟩ := Outcome.exists_exit hu
  have hexits := hcontext.exits ((Node.exits_iff hhole).2 hrun)
  refine ⟨fun hn => (Node.exits_iff hn).1 hexits, ?_, ?_⟩
  · rintro p rfl
    exact Program.run_of_exits hexits
  · rintro c args w₀ rfl harity rfl hassign
    rw [Eval.apply, if_pos harity]
    exact Closure.call_of_exits hassign hexits

/-- The statement `return 4`, whatever its tokens. -/
def Stmt.early : Stmt :=
  .returns ⟨.kwReturn, "return", .start⟩ (.integer ⟨.integer, "4", .start⟩ 4)

/-- The block `{ return 4; 5 }`. -/
def Block.early : Block :=
  have five : Token := ⟨.integer, "5", .start⟩
  ⟨⟨.braceLeft, "\x7b", .start⟩, [.early, .expr five (.integer five 5)]⟩

/-- The program `1; true(2, if (3) { return 4; 5 }, 6 / 0)`. -/
def Program.early : Program :=
  have token : Token := ⟨.integer, "", .start⟩
  ⟨[.expr token (.integer token 1),
    .expr token (.call ⟨.parenLeft, "(", .start⟩ (.boolean ⟨.kwTrue, "true", .start⟩ true)
      [.integer token 2, .ifElse ⟨.kwIf, "if", .start⟩ (.integer token 3) .early none,
        .binary (.integer token 6) ⟨.slash, "/", .start⟩ (.integer token 0)])]⟩

/-- The function `fn() { return 4; 5 }`, made in a scope. -/
def Closure.early (s : ScopeId) : Closure :=
  ⟨0, ⟨⟨.kwFn, "fn", .start⟩, [], .early⟩, s⟩

/-- A return in an argument ends the program: nothing is divided by zero, and nothing is called that
is no function.  The same return is what comes of a call. -/
theorem Node.run_unwinds_early :
    (Node.program Program.early).Context (Closure.call 0) 0 World.empty.newGlobal.2 (.stmt .early)
      World.empty.newGlobal.2 ∧
    Program.early.run 0 0 World.empty.newGlobal.2 =
      some (some (.value (.integer 4)), World.empty.newGlobal.2) ∧
    Eval.apply (Closure.call 1) (.function (.early 0)) [] World.empty.newGlobal.2 =
      some (.ok (.integer 4), (World.empty.newGlobal.2.enclose 0).2) := by
  generalize World.empty.newGlobal.2 = w
  have hone (t t' : Token) : Stmt.evalAll (Closure.call 0) 0 none [.expr t (.integer t' 1)] w =
      some (.ok (some (.integer 1)), w) := rfl
  have hcallee (t : Token) : (Expr.boolean t true).eval (Closure.call 0) 0 w =
      some (.ok (.boolean true), w) := rfl
  have htwo (t : Token) : Expr.evalAll (Closure.call 0) 0 [.integer t 2] w =
      some (.ok [.integer 2], w) := rfl
  have hthree (t : Token) : (Expr.integer t 3).eval (Closure.call 0) 0 w =
      some (.ok (.integer 3), w) := rfl
  have hblock (s : ScopeId) (w : World) :
      (Node.block .early).Part (Closure.call 0) s w [] (.stmt .early) w :=
    .ofBlock (show Stmt.evalAll (Closure.call 0) s none [] w = some (.ok none, w) from rfl)
  have hcontext : (Node.program Program.early).Context (Closure.call 0) 0 w (.stmt .early) w :=
    .part (.part (.part (.part (.part .hole (.ofProgram (hone _ _))) .value)
      (.argument (hcallee _) (htwo _))) (.consequence (hthree _) rfl)) (hblock 0 w)
  refine ⟨hcontext, (Node.run_unwinds hcontext (by simp) rfl rfl).2.1 _ rfl, ?_⟩
  exact (Node.run_unwinds (.part .hole (hblock _ _)) (by simp) rfl rfl).2.2 (.early 0) [] w rfl rfl
    rfl rfl

end LetFn
