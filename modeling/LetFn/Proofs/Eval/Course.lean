/-
**The course of an evaluation.**

To evaluate a node is to evaluate its parts, one after the other, each in the world that those
before it have left.  Which parts are evaluated at all depends on what came of the ones before: of
the branches of a conditional it is one, and after a part that unwinds there is none.  A call goes
on with the body of the function, in a new scope that binds the parameters.

While a part is evaluated, what came of the parts before it is kept if it is needed after it: the
left operand, the function that is to be called and the arguments, and the value of the statement
before.  These values are held by the evaluation alone; no scope need bind them.

Main definitions:

* `LetFn.Node.Part` — **a part of a node, when its turn has come**;
* `LetFn.Moment` — a node that is about to be evaluated, and what is kept meanwhile;
* `LetFn.Moment.Visits` — **one moment comes in the course of what begins at another**;
* `LetFn.Moment.Makes` — closures are made when it is the turn of function literals.

Main results:

* `LetFn.Expr.evalAll_concat`, `LetFn.Stmt.evalAll_concat` — one more argument, or statement, is
  evaluated after those before it;
* `LetFn.Node.run_makes` — **every closure that a run makes it makes when it is the turn of a
  function literal**.
-/

import LetFn.Proofs.Eval.Runs

set_option relaxedAutoImplicit false
set_option autoImplicit false

namespace LetFn

/-- **A part of a node, when its turn has come**: the evaluation of the node in the scope `s`
evaluates it in the world that the parts before have left, and keeps some of what came of them. -/
inductive Node.Part (call : Calls) (s : ScopeId) :
    Node → World → List Value → Node → World → Prop
  | operand {op : Token} {e : Expr} {w : World} :
      Part call s (.expr (.unary op e)) w [] (.expr e) w
  | left {l r : Expr} {op : Token} {w : World} :
      Part call s (.expr (.binary l op r)) w [] (.expr l) w
  | right {l r : Expr} {op : Token} {w w' : World} {a : Value} :
      l.eval call s w = some (.ok a, w') →
      Part call s (.expr (.binary l op r)) w [a] (.expr r) w'
  | condition {t : Token} {c : Expr} {yes : Block} {no : Option Block} {w : World} :
      Part call s (.expr (.ifElse t c yes no)) w [] (.expr c) w
  | consequence {t : Token} {c : Expr} {yes : Block} {no : Option Block} {w w' : World}
      {v : Value} :
      c.eval call s w = some (.ok v, w') → v.truthy = true →
      Part call s (.expr (.ifElse t c yes no)) w [] (.block yes) w'
  | alternative {t : Token} {c : Expr} {yes no : Block} {w w' : World} {v : Value} :
      c.eval call s w = some (.ok v, w') → v.truthy = false →
      Part call s (.expr (.ifElse t c yes (some no))) w [] (.block no) w'
  | callee {t : Token} {f : Expr} {es : List Expr} {w : World} :
      Part call s (.expr (.call t f es)) w [] (.expr f) w
  /-- An argument, after the function and the arguments before it. -/
  | argument {t : Token} {f e : Expr} {es es' : List Expr} {w w₁ w₂ : World} {v : Value}
      {vs : List Value} :
      f.eval call s w = some (.ok v, w₁) → Expr.evalAll call s es w₁ = some (.ok vs, w₂) →
      Part call s (.expr (.call t f (es ++ e :: es'))) w (v :: vs) (.expr e) w₂
  | bound {t : Token} {x : Ident} {e : Expr} {w : World} :
      Part call s (.stmt (.bind t x e)) w [] (.expr e) w
  | returned {t : Token} {e : Expr} {w : World} :
      Part call s (.stmt (.returns t e)) w [] (.expr e) w
  | value {t : Token} {e : Expr} {w : World} :
      Part call s (.stmt (.expr t e)) w [] (.expr e) w
  | block {b : Block} {w : World} : Part call s (.stmt (.block b)) w [] (.block b) w
  /-- A statement of a block, after those before it; the value of the last of them is kept. -/
  | ofBlock {t : Token} {sts sts' : List Stmt} {st : Stmt} {w w' : World} {last : Option Value} :
      Stmt.evalAll call s none sts w = some (.ok last, w') →
      Part call s (.block ⟨t, sts ++ st :: sts'⟩) w last.toList (.stmt st) w'
  /-- A statement of a program, likewise. -/
  | ofProgram {sts sts' : List Stmt} {st : Stmt} {w w' : World} {last : Option Value} :
      Stmt.evalAll call s none sts w = some (.ok last, w') →
      Part call s (.program ⟨sts ++ st :: sts'⟩) w last.toList (.stmt st) w'

/-- A node that is about to be evaluated in a scope and a world, where calls may nest so deep, and
the values that are kept meanwhile. -/
structure Moment where
  depth : Nat
  scope : ScopeId
  kept : List Value
  node : Node
  world : World

/-- **One moment comes in the course of what begins at another**: it is the same, or the turn of a
part of a node, or of the body of a function that is called. -/
inductive Moment.Visits (m : Moment) : Moment → Prop
  | refl : Visits m m
  | part {depth : Nat} {s : ScopeId} {vs us : List Value} {n n' : Node} {w w' : World} :
      Visits m ⟨depth, s, vs, n, w⟩ → n.Part (Closure.call depth) s w us n' w' →
      Visits m ⟨depth, s, us ++ vs, n', w'⟩
  /-- The function and the arguments have been evaluated, and the parameters are bound. -/
  | body {depth : Nat} {s : ScopeId} {vs us : List Value} {t : Token} {f : Expr} {es : List Expr}
      {w w₁ w₂ w₃ : World} {c : Closure} :
      Visits m ⟨depth + 1, s, vs, .expr (.call t f es), w⟩ →
      f.eval (Closure.call (depth + 1)) s w = some (.ok (.function c), w₁) →
      Expr.evalAll (Closure.call (depth + 1)) s es w₁ = some (.ok us, w₂) →
      c.literal.parameters.length = us.length →
      Eval.assignAll (w₂.enclose c.scope).1 c.literal.parameters us (w₂.enclose c.scope).2 =
        some (.ok (), w₃) →
      Visits m ⟨depth, (w₂.enclose c.scope).1, .function c :: us ++ vs,
        .block c.literal.body, w₃⟩

/-- The node is a function literal. -/
def Node.IsLiteral (n : Node) : Prop :=
  ∃ t xs body, n = .expr (.function t xs body)

/-! ### Part after part -/

section Append

variable {call : Calls} {s : ScopeId} {w w' w'' : World}

/-- What a computation in two parts results in its second part does, after a result of the first. -/
theorem Eval.bind_eq_ok_iff {α β : Type} {x : Eval α} {f : α → Eval β} {b : β} :
    (x >>= f) w = some (.ok b, w'') ↔
      ∃ a w', x w = some (.ok a, w') ∧ f a w' = some (.ok b, w'') := by
  constructor
  · intro h
    rcases Eval.bind_cases h with ⟨e, -, hr⟩ | h
    · cases hr
    · exact h
  · rintro ⟨a, w', hx, hf⟩
    rw [Eval.bind_eq_of_ok hx, hf]

theorem Eval.pure_eq_ok_iff {α : Type} {a b : α} :
    (pure a : Eval α) w = some (.ok b, w') ↔ a = b ∧ w = w' := by
  change some (Except.ok a, w) = some (Except.ok b, w') ↔ _
  rw [Option.some_inj, Prod.mk.injEq, Except.ok.injEq]

/-- One more argument is evaluated after those before it. -/
theorem Expr.evalAll_concat {es : List Expr} {e : Expr} {vs : List Value} {v : Value}
    (hes : Expr.evalAll call s es w = some (.ok vs, w')) (he : e.eval call s w' = some (.ok v, w'')) :
    Expr.evalAll call s (es ++ [e]) w = some (.ok (vs ++ [v]), w'') := by
  induction es generalizing w vs with
  | nil =>
      obtain ⟨rfl, rfl⟩ := Eval.pure_eq_ok_iff.1 hes
      exact Eval.bind_eq_ok_iff.2 ⟨v, w'', he, rfl⟩
  | cons x es ih =>
      obtain ⟨u, w₁, hx, hes⟩ := Eval.bind_eq_ok_iff.1 hes
      obtain ⟨us, w₂, hus, hvs⟩ := Eval.bind_eq_ok_iff.1 hes
      obtain ⟨rfl, rfl⟩ := Eval.pure_eq_ok_iff.1 hvs
      refine Eval.bind_eq_ok_iff.2 ⟨u, w₁, hx, ?_⟩
      exact Eval.bind_eq_ok_iff.2 ⟨us ++ [v], w'', ih hus, rfl⟩

/-- One more statement is evaluated after those before it. -/
theorem Stmt.evalAll_concat {sts : List Stmt} {st : Stmt} {first last v : Option Value}
    (hsts : Stmt.evalAll call s first sts w = some (.ok last, w'))
    (hst : st.eval call s w' = some (.ok v, w'')) :
    Stmt.evalAll call s first (sts ++ [st]) w = some (.ok v, w'') := by
  induction sts generalizing w first with
  | nil =>
      obtain ⟨-, rfl⟩ := Eval.pure_eq_ok_iff.1 hsts
      exact Eval.bind_eq_ok_iff.2 ⟨v, w'', hst, rfl⟩
  | cons x sts ih =>
      obtain ⟨u, w₁, hx, hsts⟩ := Eval.bind_eq_ok_iff.1 hsts
      exact Eval.bind_eq_ok_iff.2 ⟨u, w₁, hx, ih hsts⟩

end Append

/-! ### Where closures are made -/

/-- **Every closure that is made from the world `w` to the world `w'` is made when it is the turn of
a function literal**, in the course of what begins at the moment `m`. -/
def Moment.Makes (m : Moment) (w w' : World) : Prop :=
  ∀ k, w.closures ≤ k → k < w'.closures →
    ∃ m', m.Visits m' ∧ m'.node.IsLiteral ∧ m'.world.closures = k

/-- Every closure that the computation makes is made when it is the turn of a function literal. -/
def Moment.Traces {α : Type} (m : Moment) (w : World) (x : Eval α) : Prop :=
  ∀ r w', x w = some (r, w') → m.Makes w w'

namespace Moment

variable {m : Moment} {w w' w'' : World} {α β : Type}

theorem Makes.of_eq (h : w'.closures = w.closures) : m.Makes w w' := by
  intro k hk hk'
  omega

theorem Makes.trans (h : m.Makes w w') (h' : m.Makes w' w'') : m.Makes w w'' := by
  intro k hk hk'
  by_cases hmiddle : k < w'.closures
  · exact h k hk hmiddle
  · exact h' k (Nat.not_lt.1 hmiddle) hk'

/-- A computation that makes no closure. -/
theorem Traces.of_eq {x : Eval α} {r : Except Exit α} (hx : x w = some (r, w'))
    (h : w'.closures = w.closures) : m.Traces w x := by
  intro r' w'' hr
  rw [hx] at hr
  obtain ⟨-, rfl⟩ := Prod.mk.inj (Option.some.inj hr)
  exact .of_eq h

/-- Computations one after the other. -/
theorem Traces.bind {x : Eval α} {f : α → Eval β} (hx : m.Traces w x)
    (hf : ∀ a w', x w = some (.ok a, w') → m.Traces w' (f a)) : m.Traces w (x >>= f) := by
  intro r w'' hr
  rcases Eval.bind_cases hr with ⟨e, hxw, -⟩ | ⟨a, w', hxw, hr⟩
  · exact hx _ _ hxw
  · exact (hx _ _ hxw).trans (hf a w' hxw r w'' hr)

/-- What is done with the value of a block makes no closure. -/
theorem Traces.getD {x : Eval (Option Value)} (hx : m.Traces w x) :
    m.Traces w (do return (← x).getD .null) :=
  hx.bind fun _ _ _ => .of_eq rfl rfl

/-- Taking a pending return makes no closure. -/
theorem Traces.catchReturn {x : Eval Value} (hx : m.Traces w x) :
    m.Traces w (Eval.catchReturn x) := by
  intro r w' hr
  rw [Eval.catchReturn_apply, Option.map_eq_some_iff] at hr
  obtain ⟨⟨r', w''⟩, hxw, hcaught⟩ := hr
  obtain ⟨-, rfl⟩ := Prod.mk.inj hcaught
  exact hx _ _ hxw

/-- Calls that are made when it is their turn make closures when it is the turn of function
literals. -/
def CallsTraced (m : Moment) (depth : Nat) : Prop :=
  ∀ ⦃s : ScopeId⦄ ⦃vs us : List Value⦄ ⦃t : Token⦄ ⦃f : Expr⦄ ⦃es : List Expr⦄ ⦃w w₁ w₂ : World⦄
    ⦃c : Closure⦄,
    m.Visits ⟨depth, s, vs, .expr (.call t f es), w⟩ →
    f.eval (Closure.call depth) s w = some (.ok (.function c), w₁) →
    Expr.evalAll (Closure.call depth) s es w₁ = some (.ok us, w₂) →
    c.literal.parameters.length = us.length → m.Traces w₂ (Closure.call depth c us)

end Moment

open Moment

mutual

/-- **What the evaluation of an expression makes it makes when it is the turn of a function
literal.** -/
theorem Expr.eval_traced {m : Moment} {depth : Nat} (h : m.CallsTraced depth) (s : ScopeId) :
    (e : Expr) → (vs : List Value) → (w : World) → m.Visits ⟨depth, s, vs, .expr e, w⟩ →
      m.Traces w (e.eval (Closure.call depth) s)
  | .ident x, _, w, _ => .of_eq (Eval.lookup_apply s x.name w) rfl
  | .integer _ _, _, _, _ => .of_eq rfl rfl
  | .boolean _ _, _, _, _ => .of_eq rfl rfl
  | .unary _ e, vs, w, hm =>
    (Expr.eval_traced h s e _ w (hm.part .operand)).bind fun _ _ _ => .of_eq rfl rfl
  | .binary l _ r, vs, w, hm =>
    (Expr.eval_traced h s l _ w (hm.part .left)).bind fun _ w' hl =>
      (Expr.eval_traced h s r _ w' (hm.part (.right hl))).bind fun _ _ _ => .of_eq rfl rfl
  | .ifElse _ c yes none, vs, w, hm => by
    refine (Expr.eval_traced h s c _ w (hm.part .condition)).bind fun v w' hc => ?_
    cases hv : v.truthy with
    | true => exact (Block.eval_traced h s yes _ w' (hm.part (.consequence hc hv))).getD
    | false => exact .of_eq rfl rfl
  | .ifElse _ c yes (some no), vs, w, hm => by
    refine (Expr.eval_traced h s c _ w (hm.part .condition)).bind fun v w' hc => ?_
    cases hv : v.truthy with
    | true => exact (Block.eval_traced h s yes _ w' (hm.part (.consequence hc hv))).getD
    | false => exact (Block.eval_traced h s no _ w' (hm.part (.alternative hc hv))).getD
  | .function t xs body, vs, w, hm => by
    intro r w' hr k hk hk'
    obtain ⟨-, rfl⟩ := Prod.mk.inj (Option.some.inj hr)
    exact ⟨_, hm, ⟨t, xs, body, rfl⟩, Nat.le_antisymm hk (Nat.lt_succ_iff.1 hk')⟩
  | .call t f es, vs, w, hm => by
    refine (Expr.eval_traced h s f _ w (hm.part .callee)).bind fun v w₁ hf => ?_
    refine (Expr.evalAll_traced h s es [] vs [] w w₁ w₁ hm hf rfl).bind fun us w₂ hes => ?_
    cases v with
    | function c =>
        simp only [Eval.apply]
        split
        · exact h hm hf hes ‹_›
        · exact .of_eq rfl rfl
    | integer | boolean | null => exact .of_eq rfl rfl
  | .error _ _ _, _, _, _ => .of_eq rfl rfl

/-- So it is with the arguments of a call, after those before them. -/
theorem Expr.evalAll_traced {m : Moment} {depth : Nat} (h : m.CallsTraced depth) (s : ScopeId)
    {t : Token} {f : Expr} {v : Value} :
    (es before : List Expr) → (vs us : List Value) → (w w₁ w₂ : World) →
      m.Visits ⟨depth, s, vs, .expr (.call t f (before ++ es)), w⟩ →
      f.eval (Closure.call depth) s w = some (.ok v, w₁) →
      Expr.evalAll (Closure.call depth) s before w₁ = some (.ok us, w₂) →
      m.Traces w₂ (Expr.evalAll (Closure.call depth) s es)
  | [], _, _, _, _, _, _, _, _, _ => .of_eq rfl rfl
  | e :: es, before, vs, us, w, w₁, w₂, hm, hf, hbefore => by
    refine (Expr.eval_traced h s e _ w₂ (hm.part (.argument hf hbefore))).bind fun u w₃ he => ?_
    rw [List.append_cons] at hm
    exact (Expr.evalAll_traced h s es (before ++ [e]) vs _ w w₁ w₃ hm hf
      (Expr.evalAll_concat hbefore he)).bind fun _ _ _ => .of_eq rfl rfl

/-- **What the evaluation of a statement makes it makes when it is the turn of a function
literal.** -/
theorem Stmt.eval_traced {m : Moment} {depth : Nat} (h : m.CallsTraced depth) (s : ScopeId) :
    (st : Stmt) → (vs : List Value) → (w : World) → m.Visits ⟨depth, s, vs, .stmt st, w⟩ →
      m.Traces w (st.eval (Closure.call depth) s)
  | .bind _ _ e, _, w, hm =>
    (Expr.eval_traced h s e _ w (hm.part .bound)).bind fun _ _ _ =>
      Traces.bind (.of_eq rfl rfl) fun _ _ _ => .of_eq rfl rfl
  | .returns _ e, _, w, hm =>
    (Expr.eval_traced h s e _ w (hm.part .returned)).bind fun _ _ _ => .of_eq rfl rfl
  | .expr _ e, _, w, hm =>
    (Expr.eval_traced h s e _ w (hm.part .value)).bind fun _ _ _ => .of_eq rfl rfl
  | .block b, _, w, hm => Block.eval_traced h s b _ w (hm.part .block)
  | .error _, _, _, _ => .of_eq rfl rfl

/-- So it is with several statements, if each of them has its turn. -/
theorem Stmt.evalAll_traced {m : Moment} {depth : Nat} (h : m.CallsTraced depth) (s : ScopeId) :
    (sts : List Stmt) → (before : List Stmt) → (last : Option Value) → (w₁ w₂ : World) →
      (∀ (before' : List Stmt) (st : Stmt) (after : List Stmt) (last' : Option Value) (w' : World),
        before ++ sts = before' ++ st :: after →
        Stmt.evalAll (Closure.call depth) s none before' w₁ = some (.ok last', w') →
        ∃ vs, m.Visits ⟨depth, s, vs, .stmt st, w'⟩) →
      Stmt.evalAll (Closure.call depth) s none before w₁ = some (.ok last, w₂) →
      m.Traces w₂ (Stmt.evalAll (Closure.call depth) s last sts)
  | [], _, _, _, _, _, _ => .of_eq rfl rfl
  | st :: sts, before, last, w₁, w₂, hturn, hbefore => by
    obtain ⟨vs, hm⟩ := hturn before st sts last w₂ rfl hbefore
    refine (Stmt.eval_traced h s st vs w₂ hm).bind fun o w₃ hst => ?_
    rw [List.append_cons] at hturn
    exact Stmt.evalAll_traced h s sts (before ++ [st]) o w₁ w₃ hturn
      (Stmt.evalAll_concat hbefore hst)

/-- **What the evaluation of a block makes it makes when it is the turn of a function literal.** -/
theorem Block.eval_traced {m : Moment} {depth : Nat} (h : m.CallsTraced depth) (s : ScopeId) :
    (b : Block) → (vs : List Value) → (w : World) → m.Visits ⟨depth, s, vs, .block b, w⟩ →
      m.Traces w (b.eval (Closure.call depth) s)
  | ⟨_, sts⟩, vs, w, hm => by
    refine Stmt.evalAll_traced h s sts [] none w w (fun before st after last w' hsts hlast => ?_) rfl
    rw [List.nil_append] at hsts
    subst hsts
    exact ⟨_, hm.part (.ofBlock hlast)⟩

end

/-! ### Calls and runs -/

/-- Binding parameters always comes to an end, and makes no closure. -/
theorem Eval.assignAll_apply (s : ScopeId) (xs : List Ident) (vs : List Value) (w : World) :
    ∃ w', Eval.assignAll s xs vs w = some (.ok (), w') ∧ w'.closures = w.closures := by
  induction xs generalizing vs w with
  | nil => cases vs <;> exact ⟨w, rfl, rfl⟩
  | cons x xs ih =>
      cases vs with
      | nil => exact ⟨w, rfl, rfl⟩
      | cons v vs =>
          obtain ⟨w', hw', hclosures⟩ := ih vs (w.set s x.name (.value v))
          exact ⟨w', hw', hclosures⟩

/-- **What a call makes it makes when it is the turn of a function literal**, however deep the calls
in it nest. -/
theorem Closure.call_traced (m : Moment) (depth : Nat) : m.CallsTraced depth := by
  induction depth with
  | zero =>
      intro s vs us t f es w w₁ w₂ c _ _ _ _ r w' hr
      cases hr
  | succ depth ih =>
      intro s vs us t f es w w₁ w₂ c hm hf hes harity r w' hr
      obtain ⟨w₃, hassign, hclosures⟩ := Eval.assignAll_apply (w₂.enclose c.scope).1
        c.literal.parameters us (w₂.enclose c.scope).2
      have hbody := Block.eval_traced ih _ c.literal.body _ w₃ (hm.body hf hes harity hassign)
      rw [Closure.call_succ, Closure.enter, Eval.bind_eq_of_ok hassign] at hr
      exact Makes.trans (.of_eq hclosures) (hbody.getD.catchReturn r w' hr)

/-- **Every closure that a run makes it makes when it is the turn of a function literal**, so there
are no closures but those. -/
theorem Node.run_makes {depth : Nat} {s : ScopeId} {n : Node} {w w' : World} {o : Option Outcome}
    (h : n.run depth s w = some (o, w')) : Moment.Makes ⟨depth, s, [], n, w⟩ w w' := by
  have hcalls := Closure.call_traced ⟨depth, s, [], n, w⟩ depth
  cases n with
  | program p =>
      obtain ⟨r, hr, -⟩ := Program.run_eq_some_iff.1 h
      refine Stmt.evalAll_traced hcalls s p.statements [] none w w
        (fun before st after last w₁ hsts hlast => ?_) rfl r w' hr
      obtain rfl : p = ⟨before ++ st :: after⟩ := congrArg Program.mk hsts
      exact ⟨_, Visits.refl.part (.ofProgram hlast)⟩
  | stmt st =>
      obtain ⟨r, hr, rfl⟩ := Stmt.run_eq_some_iff.1 h
      exact Stmt.eval_traced hcalls s st [] w .refl r w' hr
  | block b =>
      obtain ⟨r, hr, rfl⟩ := Block.run_eq_some_iff.1 h
      exact Block.eval_traced hcalls s b [] w .refl r w' hr
  | expr e =>
      obtain ⟨o, ho, rfl⟩ := Run.map_eq_some_iff.1 h
      obtain ⟨r, hr, rfl⟩ := Expr.run_eq_some_iff.1 ho
      exact Expr.eval_traced hcalls s e [] w .refl r w' hr

end LetFn
