/-
**What evaluation keeps, whatever it evaluates.**

Many properties of evaluation say the same of every node: something holds of the world before and
after, the world changes in certain ways only, the values that come of it are of a certain kind, and
so is what it unwinds with.  Together they are a *promise*.  A promise that is kept by the few steps
in which evaluation looks at the world or writes to it, and by calls, is kept by the evaluation of
every node; this is shown here once, by induction on the syntax.

The steps need only keep it at nodes of a certain kind, if the parts of such a node are of the kind
as well.  For instance a binding writes a name, and which names a node binds can be read off it; the
promise need only be kept by bindings of these.

Main definitions:

* `LetFn.Promise` — what is kept;
* `LetFn.Promise.Keeps` — a computation keeps a promise;
* `LetFn.Expr.bound`, `LetFn.Stmt.bound`, `LetFn.Block.bound`, `LetFn.Node.bound` — the names that a
  node binds, those in bodies of functions apart;
* `LetFn.Promise.GrantsAt`, `LetFn.Promise.Grants` — the steps of evaluation keep a promise, at
  nodes of a kind and at any node.

Main results:

* `LetFn.Promise.Keeps.bind` — computations one after the other keep a promise;
* `LetFn.Expr.eval_keepsAt`, `LetFn.Stmt.eval_keepsAt`, `LetFn.Block.eval_keepsAt` — **what the
  steps of evaluation keep, evaluation keeps**;
* `LetFn.Closure.enter_keepsAt` — so does the call of a closure.
-/

import LetFn.Eval.Run
import LetFn.Proofs.Syntax.Nodes

set_option relaxedAutoImplicit false
set_option autoImplicit false

namespace LetFn

/-! ### Computations one after the other -/

/-- What is done with what has come of a computation: `f` with its result, and nothing with what
unwinds. -/
def Eval.next {α β : Type} (f : α → Eval β) :
    Except Exit α × World → Option (Except Exit β × World)
  | (.ok a, w) => f a w
  | (.error e, w) => some (.error e, w)

theorem Eval.bind_apply {α β : Type} (x : Eval α) (f : α → Eval β) (w : World) :
    (x >>= f) w = (x w).bind (Eval.next f) := by
  change Option.bind (x w) _ = _
  refine congrArg (Option.bind (x w)) (funext fun ⟨r, w'⟩ => ?_)
  cases r <;> rfl

/-- A computation goes on with the result of the one before it. -/
theorem Eval.bind_eq_of_ok {α β : Type} {x : Eval α} {a : α} {w w' : World}
    (h : x w = some (.ok a, w')) (f : α → Eval β) : (x >>= f) w = f a w' := by
  rw [Eval.bind_apply, h]
  rfl

/-- What unwinds is all that comes of a computation that would have gone on. -/
theorem Eval.bind_eq_of_error {α β : Type} {x : Eval α} {e : Exit} {w w' : World}
    (h : x w = some (.error e, w')) (f : α → Eval β) : (x >>= f) w = some (.error e, w') := by
  rw [Eval.bind_apply, h]
  rfl

/-- Where computations one after the other come to an end, the first unwinds or the second is left
to end. -/
theorem Eval.bind_cases {α β : Type} {x : Eval α} {f : α → Eval β} {w w'' : World}
    {r : Except Exit β} (h : (x >>= f) w = some (r, w'')) :
    (∃ e, x w = some (.error e, w'') ∧ r = .error e) ∨
      ∃ a w', x w = some (.ok a, w') ∧ f a w' = some (r, w'') := by
  rw [Eval.bind_apply, Option.bind_eq_some_iff] at h
  obtain ⟨⟨e | a, w'⟩, hx, h⟩ := h
  · obtain ⟨rfl, rfl⟩ := Prod.mk.inj (Option.some.inj h)
    exact .inl ⟨e, hx, rfl⟩
  · exact .inr ⟨a, w', hx, h⟩

/-- What is left when a call takes a pending return. -/
def Eval.caught : Except Exit Value → Except Exit Value
  | .ok v => .ok v
  | .error (.returned o) => o.release
  | .error (.error e) => .error (.error e)

theorem Eval.catchReturn_apply (x : Eval Value) (w : World) :
    Eval.catchReturn x w = (x w).map fun r => (Eval.caught r.1, r.2) := by
  change Option.bind (x w) _ = _
  rw [Option.map_eq_bind]
  refine congrArg (Option.bind (x w)) (funext fun ⟨r, w'⟩ => ?_)
  rcases r with (o | e) | v <;> rfl

theorem Eval.get_bind_apply {α : Type} (f : World → Eval α) (w : World) :
    (get >>= f : Eval α) w = f w w := rfl

/-! ### Promises -/

/-- What a computation may be promised to keep. -/
structure Promise where
  /-- What holds of the world before and after. -/
  holds : World → Prop
  /-- How the world may change. -/
  changes : World → World → Prop
  /-- Which values there may be in a world. -/
  value : World → Value → Prop
  /-- What may unwind in a world. -/
  exit : World → Exit → Prop
  changes_refl : ∀ w, changes w w
  changes_trans : ∀ {w₁ w₂ w₃}, changes w₁ w₂ → changes w₂ w₃ → changes w₁ w₃
  value_of_changes : ∀ {w w' v}, changes w w' → value w v → value w' v

namespace Promise

variable {P : Promise} {α β : Type}

/-- What may come of a computation: a result for which `result` holds, or what may unwind. -/
def Yields (P : Promise) (result : World → α → Prop) (w : World) : Except Exit α → Prop
  | .ok a => result w a
  | .error e => P.exit w e

/-- Where the promise holds it holds after the computation, the world has changed as it may, and
what comes of the computation is what may. -/
def Keeps (P : Promise) (w : World) (x : Eval α) (result : World → α → Prop) : Prop :=
  P.holds w → ∀ r w', x w = some (r, w') →
    P.holds w' ∧ P.changes w w' ∧ P.Yields result w' r

/-- A computation whose result and world are known. -/
theorem Keeps.of_eq {w w' : World} {x : Eval α} {result : World → α → Prop} {r : Except Exit α}
    (hx : x w = some (r, w'))
    (h : P.holds w → P.holds w' ∧ P.changes w w' ∧ P.Yields result w' r) :
    P.Keeps w x result := by
  intro hw r' w'' hr
  rw [hx] at hr
  obtain ⟨rfl, rfl⟩ := Prod.mk.inj (Option.some.inj hr)
  exact h hw

theorem Keeps.pure {w : World} {result : World → α → Prop} {a : α} (h : result w a) :
    P.Keeps w (Pure.pure a) result := by
  intro hw r w' hr
  obtain ⟨rfl, rfl⟩ := Prod.mk.inj (Option.some.inj hr)
  exact ⟨hw, P.changes_refl w, h⟩

theorem Keeps.throw {w : World} {result : World → α → Prop} {e : Exit} (h : P.exit w e) :
    P.Keeps w (MonadExcept.throw e) result := by
  intro hw r w' hr
  obtain ⟨rfl, rfl⟩ := Prod.mk.inj (Option.some.inj hr)
  exact ⟨hw, P.changes_refl w, h⟩

/-- Less may be said of the result. -/
theorem Keeps.mono {w : World} {x : Eval α} {result result' : World → α → Prop}
    (h : P.Keeps w x result) (hresult : ∀ w a, result w a → result' w a) :
    P.Keeps w x result' := by
  intro hw r w' hr
  obtain ⟨hw', hchanges, hyields⟩ := h hw r w' hr
  refine ⟨hw', hchanges, ?_⟩
  cases r with
  | ok a => exact hresult w' a hyields
  | error e => exact hyields

/-- **Computations one after the other keep a promise.** -/
theorem Keeps.bind {w : World} {x : Eval α} {f : α → Eval β} {middle : World → α → Prop}
    {result : World → β → Prop} (hx : P.Keeps w x middle)
    (hf : ∀ a w', P.changes w w' → middle w' a → P.Keeps w' (f a) result) :
    P.Keeps w (x >>= f) result := by
  intro hw r w'' hr
  rcases Eval.bind_cases hr with ⟨e, hxw, rfl⟩ | ⟨a, w', hxw, hr⟩
  · exact hx hw _ _ hxw
  · obtain ⟨hw', hchanges, ha⟩ := hx hw _ _ hxw
    obtain ⟨hw'', hchanges', hresult⟩ := hf a w' hchanges ha hw' r w'' hr
    exact ⟨hw'', P.changes_trans hchanges hchanges', hresult⟩

end Promise

/-! ### The names that a node binds -/

mutual

/-- The names that an expression binds in the scope in which it is evaluated. -/
def Expr.bound : Expr → List String
  | .ident _ => []
  | .integer _ _ => []
  | .boolean _ _ => []
  | .unary _ e => e.bound
  | .binary l _ r => l.bound ++ r.bound
  | .ifElse _ c yes none => c.bound ++ yes.bound
  | .ifElse _ c yes (some no) => c.bound ++ yes.bound ++ no.bound
  | .function _ _ _ => []
  | .call _ f es => f.bound ++ Expr.boundAll es
  | .error _ _ _ => []

/-- The names that several expressions bind. -/
def Expr.boundAll : List Expr → List String
  | [] => []
  | e :: es => e.bound ++ Expr.boundAll es

/-- The names that a statement binds. -/
def Stmt.bound : Stmt → List String
  | .bind _ x e => x.name :: e.bound
  | .returns _ e => e.bound
  | .expr _ e => e.bound
  | .block b => b.bound
  | .error _ => []

/-- The names that several statements bind. -/
def Stmt.boundAll : List Stmt → List String
  | [] => []
  | s :: ss => s.bound ++ Stmt.boundAll ss

/-- The names that a block binds. -/
def Block.bound : Block → List String
  | ⟨_, ss⟩ => Stmt.boundAll ss

end

/-- **The names that a node binds in the scope in which it is evaluated**: those of its bindings,
but not of the bindings in the body of a function. -/
def Node.bound : Node → List String
  | .program p => Stmt.boundAll p.statements
  | .stmt s => s.bound
  | .block b => b.bound
  | .expr e => e.bound

/-- The names of several expressions are those of each. -/
theorem Expr.forall_mem_boundAll {P : String → Prop} {es : List Expr} :
    (∀ x ∈ Expr.boundAll es, P x) ↔ ∀ e ∈ es, ∀ x ∈ e.bound, P x := by
  induction es with
  | nil => simp [Expr.boundAll]
  | cons e es ih => rw [Expr.boundAll, List.forall_mem_append, ih, List.forall_mem_cons]

/-- The names of several statements are those of each. -/
theorem Stmt.forall_mem_boundAll {P : String → Prop} {ss : List Stmt} :
    (∀ x ∈ Stmt.boundAll ss, P x) ↔ ∀ s ∈ ss, ∀ x ∈ s.bound, P x := by
  induction ss with
  | nil => simp [Stmt.boundAll]
  | cons s ss ih => rw [Stmt.boundAll, List.forall_mem_append, ih, List.forall_mem_cons]

/-- A part of a node binds no name that the node does not bind. -/
theorem Node.hereditary_bound (bound : String → Prop) :
    Node.Hereditary fun n => ∀ x ∈ n.bound, bound x := by
  intro n hn
  cases n with
  | program p => exact List.forall_mem_map.2 (Stmt.forall_mem_boundAll.1 hn)
  | block b =>
      obtain ⟨t, sts⟩ := b
      exact List.forall_mem_map.2 (Stmt.forall_mem_boundAll.1 hn)
  | stmt st =>
      cases st with
      | bind t x e => exact List.forall_mem_singleton.2 (List.forall_mem_cons.1 hn).2
      | returns | expr | block => exact List.forall_mem_singleton.2 hn
      | error t => exact List.forall_mem_nil _
  | expr e =>
      cases e with
      | ident | integer | boolean | function | error => exact List.forall_mem_nil _
      | unary op e => exact List.forall_mem_singleton.2 hn
      | binary l op r =>
          obtain ⟨hl, hr⟩ := List.forall_mem_append.1 hn
          exact List.forall_mem_cons.2 ⟨hl, List.forall_mem_singleton.2 hr⟩
      | ifElse t c yes no =>
          cases no with
          | none =>
              obtain ⟨hc, hyes⟩ := List.forall_mem_append.1 hn
              exact List.forall_mem_cons.2 ⟨hc, List.forall_mem_singleton.2 hyes⟩
          | some no =>
              obtain ⟨hboth, hno⟩ := List.forall_mem_append.1 hn
              obtain ⟨hc, hyes⟩ := List.forall_mem_append.1 hboth
              exact List.forall_mem_cons.2
                ⟨hc, List.forall_mem_cons.2 ⟨hyes, List.forall_mem_singleton.2 hno⟩⟩
      | call t f es =>
          obtain ⟨hf, hes⟩ := List.forall_mem_append.1 hn
          exact List.forall_mem_cons.2
            ⟨hf, List.forall_mem_map.2 (Expr.forall_mem_boundAll.1 hes)⟩

/-! ### The steps of evaluation -/

/-- What a name is worth: a name that is not bound fails. -/
theorem Eval.lookup_apply (s : ScopeId) (x : String) (w : World) :
    Eval.lookup s x w =
      some (((w.get? s x).elim (.error (.error (.unbound x))) Outcome.release), w) := by
  rw [Eval.lookup, Eval.get_bind_apply]
  cases w.get? s x <;> rfl

theorem Eval.assign_apply (s : ScopeId) (x : String) (v : Value) (w : World) :
    Eval.assign s x v w = some (.ok (), w.set s x (.value v)) := rfl

theorem Eval.closure_apply (literal : Function) (s : ScopeId) (w : World) :
    Eval.closure literal s w =
      some (.ok (.function (w.newClosure literal s).1), (w.newClosure literal s).2) := rfl

/-- Integers, truth values and null. -/
def Value.Plain : Value → Prop
  | .function _ => False
  | _ => True

theorem Operator.plain_unary {op : Token} {v r : Value} (h : Operator.unary op v = .ok r) :
    r.Plain := by
  unfold Operator.unary at h
  split at h
  · obtain rfl := Except.ok.inj h
    trivial
  · split at h
    · obtain rfl := Except.ok.inj h
      trivial
    · cases h
  · cases h
  · cases h

theorem Operator.plain_onIntegers {op : Token} {a b : Int64} {r : Value}
    (h : Operator.onIntegers op a b = .ok r) : r.Plain := by
  have hexact {m : Option Int64} (hm : Operator.exact op a b m = .ok r) : r.Plain := by
    cases m with
    | none => cases hm
    | some n =>
        obtain rfl := Except.ok.inj hm
        trivial
  unfold Operator.onIntegers at h
  split at h
  case h_1 | h_2 | h_3 => exact hexact h
  case h_4 | h_5 =>
      split at h
      · cases h
      · exact hexact h
  case h_12 => cases h
  all_goals
    obtain rfl := Except.ok.inj h
    trivial

theorem Operator.plain_binary {op : Token} {a b r : Value} (h : Operator.binary op a b = .ok r) :
    r.Plain := by
  unfold Operator.binary at h
  split at h
  · exact plain_onIntegers h
  · split at h
    · obtain rfl := Except.ok.inj h
      trivial
    · obtain rfl := Except.ok.inj h
      trivial
    · split at h <;> cases h

/-- **The steps of evaluation in the scope `s` keep a promise** where they come at the nodes `ok`:
looking up a name, binding one, making a closure, failing, returning and calling. -/
structure Promise.GrantsAt (P : Promise) (call : Calls) (s : ScopeId) (ok : Node → Prop) :
    Prop where
  plain : ∀ w {v : Value}, v.Plain → P.value w v
  lookup : ∀ w {x}, ok (.expr (.ident x)) → P.Keeps w (Eval.lookup s x.name) P.value
  assign : ∀ w {t x e v}, ok (.stmt (.bind t x e)) → P.value w v →
    P.Keeps w (Eval.assign s x.name v) fun _ _ => True
  closure : ∀ w {t xs body}, ok (.expr (.function t xs body)) →
    P.Keeps w (Eval.closure ⟨t, xs, body⟩ s) P.value
  error : ∀ w e, P.exit w (.error e)
  returned : ∀ w {v}, P.value w v → P.exit w (.returned (.value v))
  call : ∀ w {f vs}, P.value w f → (∀ v ∈ vs, P.value w v) →
    P.Keeps w (Eval.apply call f vs) P.value

/-- **The steps of evaluation in the scope `s` keep a promise** at any node that binds no other
names than `bound`. -/
structure Promise.Grants (P : Promise) (call : Calls) (s : ScopeId) (bound : String → Prop) :
    Prop where
  plain : ∀ w {v : Value}, v.Plain → P.value w v
  lookup : ∀ w x, P.Keeps w (Eval.lookup s x) P.value
  assign : ∀ w {x v}, bound x → P.value w v → P.Keeps w (Eval.assign s x v) fun _ _ => True
  closure : ∀ w literal, P.Keeps w (Eval.closure literal s) P.value
  error : ∀ w e, P.exit w (.error e)
  returned : ∀ w {v}, P.value w v → P.exit w (.returned (.value v))
  call : ∀ w {f vs}, P.value w f → (∀ v ∈ vs, P.value w v) →
    P.Keeps w (Eval.apply call f vs) P.value

/-- A promise that is kept at any node is kept at nodes that bind certain names. -/
theorem Promise.Grants.at_bound {P : Promise} {call : Calls} {s : ScopeId} {bound : String → Prop}
    (h : P.Grants call s bound) : P.GrantsAt call s fun n => ∀ x ∈ n.bound, bound x where
  plain := h.plain
  lookup w x _ := h.lookup w x.name
  assign w _ _ _ _ hn hv := h.assign w (List.forall_mem_cons.1 hn).1 hv
  closure w _ _ _ _ := h.closure w _
  error := h.error
  returned := h.returned
  call := h.call

namespace Promise.GrantsAt

variable {P : Promise} {call : Calls} {s : ScopeId} {ok : Node → Prop} (h : P.GrantsAt call s ok)

include h

theorem keeps_fail {α : Type} (w : World) (e : RuntimeError) {result : World → α → Prop} :
    P.Keeps w (Eval.fail e) result :=
  .throw (h.error w e)

/-- An operation has a plain value, or fails. -/
theorem keeps_ofOperator (w : World) {r : Except RuntimeError Value}
    (hr : ∀ v, r = .ok v → v.Plain) : P.Keeps w (Eval.ofOperator r) P.value := by
  intro hw r' w' hrun
  obtain ⟨rfl, rfl⟩ := Prod.mk.inj (Option.some.inj hrun)
  refine ⟨hw, P.changes_refl w, ?_⟩
  cases r with
  | ok v => exact h.plain w (hr v rfl)
  | error e => exact h.error w e

/-- A block that has no value is worth null. -/
theorem value_getD {w : World} {o : Option Value} (ho : ∀ v ∈ o, P.value w v) :
    P.value w (o.getD .null) := by
  cases o with
  | none => exact h.plain w trivial
  | some v => exact ho v rfl

/-- A branch of a conditional. -/
theorem keeps_getD {w : World} {x : Eval (Option Value)}
    (hx : P.Keeps w x fun w o => ∀ v ∈ o, P.value w v) :
    P.Keeps w (do return (← x).getD .null) P.value :=
  hx.bind fun _ _ _ ho => .pure (h.value_getD ho)

end Promise.GrantsAt

/-! ### Every node -/

section Every

variable {P : Promise} {call : Calls} {s : ScopeId} {ok : Node → Prop}

mutual

/-- **What the steps of evaluation keep, the evaluation of an expression keeps.** -/
theorem Expr.eval_keepsAt (h : P.GrantsAt call s ok) (hparts : Node.Hereditary ok) :
    (e : Expr) → ok (.expr e) → (w : World) → P.Keeps w (e.eval call s) P.value
  | .ident _, he, w => h.lookup w he
  | .integer _ _, _, w => .pure (h.plain w trivial)
  | .boolean _ _, _, w => .pure (h.plain w trivial)
  | .unary _ e, he, w => by
    have he := List.forall_mem_singleton.1 (hparts _ he)
    refine (Expr.eval_keepsAt h hparts e he w).bind fun v w' _ _ => ?_
    exact h.keeps_ofOperator w' fun r hr => Operator.plain_unary hr
  | .binary l _ r, he, w => by
    obtain ⟨hl, hr⟩ := List.forall_mem_cons.1 (hparts _ he)
    have hr := List.forall_mem_singleton.1 hr
    refine (Expr.eval_keepsAt h hparts l hl w).bind fun a w' _ _ => ?_
    refine (Expr.eval_keepsAt h hparts r hr w').bind fun b w'' _ _ => ?_
    exact h.keeps_ofOperator w'' fun r hr => Operator.plain_binary hr
  | .ifElse _ c yes none, he, w => by
    obtain ⟨hc, hyes⟩ := List.forall_mem_cons.1 (hparts _ he)
    have hyes := List.forall_mem_singleton.1 hyes
    refine (Expr.eval_keepsAt h hparts c hc w).bind fun v w' _ _ => ?_
    cases v.truthy with
    | true => exact h.keeps_getD (Block.eval_keepsAt h hparts yes hyes w')
    | false => exact .pure (h.plain w' trivial)
  | .ifElse _ c yes (some no), he, w => by
    obtain ⟨hc, hbranches⟩ := List.forall_mem_cons.1 (hparts _ he)
    obtain ⟨hyes, hno⟩ := List.forall_mem_cons.1 hbranches
    have hno := List.forall_mem_singleton.1 hno
    refine (Expr.eval_keepsAt h hparts c hc w).bind fun v w' _ _ => ?_
    cases v.truthy with
    | true => exact h.keeps_getD (Block.eval_keepsAt h hparts yes hyes w')
    | false => exact h.keeps_getD (Block.eval_keepsAt h hparts no hno w')
  | .function _ _ _, he, w => h.closure w he
  | .call _ f es, he, w => by
    obtain ⟨hf, hes⟩ := List.forall_mem_cons.1 (hparts _ he)
    refine (Expr.eval_keepsAt h hparts f hf w).bind fun v w' _ hv => ?_
    refine (Expr.evalAll_keepsAt h hparts es (List.forall_mem_map.1 hes) w').bind
      fun vs w'' hchanges hvs => ?_
    exact h.call w'' (P.value_of_changes hchanges hv) hvs
  | .error _ _ _, _, w => h.keeps_fail w _

/-- So does the evaluation of arguments. -/
theorem Expr.evalAll_keepsAt (h : P.GrantsAt call s ok) (hparts : Node.Hereditary ok) :
    (es : List Expr) → (∀ e ∈ es, ok (.expr e)) → (w : World) →
      P.Keeps w (Expr.evalAll call s es) fun w vs => ∀ v ∈ vs, P.value w v
  | [], _, w => .pure (by simp)
  | e :: es, hall, w => by
    obtain ⟨he, hes⟩ := List.forall_mem_cons.1 hall
    refine (Expr.eval_keepsAt h hparts e he w).bind fun v w' _ hv => ?_
    refine (Expr.evalAll_keepsAt h hparts es hes w').bind fun vs w'' hchanges hvs => .pure ?_
    rw [List.forall_mem_cons]
    exact ⟨P.value_of_changes hchanges hv, hvs⟩

/-- **What the steps of evaluation keep, the evaluation of a statement keeps.** -/
theorem Stmt.eval_keepsAt (h : P.GrantsAt call s ok) (hparts : Node.Hereditary ok) :
    (st : Stmt) → ok (.stmt st) → (w : World) →
      P.Keeps w (st.eval call s) fun w o => ∀ v ∈ o, P.value w v
  | .bind _ x e, hst, w => by
    have he := List.forall_mem_singleton.1 (hparts _ hst)
    refine (Expr.eval_keepsAt h hparts e he w).bind fun v w' _ hv => ?_
    exact (h.assign w' hst hv).bind fun _ _ _ _ => .pure (by simp)
  | .returns _ e, hst, w => by
    have he := List.forall_mem_singleton.1 (hparts _ hst)
    exact (Expr.eval_keepsAt h hparts e he w).bind fun _ w' _ hv => .throw (h.returned w' hv)
  | .expr _ e, hst, w => by
    have he := List.forall_mem_singleton.1 (hparts _ hst)
    exact (Expr.eval_keepsAt h hparts e he w).bind fun _ _ _ hv => .pure (by simpa using hv)
  | .block b, hst, w =>
    Block.eval_keepsAt h hparts b (List.forall_mem_singleton.1 (hparts _ hst)) w
  | .error _, _, w => h.keeps_fail w _

/-- So does the evaluation of several statements. -/
theorem Stmt.evalAll_keepsAt (h : P.GrantsAt call s ok) (hparts : Node.Hereditary ok) :
    (sts : List Stmt) → (∀ st ∈ sts, ok (.stmt st)) → (last : Option Value) → (w : World) →
      (∀ v ∈ last, P.value w v) →
      P.Keeps w (Stmt.evalAll call s last sts) fun w o => ∀ v ∈ o, P.value w v
  | [], _, _, _, hlast => .pure hlast
  | st :: sts, hall, _, w, _ => by
    obtain ⟨hst, hsts⟩ := List.forall_mem_cons.1 hall
    exact (Stmt.eval_keepsAt h hparts st hst w).bind fun o w' _ ho =>
      Stmt.evalAll_keepsAt h hparts sts hsts o w' ho

/-- **What the steps of evaluation keep, the evaluation of a block keeps.** -/
theorem Block.eval_keepsAt (h : P.GrantsAt call s ok) (hparts : Node.Hereditary ok) :
    (b : Block) → ok (.block b) → (w : World) →
      P.Keeps w (b.eval call s) fun w o => ∀ v ∈ o, P.value w v
  | ⟨_, sts⟩, hb, w =>
    Stmt.evalAll_keepsAt h hparts sts (List.forall_mem_map.1 (hparts _ hb)) none w (by simp)

end

variable {bound : String → Prop}

/-- **What the steps of evaluation keep at any node, the evaluation of an expression keeps.** -/
theorem Expr.eval_keeps (h : P.Grants call s bound) (e : Expr) (hbound : ∀ x ∈ e.bound, bound x)
    (w : World) : P.Keeps w (e.eval call s) P.value :=
  Expr.eval_keepsAt h.at_bound (Node.hereditary_bound bound) e hbound w

/-- So does the evaluation of several statements. -/
theorem Stmt.evalAll_keeps (h : P.Grants call s bound) (sts : List Stmt)
    (hbound : ∀ x ∈ Stmt.boundAll sts, bound x) (last : Option Value) (w : World)
    (hlast : ∀ v ∈ last, P.value w v) :
    P.Keeps w (Stmt.evalAll call s last sts) fun w o => ∀ v ∈ o, P.value w v :=
  Stmt.evalAll_keepsAt h.at_bound (Node.hereditary_bound bound) sts
    (Stmt.forall_mem_boundAll.1 hbound) last w hlast

end Every

/-! ### Calls -/

/-- Binding parameters to arguments keeps what binding one of them keeps. -/
theorem Eval.assignAll_keeps {P : Promise} {s : ScopeId} {w : World} {xs : List Ident}
    {vs : List Value} (hvs : ∀ v ∈ vs, P.value w v)
    (h : ∀ x ∈ xs, ∀ w v, P.value w v → P.Keeps w (Eval.assign s x.name v) fun _ _ => True) :
    P.Keeps w (Eval.assignAll s xs vs) fun _ _ => True := by
  induction xs generalizing vs w with
  | nil => cases vs <;> exact .pure trivial
  | cons x xs ih =>
      obtain ⟨hx, hxs⟩ := List.forall_mem_cons.1 h
      cases vs with
      | nil => exact .pure trivial
      | cons v vs =>
          obtain ⟨hv, hvs⟩ := List.forall_mem_cons.1 hvs
          refine (hx w v hv).bind fun _ w' hchanges _ => ?_
          exact ih (fun u hu => P.value_of_changes hchanges (hvs u hu)) hxs

/-- The promise that something else may unwind. -/
def Promise.withExit (P : Promise) (exit : World → Exit → Prop) : Promise :=
  { P with exit := exit }

/-- Taking a pending return keeps a promise, if what it brings may be a result. -/
theorem Promise.Keeps.catchReturn {P : Promise} {exit : World → Exit → Prop} {w : World}
    {x : Eval Value} (h : P.Keeps w x P.value)
    (hreturned : ∀ w o, P.exit w (.returned o) → (P.withExit exit).Yields P.value w o.release)
    (herror : ∀ w e, P.exit w (.error e) → exit w (.error e)) :
    (P.withExit exit).Keeps w (Eval.catchReturn x) P.value := by
  intro hw r w' hr
  rw [Eval.catchReturn_apply, Option.map_eq_some_iff] at hr
  obtain ⟨⟨r', w''⟩, hxw, hcaught⟩ := hr
  obtain ⟨rfl, rfl⟩ := Prod.mk.inj hcaught
  obtain ⟨hw', hchanges, hyields⟩ := h hw _ _ hxw
  refine ⟨hw', hchanges, ?_⟩
  rcases r' with (o | e) | v
  · exact hreturned _ o hyields
  · exact herror _ e hyields
  · exact hyields

/-- What a call does once the scope `s` has been made for it. -/
def Closure.enter (call : Calls) (c : Closure) (args : List Value) (s : ScopeId) : Eval Value := do
  Eval.assignAll s c.literal.parameters args
  Eval.catchReturn do
    return (← c.literal.body.eval call s).getD .null

/-- A call makes a scope and enters it. -/
theorem Closure.call_succ (depth : Nat) (c : Closure) (args : List Value) (w : World) :
    Closure.call (depth + 1) c args w =
      c.enter (Closure.call depth) args (w.enclose c.scope).1 (w.enclose c.scope).2 := rfl

/-- **What the steps of evaluation keep, a call keeps** once its scope has been made, if binding the
parameters keeps it. -/
theorem Closure.enter_keepsAt {P : Promise} (exit : World → Exit → Prop) {call : Calls}
    {s : ScopeId} {ok : Node → Prop} (h : P.GrantsAt call s ok) (hparts : Node.Hereditary ok)
    (hreturned : ∀ w o, P.exit w (.returned o) → (P.withExit exit).Yields P.value w o.release)
    (herror : ∀ w e, P.exit w (.error e) → exit w (.error e)) {c : Closure}
    (hassign : ∀ x ∈ c.literal.parameters, ∀ w v, P.value w v →
      P.Keeps w (Eval.assign s x.name v) fun _ _ => True)
    (hbody : ok (.block c.literal.body)) {args : List Value} {w : World}
    (hargs : ∀ v ∈ args, P.value w v) :
    (P.withExit exit).Keeps w (c.enter call args s) P.value := by
  have hassignAll : (P.withExit exit).Keeps w (Eval.assignAll s c.literal.parameters args)
      fun _ _ => True := by
    refine Eval.assignAll_keeps hargs fun x hx w v hv => ?_
    refine .of_eq (Eval.assign_apply s x.name v w) fun hw => ?_
    obtain ⟨hw', hchanges, -⟩ := hassign x hx w v hv hw _ _ (Eval.assign_apply s x.name v w)
    exact ⟨hw', hchanges, trivial⟩
  refine hassignAll.bind fun _ w' _ _ => ?_
  refine Promise.Keeps.catchReturn ?_ hreturned herror
  exact h.keeps_getD (Block.eval_keepsAt h hparts c.literal.body hbody w')

/-- **What the steps of evaluation keep at any node, a call keeps** once its scope has been made. -/
theorem Closure.enter_keeps {P : Promise} (exit : World → Exit → Prop) {call : Calls}
    {s : ScopeId} (h : P.Grants call s fun _ => True)
    (hreturned : ∀ w o, P.exit w (.returned o) → (P.withExit exit).Yields P.value w o.release)
    (herror : ∀ w e, P.exit w (.error e) → exit w (.error e)) (c : Closure) (args : List Value)
    (w : World) (hargs : ∀ v ∈ args, P.value w v) :
    (P.withExit exit).Keeps w (c.enter call args s) P.value :=
  Closure.enter_keepsAt exit h.at_bound (Node.hereditary_bound _) hreturned herror
    (fun _ _ w _ hv => h.assign w trivial hv) (fun _ _ => trivial) hargs

/-- A promise that is kept by the calls of closures is kept by the call of any value. -/
theorem Eval.apply_keeps {P : Promise} {call : Calls} {w : World} {f : Value} {vs : List Value}
    (herror : ∀ e, P.exit w (.error e))
    (hcall : ∀ c, f = .function c → P.Keeps w (call c vs) P.value) :
    P.Keeps w (Eval.apply call f vs) P.value := by
  cases f with
  | function c =>
      simp only [Eval.apply]
      split
      · exact hcall c rfl
      · exact .throw (herror _)
  | integer n => exact .throw (herror _)
  | boolean b => exact .throw (herror _)
  | null => exact .throw (herror _)

end LetFn
