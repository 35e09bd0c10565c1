/-
**The identity of functions.**

A closure has a number, and two closures are equal if their numbers are.  That this is sound rests
on how numbers are given: a new closure has the number that comes next, so it differs from all that
were made before, wherever these are by now; and a closure is copied whole, into scopes, arguments,
results and whatever a host keeps, so copies with one number have one literal and one scope.

This is told by a *record* of all closures that were ever made.  No two closures on record share a
number, every number on record has been given, and whatever is bound in a scope is on record.
Evaluation only adds to the record, and what comes of it is on record as well.

Main definitions:

* `LetFn.World.Records` — **a record of all closures that were ever made**;
* `LetFn.Eval.Recorded` — a computation adds to the record;
* `LetFn.World.Session` — the worlds that a host comes to, with all that it has been given;
* `LetFn.World.functions` — the closures that are bound somewhere or are held.

Main results:

* `LetFn.Expr.eval_recorded`, `LetFn.Stmt.eval_recorded`, `LetFn.Block.eval_recorded` — **evaluation
  adds to the record**;
* `LetFn.Closure.call_recorded` — so do calls;
* `LetFn.Moment.Visits.recorded` — and so it is at every moment in the course of an evaluation;
* `LetFn.World.Session.recorded` — what a host holds is on record;
* `LetFn.World.identity_sound` — **the identity of functions is sound**, and equality is what the
  operators of the language say it is.
-/

import Mathlib.Data.Set.Function
import LetFn.Proofs.Eval.Course
import LetFn.Proofs.Eval.Renumber

set_option relaxedAutoImplicit false
set_option autoImplicit false

namespace LetFn

/-! ### Records -/

/-- The closure that an outcome holds is on record, if it holds one. -/
def Outcome.Made (made : Set Closure) (o : Outcome) : Prop :=
  ∀ c, o.closure? = some c → c ∈ made

/-- A closure is on record, and any other value. -/
def Value.Made (made : Set Closure) (v : Value) : Prop :=
  (Outcome.value v).Made made

/-- What unwinds brings nothing that is not on record. -/
def Exit.Made (made : Set Closure) : Exit → Prop
  | .returned o => o.Made made
  | .error _ => True

/-- **A record of all closures that were ever made**: no two of them share a number, every number
has been given, and what is bound in a scope is on record. -/
structure World.Records (w : World) (made : Set Closure) : Prop where
  distinct : made.InjOn Closure.id
  given : ∀ c ∈ made, c.id < w.closures
  bound : ∀ {s : ScopeId} {scope : Scope} {x : String} {o : Outcome},
    w.scopes[s]? = some scope → scope.get? x = some o → o.Made made

variable {made made' : Set Closure}

theorem Outcome.Made.mono {o : Outcome} (h : o.Made made) (hmade : made ⊆ made') : o.Made made' :=
  fun c hc => hmade (h c hc)

theorem Value.Made.mono {v : Value} (h : v.Made made) (hmade : made ⊆ made') : v.Made made' :=
  Outcome.Made.mono h hmade

@[simp] theorem Value.made_function {c : Closure} : (Value.function c).Made made ↔ c ∈ made := by
  simp [Value.Made, Outcome.Made, Outcome.closure?]

theorem Value.made_of_plain {v : Value} (h : v.Plain) : v.Made made := by
  cases v with
  | function c => exact h.elim
  | integer | boolean | null => exact fun c hc => by cases hc

namespace World.Records

variable {w : World} {s : ScopeId}

/-- What a name is worth is on record. -/
theorem get? (h : w.Records made) {x : String} {o : Outcome} (ho : w.get? s x = some o) :
    o.Made made := by
  obtain ⟨a, scope, ha, hx⟩ := exists_of_get? ho
  exact h.bound ha hx

/-- Binding what is on record. -/
theorem set (h : w.Records made) (s : ScopeId) (x : String) {o : Outcome} (ho : o.Made made) :
    (w.set s x o).Records made where
  distinct := h.distinct
  given := h.given
  bound ha hy := by
    rcases bound_of_set ha hy with rfl | ⟨scope', ha, hy⟩
    · exact ho
    · exact h.bound ha hy

/-- A new scope binds nothing. -/
theorem newScope (h : w.Records made) (outer : Option ScopeId) :
    (w.newScope outer).2.Records made where
  distinct := h.distinct
  given := h.given
  bound ha hy := h.bound (bound_of_newScope ha hy) hy

/-- **A new closure differs from all on record**, and goes on record. -/
theorem newClosure (h : w.Records made) (literal : Function) (s : ScopeId) :
    (w.newClosure literal s).2.Records (insert (w.newClosure literal s).1 made) where
  distinct := by
    rintro c (rfl | hc) d (rfl | hd) hid
    · rfl
    · exact absurd hid (Nat.ne_of_gt (h.given d hd))
    · exact absurd hid (Nat.ne_of_lt (h.given c hc))
    · exact h.distinct hc hd hid
  given := by
    rintro c (rfl | hc)
    · exact Nat.lt_succ_self _
    · exact Nat.lt_succ_of_lt (h.given c hc)
  bound ha hx := (h.bound ha hx).mono (Set.subset_insert _ _)

end World.Records

/-! ### Computations that add to the record -/

/-- What comes of a computation is on record: `result` holds of it if it is a result. -/
def Eval.YieldsMade {α : Type} (made : Set Closure) (result : Set Closure → α → Prop) :
    Except Exit α → Prop
  | .ok a => result made a
  | .error e => e.Made made

/-- **The computation adds to the record**: afterwards there is a record of all that was on record
and of what the computation has made, what comes of it among it. -/
def Eval.Recorded {α : Type} (made : Set Closure) (w : World) (x : Eval α)
    (result : Set Closure → α → Prop) : Prop :=
  w.Records made → ∀ r w', x w = some (r, w') →
    ∃ made', made ⊆ made' ∧ w'.Records made' ∧ YieldsMade made' result r

namespace Eval.Recorded

variable {α β : Type} {w : World} {x : Eval α} {result : Set Closure → α → Prop}

/-- A computation whose result and world are known. -/
theorem of_eq {w' : World} {r : Except Exit α} (hx : x w = some (r, w'))
    (h : w.Records made → ∃ made', made ⊆ made' ∧ w'.Records made' ∧ YieldsMade made' result r) :
    Recorded made w x result := by
  intro hw r' w'' hr
  rw [hx] at hr
  obtain ⟨rfl, rfl⟩ := Prod.mk.inj (Option.some.inj hr)
  exact h hw

theorem pure {a : α} (h : result made a) : Recorded made w (Pure.pure a) result :=
  .of_eq rfl fun hw => ⟨made, subset_rfl, hw, h⟩

theorem throw {e : Exit} (h : e.Made made) : Recorded made w (MonadExcept.throw e) result :=
  .of_eq rfl fun hw => ⟨made, subset_rfl, hw, h⟩

/-- **Computations one after the other add to the record.** -/
theorem bind {f : α → Eval β} {result' : Set Closure → β → Prop}
    (hx : Recorded made w x result)
    (hf : ∀ a w' made', made ⊆ made' → result made' a → Recorded made' w' (f a) result') :
    Recorded made w (x >>= f) result' := by
  intro hw r w'' hr
  rcases Eval.bind_cases hr with ⟨e, hxw, rfl⟩ | ⟨a, w', hxw, hr⟩
  · exact hx hw _ _ hxw
  · obtain ⟨made', hmade, hw', ha⟩ := hx hw _ _ hxw
    obtain ⟨made'', hmade', hw'', hresult⟩ := hf a w' made' hmade ha hw' r w'' hr
    exact ⟨made'', hmade.trans hmade', hw'', hresult⟩

end Eval.Recorded

/-! ### The steps of evaluation -/

section Steps

variable (made : Set Closure) (w : World) (s : ScopeId)

/-- What is let go is on record if the outcome is. -/
theorem Outcome.Made.release {made : Set Closure} {o : Outcome} (h : o.Made made) :
    Eval.YieldsMade made Value.Made o.release := by
  cases o with
  | value v => exact h
  | returned o => exact h
  | error e => trivial

theorem Eval.lookup_recorded (x : String) :
    Recorded made w (Eval.lookup s x) Value.Made := by
  refine .of_eq (Eval.lookup_apply s x w) fun hw => ⟨made, subset_rfl, hw, ?_⟩
  cases hx : w.get? s x with
  | none => trivial
  | some o => exact (hw.get? hx).release

theorem Eval.assign_recorded {made : Set Closure} (x : String) {v : Value} (hv : v.Made made) :
    Recorded made w (Eval.assign s x v) fun _ _ => True :=
  .of_eq (Eval.assign_apply s x v w) fun hw => ⟨made, subset_rfl, hw.set s x hv, trivial⟩

theorem Eval.closure_recorded (literal : Function) :
    Recorded made w (Eval.closure literal s) Value.Made :=
  .of_eq (Eval.closure_apply literal s w) fun hw =>
    ⟨_, Set.subset_insert _ _, hw.newClosure literal s, Value.made_function.2 (Set.mem_insert _ _)⟩

/-- An operation makes nothing. -/
theorem Eval.ofOperator_recorded {r : Except RuntimeError Value}
    (h : ∀ v, r = .ok v → v.Plain) : Recorded made w (Eval.ofOperator r) Value.Made := by
  cases r with
  | ok v => exact .pure (Value.made_of_plain (h v rfl))
  | error e => exact .throw trivial

/-- A block that has no value is worth null. -/
theorem Eval.getD_recorded {made : Set Closure} {x : Eval (Option Value)}
    (hx : Recorded made w x fun made o => ∀ v ∈ o, v.Made made) :
    Recorded made w (do return (← x).getD .null) Value.Made := by
  refine hx.bind fun o w' made' _ ho => .pure ?_
  cases o with
  | none => exact Value.made_of_plain trivial
  | some v => exact ho v rfl

end Steps

/-- Calls add to the record. -/
def CallsRecorded (call : Calls) : Prop :=
  ∀ made c vs w, c ∈ made → (∀ v ∈ vs, v.Made made) →
    Eval.Recorded made w (call c vs) Value.Made

/-- The call of any value adds to the record, if those of closures do. -/
theorem Eval.apply_recorded {call : Calls} (h : CallsRecorded call) {f : Value} {vs : List Value}
    {w : World} (hf : f.Made made) (hvs : ∀ v ∈ vs, v.Made made) :
    Recorded made w (Eval.apply call f vs) Value.Made := by
  cases f with
  | function c =>
      simp only [Eval.apply]
      split
      · exact h made c vs w (Value.made_function.1 hf) hvs
      · exact .throw trivial
  | integer | boolean | null => exact .throw trivial

/-! ### Every node -/

mutual

/-- **The evaluation of an expression adds to the record.** -/
theorem Expr.eval_recorded {call : Calls} (h : CallsRecorded call) (s : ScopeId) :
    (e : Expr) → (made : Set Closure) → (w : World) →
      Eval.Recorded made w (e.eval call s) Value.Made
  | .ident x, made, w => Eval.lookup_recorded made w s x.name
  | .integer _ _, _, _ => .pure (Value.made_of_plain trivial)
  | .boolean _ _, _, _ => .pure (Value.made_of_plain trivial)
  | .unary _ e, made, w => by
    refine (Expr.eval_recorded h s e made w).bind fun v w' made' _ _ => ?_
    exact Eval.ofOperator_recorded made' w' fun _ hv => Operator.plain_unary hv
  | .binary l _ r, made, w => by
    refine (Expr.eval_recorded h s l made w).bind fun a w' made' _ _ => ?_
    refine (Expr.eval_recorded h s r made' w').bind fun b w'' made'' _ _ => ?_
    exact Eval.ofOperator_recorded made'' w'' fun _ hv => Operator.plain_binary hv
  | .ifElse _ c yes none, made, w => by
    refine (Expr.eval_recorded h s c made w).bind fun v w' made' _ _ => ?_
    cases v.truthy with
    | true => exact Eval.getD_recorded w' (Block.eval_recorded h s yes made' w')
    | false => exact .pure (Value.made_of_plain trivial)
  | .ifElse _ c yes (some no), made, w => by
    refine (Expr.eval_recorded h s c made w).bind fun v w' made' _ _ => ?_
    cases v.truthy with
    | true => exact Eval.getD_recorded w' (Block.eval_recorded h s yes made' w')
    | false => exact Eval.getD_recorded w' (Block.eval_recorded h s no made' w')
  | .function t xs body, made, w => Eval.closure_recorded made w s ⟨t, xs, body⟩
  | .call _ f es, made, w => by
    refine (Expr.eval_recorded h s f made w).bind fun v w' made' _ hv => ?_
    refine (Expr.evalAll_recorded h s es made' w').bind fun vs w'' made'' hmade hvs => ?_
    exact Eval.apply_recorded h (hv.mono hmade) hvs
  | .error _ _ _, _, _ => .throw trivial

/-- So does the evaluation of arguments. -/
theorem Expr.evalAll_recorded {call : Calls} (h : CallsRecorded call) (s : ScopeId) :
    (es : List Expr) → (made : Set Closure) → (w : World) →
      Eval.Recorded made w (Expr.evalAll call s es) fun made vs => ∀ v ∈ vs, v.Made made
  | [], _, _ => .pure (by simp)
  | e :: es, made, w => by
    refine (Expr.eval_recorded h s e made w).bind fun v w' made' _ hv => ?_
    refine (Expr.evalAll_recorded h s es made' w').bind fun vs w'' made'' hmade hvs => .pure ?_
    exact List.forall_mem_cons.2 ⟨hv.mono hmade, hvs⟩

/-- **The evaluation of a statement adds to the record.** -/
theorem Stmt.eval_recorded {call : Calls} (h : CallsRecorded call) (s : ScopeId) :
    (st : Stmt) → (made : Set Closure) → (w : World) →
      Eval.Recorded made w (st.eval call s) fun made o => ∀ v ∈ o, v.Made made
  | .bind _ x e, made, w => by
    refine (Expr.eval_recorded h s e made w).bind fun v w' made' _ hv => ?_
    exact (Eval.assign_recorded w' s x.name hv).bind fun _ _ _ _ _ => .pure (by simp)
  | .returns _ e, made, w =>
    (Expr.eval_recorded h s e made w).bind fun _ _ _ _ hv => .throw hv
  | .expr _ e, made, w =>
    (Expr.eval_recorded h s e made w).bind fun _ _ _ _ hv =>
      .pure fun _ hu => Option.some.inj hu ▸ hv
  | .block b, made, w => Block.eval_recorded h s b made w
  | .error _, _, _ => .throw trivial

/-- So does the evaluation of several statements. -/
theorem Stmt.evalAll_recorded {call : Calls} (h : CallsRecorded call) (s : ScopeId) :
    (sts : List Stmt) → (last : Option Value) → (made : Set Closure) → (w : World) →
      (∀ v ∈ last, v.Made made) →
      Eval.Recorded made w (Stmt.evalAll call s last sts) fun made o => ∀ v ∈ o, v.Made made
  | [], _, _, _, hlast => .pure hlast
  | st :: sts, _, made, w, _ =>
    (Stmt.eval_recorded h s st made w).bind fun o w' made' _ ho =>
      Stmt.evalAll_recorded h s sts o made' w' ho

/-- **The evaluation of a block adds to the record.** -/
theorem Block.eval_recorded {call : Calls} (h : CallsRecorded call) (s : ScopeId) :
    (b : Block) → (made : Set Closure) → (w : World) →
      Eval.Recorded made w (b.eval call s) fun made o => ∀ v ∈ o, v.Made made
  | ⟨_, sts⟩, made, w => Stmt.evalAll_recorded h s sts none made w (by simp)

end

/-! ### Calls -/

/-- Binding parameters to what is on record. -/
theorem Eval.assignAll_recorded (s : ScopeId) (xs : List Ident) {vs : List Value}
    {made : Set Closure} (hvs : ∀ v ∈ vs, v.Made made) (w : World) :
    Recorded made w (Eval.assignAll s xs vs) fun _ _ => True := by
  induction xs generalizing vs made w with
  | nil => cases vs <;> exact .pure trivial
  | cons x xs ih =>
      cases vs with
      | nil => exact .pure trivial
      | cons v vs =>
          obtain ⟨hv, hvs⟩ := List.forall_mem_cons.1 hvs
          refine (Eval.assign_recorded w s x.name hv).bind fun _ w' made' hmade _ => ?_
          exact ih (fun u hu => (hvs u hu).mono hmade) w'

/-- Taking a pending return makes nothing. -/
theorem Eval.Recorded.catchReturn {w : World} {x : Eval Value}
    (h : Recorded made w x Value.Made) : Recorded made w (Eval.catchReturn x) Value.Made := by
  intro hw r w' hr
  rw [Eval.catchReturn_apply, Option.map_eq_some_iff] at hr
  obtain ⟨⟨r', w''⟩, hxw, hcaught⟩ := hr
  obtain ⟨rfl, rfl⟩ := Prod.mk.inj hcaught
  obtain ⟨made', hmade, hw', hyields⟩ := h hw _ _ hxw
  refine ⟨made', hmade, hw', ?_⟩
  rcases r' with (o | e) | v
  · exact Outcome.Made.release hyields
  · trivial
  · exact hyields

/-- **A call adds to the record**, however deep the calls in it nest. -/
theorem Closure.call_recorded (depth : Nat) : CallsRecorded (Closure.call depth) := by
  induction depth with
  | zero => intro made c vs w _ _ _ r w' h; cases h
  | succ depth ih =>
      intro made c vs w hc hvs hw r w' h
      rw [Closure.call_succ] at h
      have henter : Eval.Recorded made (w.enclose c.scope).2
          (c.enter (Closure.call depth) vs (w.enclose c.scope).1) Value.Made := by
        refine (Eval.assignAll_recorded _ c.literal.parameters hvs _).bind
          fun _ w₁ made₁ _ _ => ?_
        exact (Eval.getD_recorded w₁
          (Block.eval_recorded ih _ c.literal.body made₁ w₁)).catchReturn
      exact henter (hw.newScope (some c.scope)) r w' h

/-! ### In the course of an evaluation -/

/-- **When the turn of a part of a node has come, all that is kept is on record.** -/
theorem Node.Part.recorded {call : Calls} (h : CallsRecorded call) {s : ScopeId} {n n' : Node}
    {w w' : World} {us : List Value} (hpart : n.Part call s w us n' w') (hw : w.Records made) :
    ∃ made', made ⊆ made' ∧ w'.Records made' ∧ ∀ v ∈ us, v.Made made' := by
  cases hpart with
  | operand | left | condition | callee | bound | returned | value | block =>
      exact ⟨made, subset_rfl, hw, by simp⟩
  | right hl =>
      obtain ⟨made', hmade, hw', ha⟩ := Expr.eval_recorded h s _ made w hw _ _ hl
      exact ⟨made', hmade, hw', List.forall_mem_singleton.2 ha⟩
  | consequence hc _ | alternative hc _ =>
      obtain ⟨made', hmade, hw', -⟩ := Expr.eval_recorded h s _ made w hw _ _ hc
      exact ⟨made', hmade, hw', by simp⟩
  | argument hf hes =>
      obtain ⟨made', hmade, hw', hv⟩ := Expr.eval_recorded h s _ made w hw _ _ hf
      obtain ⟨made'', hmade', hw'', hvs⟩ := Expr.evalAll_recorded h s _ made' _ hw' _ _ hes
      exact ⟨made'', hmade.trans hmade', hw'',
        List.forall_mem_cons.2 ⟨Value.Made.mono hv hmade', hvs⟩⟩
  | ofBlock hsts | ofProgram hsts =>
      obtain ⟨made', hmade, hw', hlast⟩ :=
        Stmt.evalAll_recorded h s _ none made w (by simp) hw _ _ hsts
      exact ⟨made', hmade, hw', fun v hv => hlast v (Option.mem_toList.1 hv)⟩

/-- **At every moment in the course of an evaluation all that is kept is on record.** -/
theorem Moment.Visits.recorded {m m' : Moment} (h : m.Visits m') (hw : m.world.Records made)
    (hkept : ∀ v ∈ m.kept, v.Made made) :
    ∃ made', made ⊆ made' ∧ m'.world.Records made' ∧ ∀ v ∈ m'.kept, v.Made made' := by
  induction h with
  | refl => exact ⟨made, subset_rfl, hw, hkept⟩
  | part _ hpart ih =>
      obtain ⟨made₁, hmade, hw₁, hvs⟩ := ih
      obtain ⟨made₂, hmade', hw₂, hus⟩ := hpart.recorded (Closure.call_recorded _) hw₁
      refine ⟨made₂, hmade.trans hmade', hw₂, List.forall_mem_append.2 ⟨hus, fun v hv => ?_⟩⟩
      exact (hvs v hv).mono hmade'
  | body _ hf hes _ hassign ih =>
      obtain ⟨made₁, hmade₁, hw₁, hvs⟩ := ih
      obtain ⟨made₂, hmade₂, hw₂, hc⟩ :=
        Expr.eval_recorded (Closure.call_recorded _) _ _ made₁ _ hw₁ _ _ hf
      obtain ⟨made₃, hmade₃, hw₃, hus⟩ :=
        Expr.evalAll_recorded (Closure.call_recorded _) _ _ made₂ _ hw₂ _ _ hes
      obtain ⟨made₄, hmade₄, hw₄, -⟩ :=
        Eval.assignAll_recorded _ _ hus _ (hw₃.newScope _) _ _ hassign
      have hall : made₁ ⊆ made₄ := (hmade₂.trans hmade₃).trans hmade₄
      refine ⟨made₄, hmade₁.trans hall, hw₄, List.forall_mem_cons.2 ⟨?_, ?_⟩⟩
      · exact Value.Made.mono hc (hmade₃.trans hmade₄)
      · exact List.forall_mem_append.2
          ⟨fun v hv => (hus v hv).mono hmade₄, fun v hv => (hvs v hv).mono hall⟩

/-! ### Sessions -/

/-- **The worlds that a host comes to, with all outcomes that it has been given.**  It makes scopes,
binds what it has been given, or what holds no function, looks names up, and runs nodes. -/
inductive World.Session : World → Set Outcome → Prop
  | empty : Session .empty ∅
  | newGlobal {w : World} {held : Set Outcome} : Session w held → Session w.newGlobal.2 held
  | enclose {w : World} {held : Set Outcome} (s : ScopeId) :
      Session w held → Session (w.enclose s).2 held
  | set {w : World} {held : Set Outcome} (s : ScopeId) (x : String) {o : Outcome} :
      Session w held → o ∈ held ∨ o.closure? = none → Session (w.set s x o) held
  | lookup {w : World} {held : Set Outcome} {s : ScopeId} {x : String} {o : Outcome} :
      Session w held → w.get? s x = some o → Session w (insert o held)
  | run {w w' : World} {held : Set Outcome} {depth : Nat} {n : Node} {s : ScopeId}
      {o : Option Outcome} :
      Session w held → n.run depth s w = some (o, w') → Session w' ({o' | o = some o'} ∪ held)

/-- What comes of an evaluation is on record as an outcome. -/
theorem Eval.YieldsMade.ofExcept? {r : Except Exit (Option Value)}
    (h : YieldsMade made (fun made o => ∀ v ∈ o, v.Made made) r) :
    ∀ o ∈ Outcome.ofExcept? r, o.Made made := by
  intro o ho
  rcases r with (o' | e) | (_ | v)
  · obtain rfl := Option.some.inj ho
    exact h
  · obtain rfl := Option.some.inj ho
    exact fun c hc => by cases hc
  · cases ho
  · obtain rfl := Option.some.inj ho
    exact h v rfl

theorem Outcome.Made.unwrap {o : Outcome} (h : o.Made made) : o.unwrap.Made made := by
  cases o with
  | value | returned | error => exact h

/-- **A run adds to the record**, and what comes of it is on record. -/
theorem Node.run_recorded {depth : Nat} {n : Node} {s : ScopeId} {w w' : World}
    {o : Option Outcome} (hw : w.Records made) (h : n.run depth s w = some (o, w')) :
    ∃ made', made ⊆ made' ∧ w'.Records made' ∧ ∀ o' ∈ o, o'.Made made' := by
  have hcalls := Closure.call_recorded depth
  cases n with
  | program p =>
      obtain ⟨r, hr, rfl⟩ := Program.run_eq_some_iff.1 h
      obtain ⟨made', hmade, hw', hyields⟩ :=
        Stmt.evalAll_recorded hcalls s p.statements none made w (by simp) hw r w' hr
      refine ⟨made', hmade, hw', fun o ho => ?_⟩
      obtain ⟨o', ho', rfl⟩ := Option.mem_map.1 ho
      exact (hyields.ofExcept? o' ho').unwrap
  | stmt st =>
      obtain ⟨r, hr, rfl⟩ := Stmt.run_eq_some_iff.1 h
      obtain ⟨made', hmade, hw', hyields⟩ := Stmt.eval_recorded hcalls s st made w hw r w' hr
      exact ⟨made', hmade, hw', hyields.ofExcept?⟩
  | block b =>
      obtain ⟨r, hr, rfl⟩ := Block.run_eq_some_iff.1 h
      obtain ⟨made', hmade, hw', hyields⟩ := Block.eval_recorded hcalls s b made w hw r w' hr
      exact ⟨made', hmade, hw', hyields.ofExcept?⟩
  | expr e =>
      obtain ⟨o, ho, rfl⟩ := Run.map_eq_some_iff.1 h
      obtain ⟨r, hr, rfl⟩ := Expr.run_eq_some_iff.1 ho
      obtain ⟨made', hmade, hw', hyields⟩ := Expr.eval_recorded hcalls s e made w hw r w' hr
      refine ⟨made', hmade, hw', fun o ho => ?_⟩
      obtain rfl := Option.some.inj ho
      rcases r with (o | e) | v
      · exact hyields
      · exact fun c hc => by cases hc
      · exact hyields

namespace World

variable {w : World} {held : Set Outcome}

/-- **What a host holds is on record.** -/
theorem Session.recorded (h : Session w held) :
    ∃ made, w.Records made ∧ ∀ o ∈ held, o.Made made := by
  induction h with
  | empty =>
      refine ⟨∅, ⟨Set.injOn_empty _, by simp, fun ha => ?_⟩, by simp⟩
      simp [World.empty] at ha
  | newGlobal _ ih =>
      obtain ⟨made, hw, hheld⟩ := ih
      exact ⟨made, hw.newScope none, hheld⟩
  | enclose s _ ih =>
      obtain ⟨made, hw, hheld⟩ := ih
      exact ⟨made, hw.newScope (some s), hheld⟩
  | set s x _ ho ih =>
      obtain ⟨made, hw, hheld⟩ := ih
      refine ⟨made, hw.set s x ?_, hheld⟩
      rcases ho with ho | ho
      · exact hheld _ ho
      · exact fun c hc => by simp [ho] at hc
  | lookup _ ho ih =>
      obtain ⟨made, hw, hheld⟩ := ih
      refine ⟨made, hw, ?_⟩
      rintro o' (rfl | ho')
      · exact hw.get? ho
      · exact hheld o' ho'
  | run _ hrun ih =>
      obtain ⟨made, hw, hheld⟩ := ih
      obtain ⟨made', hmade, hw', ho⟩ := Node.run_recorded hw hrun
      refine ⟨made', hw', ?_⟩
      rintro o' (ho' | ho')
      · exact ho o' ho'
      · exact (hheld o' ho').mono hmade

/-- Interpreting a text is a step of a session: a text with syntax errors does nothing. -/
theorem Session.interpret {depth : Nat} {source : String} {s : ScopeId} {w' : World}
    {r : Except (List SyntaxError) (Option Outcome)} (h : Session w held)
    (hrun : LetFn.interpret depth source s w = some (r, w')) :
    Session w' ({o | r = .ok (some o)} ∪ held) := by
  by_cases hcorrect : (Parsed.ofString source).errors = []
  · rw [interpret_of_correct hcorrect] at hrun
    obtain ⟨o, ho, rfl⟩ := Run.map_eq_some_iff.1 hrun
    simpa using h.run (n := .program (Parsed.ofString source).program) ho
  · rw [interpret_of_errors hcorrect] at hrun
    obtain ⟨rfl, rfl⟩ := Prod.mk.inj (Option.some.inj hrun)
    simpa using h

/-- The closures that are bound in some scope of the world, or are among the outcomes `held`. -/
def functions (w : World) (held : Set Outcome) : Set Closure :=
  {c | (∃ o ∈ held, o.closure? = some c) ∨
    ∃ (s : ScopeId) (scope : Scope) (x : String) (o : Outcome),
      w.scopes[s]? = some scope ∧ scope.get? x = some o ∧ o.closure? = some c}

theorem Records.functions_subset (h : w.Records made) (hheld : ∀ o ∈ held, o.Made made) :
    w.functions held ⊆ made := by
  rintro c (⟨o, ho, hc⟩ | ⟨s, scope, x, o, hscope, hx, hc⟩)
  · exact hheld o ho c hc
  · exact h.bound hscope hx c hc

end World

/-- The closures that are bound somewhere at a moment, are kept by the evaluation, or are among the
outcomes `held`. -/
def Moment.functions (m : Moment) (held : Set Outcome) : Set Closure :=
  m.world.functions (held ∪ Outcome.value '' {v | v ∈ m.kept})

/-- In the course of a run, all closures there are are on record. -/
theorem World.Session.visited {w : World} {held : Set Outcome} (h : World.Session w held)
    {depth : Nat} {s : ScopeId} {n : Node} {m : Moment}
    (hm : Moment.Visits ⟨depth, s, [], n, w⟩ m) :
    ∃ made, m.world.Records made ∧ m.functions held ⊆ made := by
  obtain ⟨made, hw, hheld⟩ := h.recorded
  obtain ⟨made', hmade, hw', hkept⟩ := hm.recorded hw (by simp)
  refine ⟨made', hw', hw'.functions_subset ?_⟩
  rintro o (ho | ⟨v, hv, rfl⟩)
  · exact (hheld o ho).mono hmade
  · exact hkept v hv

/-! ### Equality -/

/-- What equality looks at in a value: of a closure only its number. -/
def Value.key : Value → Int64 ⊕ Bool ⊕ Option Nat
  | .integer n => .inl n
  | .boolean b => .inr (.inl b)
  | .null => .inr (.inr none)
  | .function c => .inr (.inr (some c.id))

/-- What equality looks at in an outcome: how many returns are pending, and the value that they
bring or the message of the error. -/
def Outcome.key : Outcome → Nat × ((Int64 ⊕ Bool ⊕ Option Nat) ⊕ String)
  | .value v => (0, .inl v.key)
  | .returned o => (o.key.1 + 1, o.key.2)
  | .error e => (0, .inr e.message)

theorem Value.equals_iff {u v : Value} : u.equals v = true ↔ u.key = v.key := by
  cases u <;> cases v <;> simp [Value.equals, Value.key]

/-- **Outcomes are equal if they look the same to equality**, so equality is an equivalence. -/
theorem Outcome.equals_iff {o o' : Outcome} : o.equals o' = true ↔ o.key = o'.key := by
  induction o generalizing o' with
  | value u => cases o' <;> simp [Outcome.equals, Outcome.key, Value.equals_iff]
  | returned o ih => cases o' <;> simp [Outcome.equals, Outcome.key, ih, Prod.ext_iff]
  | error e => cases o' <;> simp [Outcome.equals, Outcome.key]

theorem Operator.binary_equal {op : Token} (hop : op.kind = .equal) (u v : Value) :
    Operator.binary op u v = .ok (.boolean (u.equals v)) := by
  cases u <;> cases v <;> simp [Operator.binary, Operator.onIntegers, hop, Value.equals]

theorem Operator.binary_notEqual {op : Token} (hop : op.kind = .notEqual) (u v : Value) :
    Operator.binary op u v = .ok (.boolean !(u.equals v)) := by
  cases u <;> cases v <;> simp [Operator.binary, Operator.onIntegers, hop, Value.equals]

/-- **The identity of functions is sound.**  Take any moment in the course of a run that a host
starts in a world that it has come to.  Of all functions that are bound in some scope, kept by the
evaluation, or held by the host, two that are equal have one literal and one scope; and if it is the
turn of a function literal, its value differs from all of these.  Equality is an equivalence on all
outcomes, and the operators `==` and `!=` have it and its negation as their values on any two
values. -/
theorem World.identity_sound :
    (∀ (w : World) (held : Set Outcome), World.Session w held →
      ∀ (depth : Nat) (s : ScopeId) (n : Node) (m : Moment), Moment.Visits ⟨depth, s, [], n, w⟩ m →
        (∀ c ∈ m.functions held, ∀ d ∈ m.functions held,
          (Value.function c).equals (.function d) = true →
            c.literal = d.literal ∧ c.scope = d.scope) ∧
        ∀ (t : Token) (xs : List Ident) (body : Block), m.node = .expr (.function t xs body) →
          ∃ c w', Expr.run m.depth m.scope (.function t xs body) m.world =
              some (.value (.function c), w') ∧
            c.literal = ⟨t, xs, body⟩ ∧ c.scope = m.scope ∧
            ∀ d ∈ m.functions held, (Value.function c).equals (.function d) = false) ∧
    (∀ o : Outcome, o.equals o = true) ∧
    (∀ o o' : Outcome, o.equals o' = true → o'.equals o = true) ∧
    (∀ o o' o'' : Outcome, o.equals o' = true → o'.equals o'' = true → o.equals o'' = true) ∧
    ∀ (op : Token) (u v : Value),
      (op.kind = .equal →
        Operator.binary op u v = .ok (.boolean ((Outcome.value u).equals (.value v)))) ∧
      (op.kind = .notEqual →
        Operator.binary op u v = .ok (.boolean !((Outcome.value u).equals (.value v)))) := by
  refine ⟨fun w held hsession depth s n m hm => ?_, fun o => Outcome.equals_iff.2 rfl,
    fun o o' h => ?_, fun o o' o'' h h' => ?_, fun op u v => ⟨fun hop => ?_, fun hop => ?_⟩⟩
  · obtain ⟨made, hrecords, hfunctions⟩ := hsession.visited hm
    refine ⟨fun c hc d hd hequal => ?_, fun t xs body hnode => ?_⟩
    · have hid : c.id = d.id := of_decide_eq_true hequal
      obtain rfl := hrecords.distinct (hfunctions hc) (hfunctions hd) hid
      exact ⟨rfl, rfl⟩
    · refine ⟨(m.world.newClosure ⟨t, xs, body⟩ m.scope).1, _, rfl, rfl, rfl, fun d hd => ?_⟩
      exact decide_eq_false (Nat.ne_of_gt (hrecords.given d (hfunctions hd)))
  · exact Outcome.equals_iff.2 (Outcome.equals_iff.1 h).symm
  · exact Outcome.equals_iff.2 ((Outcome.equals_iff.1 h).trans (Outcome.equals_iff.1 h'))
  · exact Operator.binary_equal hop u v
  · exact Operator.binary_notEqual hop u v

/-- The function `fn(x) { x }`, whatever its tokens. -/
def Function.echo : Function :=
  ⟨⟨.kwFn, "fn", .start⟩, [⟨⟨.identifier, "x", .start⟩, "x"⟩], ⟨⟨.braceLeft, "\x7b", .start⟩,
    [.expr ⟨.identifier, "x", .start⟩ (.ident ⟨⟨.identifier, "x", .start⟩, "x"⟩)]⟩⟩

/-- The expression `fn(x) { x }`. -/
def Expr.echo : Expr :=
  .function Function.echo.token Function.echo.parameters Function.echo.body

/-- In `fn(x) { x } == fn(x) { x }` the right operand is another function than the left one, which
is kept meanwhile, though the two have one literal and one scope. -/
theorem World.identity_sound_echo :
    ∃ (m : Moment) (c d : Closure) (w' : World),
      Moment.Visits ⟨0, 0, [], .expr (.binary Expr.echo ⟨.equal, "==", .start⟩ Expr.echo),
        World.empty.newGlobal.2⟩ m ∧
      m.kept = [.function c] ∧
      Expr.echo.run m.depth m.scope m.world = some (.value (.function d), w') ∧
      d.literal = c.literal ∧ d.scope = c.scope ∧
      (Value.function d).equals (.function c) = false := by
  have hleft : Expr.echo.eval (Closure.call 0) 0 World.empty.newGlobal.2 =
      some (.ok (.function ⟨0, Function.echo, 0⟩),
        (World.empty.newGlobal.2.newClosure Function.echo 0).2) := rfl
  have hm : Moment.Visits ⟨0, 0, [], .expr (.binary Expr.echo ⟨.equal, "==", .start⟩ Expr.echo),
      World.empty.newGlobal.2⟩ _ := .part .refl (.right hleft)
  have hsession : World.Session World.empty.newGlobal.2 ∅ := .newGlobal .empty
  obtain ⟨-, hliteral⟩ := World.identity_sound.1 _ _ hsession 0 0 _ _ hm
  obtain ⟨d, w', hrun, hd, hscope, hdiffers⟩ := hliteral _ _ _ rfl
  refine ⟨_, ⟨0, Function.echo, 0⟩, d, w', hm, rfl, hrun, hd, hscope, hdiffers _ ?_⟩
  exact .inl ⟨_, .inr ⟨_, List.mem_singleton_self _, rfl⟩, rfl⟩

end LetFn
