/-
**Nothing that unwinds is ever stored, and no pending return escapes.**

An outcome that unwinds is on its way outward, and evaluation binds none.  In a world in which no
scope binds such an outcome, looking up a name never unwinds with anything but the error that there
is no such name.  So what a pending return brings is a value, a call takes every pending return that
its body leaves, and a program takes the last one.

Main definitions:

* `LetFn.World.Settled` — no scope binds an outcome that unwinds.

Main results:

* `LetFn.Closure.call_settled` — **a call keeps a world settled, and leaves no return pending**;
* `LetFn.World.settled_of_run` — **evaluation keeps a world settled**, and what its pending returns
  bring is a value.
-/

import LetFn.Proofs.Eval.Promise
import LetFn.Proofs.Eval.Runs

set_option relaxedAutoImplicit false
set_option autoImplicit false

namespace LetFn

/-! ### Settled worlds -/

/-- No scope binds an outcome that unwinds. -/
def World.Settled (w : World) : Prop :=
  ∀ (a : ScopeId) (scope : Scope) (x : String) (o : Outcome), w.scopes[a]? = some scope →
    scope.get? x = some o → o.unwinds = false

theorem Outcome.exists_value {o : Outcome} (h : o.unwinds = false) : ∃ v, o = .value v := by
  cases o with
  | value v => exact ⟨v, rfl⟩
  | returned o => cases h
  | error e => cases h

namespace World

variable {w : World} {s : ScopeId}

/-- What a name is worth is bound to it in some scope. -/
theorem exists_of_get? {x : String} {o : Outcome} (h : w.get? s x = some o) :
    ∃ (a : ScopeId) (scope : Scope), w.scopes[a]? = some scope ∧ scope.get? x = some o := by
  induction s using Nat.strongRecOn with
  | ind s ih =>
      cases hs : w.scopes[s]? with
      | none =>
          rw [get?, hs] at h
          cases h
      | some scope =>
          rw [get?_eq hs] at h
          cases hx : scope.get? x with
          | some o' =>
              rw [hx] at h
              obtain rfl := Option.some.inj h
              exact ⟨s, scope, hs, hx⟩
          | none =>
              rw [hx, Option.none_or, Option.bind_eq_some_iff] at h
              obtain ⟨a, -, ha⟩ := h
              split at ha
              · exact ih a ‹_› ha
              · cases ha

/-- A scope after a name has been bound is one that there was, with the name bound or without. -/
theorem scope_of_set {a : ScopeId} {scope : Scope} {x : String} {o : Outcome}
    (ha : (w.set s x o).scopes[a]? = some scope) :
    ∃ scope', w.scopes[a]? = some scope' ∧ (scope = scope' ∨ scope = scope'.set x o) := by
  rw [World.set, Array.getElem?_modify] at ha
  split at ha
  · obtain ⟨scope', hs, rfl⟩ := Option.map_eq_some_iff.1 ha
    exact ⟨scope', ‹s = a› ▸ hs, .inr rfl⟩
  · exact ⟨scope, ha, .inl rfl⟩

/-- What is bound after a name has been bound is what it was bound to, or was bound before. -/
theorem bound_of_set {a : ScopeId} {scope : Scope} {x y : String} {o o' : Outcome}
    (ha : (w.set s x o).scopes[a]? = some scope) (hy : scope.get? y = some o') :
    o' = o ∨ ∃ scope', w.scopes[a]? = some scope' ∧ scope'.get? y = some o' := by
  obtain ⟨scope', hscope', rfl | rfl⟩ := scope_of_set ha
  · exact .inr ⟨scope, hscope', hy⟩
  · rw [Scope.get?_set] at hy
    split at hy
    · exact .inl (Option.some.inj hy).symm
    · exact .inr ⟨scope', hscope', hy⟩

/-- A scope after one has been made is the new one, or one that there was. -/
theorem scope_of_newScope {a : ScopeId} {scope : Scope} {outer : Option ScopeId}
    (ha : (w.newScope outer).2.scopes[a]? = some scope) :
    a = w.scopes.size ∧ scope = ⟨[], outer⟩ ∨ w.scopes[a]? = some scope := by
  rw [World.newScope, Array.getElem?_push] at ha
  split at ha
  · exact .inl ⟨‹_›, (Option.some.inj ha).symm⟩
  · exact .inr ha

/-- A new scope binds nothing. -/
theorem bound_of_newScope {a : ScopeId} {scope : Scope} {outer : Option ScopeId} {x : String}
    {o : Outcome} (ha : (w.newScope outer).2.scopes[a]? = some scope) (hx : scope.get? x = some o) :
    w.scopes[a]? = some scope := by
  rcases scope_of_newScope ha with ⟨-, rfl⟩ | ha
  · cases hx
  · exact ha

theorem Settled.set (h : w.Settled) (x : String) (v : Value) :
    (w.set s x (.value v)).Settled := by
  intro a scope y o ha hy
  rcases bound_of_set ha hy with rfl | ⟨scope', ha, hy⟩
  · rfl
  · exact h a scope' y o ha hy

theorem Settled.enclose (h : w.Settled) : (w.enclose s).2.Settled :=
  fun a scope y o ha hy => h a scope y o (bound_of_newScope ha hy) hy

end World

/-! ### Evaluation in a settled world -/

/-- The promise to keep a world settled, and to unwind with nothing but what `exit` allows. -/
def Promise.settled (exit : Exit → Prop) : Promise where
  holds := World.Settled
  changes _ _ := True
  value _ _ := True
  exit _ := exit
  changes_refl _ := trivial
  changes_trans _ _ := trivial
  value_of_changes _ h := h

/-- What unwinds inside a call or a program: an error, or a pending return of a value. -/
def Exit.Pending : Exit → Prop
  | .returned o => o.unwinds = false
  | .error _ => True

/-- What unwinds out of a call. -/
def Exit.Failing : Exit → Prop
  | .returned _ => False
  | .error _ => True

theorem Promise.yields_release {exit : Exit → Prop} {o : Outcome} (h : o.unwinds = false)
    (w : World) : (Promise.settled exit).Yields (fun _ _ => True) w o.release := by
  obtain ⟨v, rfl⟩ := Outcome.exists_value h
  trivial

/-- What keeps a world settled and may fail does so where returns may be pending too. -/
theorem Promise.keeps_pending {w : World} {x : Eval Value}
    (h : (Promise.settled Exit.Failing).Keeps w x fun _ _ => True) :
    (Promise.settled Exit.Pending).Keeps w x fun _ _ => True := by
  intro hw r w' hr
  obtain ⟨hw', -, hyields⟩ := h hw r w' hr
  refine ⟨hw', trivial, ?_⟩
  rcases r with (o | e) | v
  · exact hyields.elim
  · trivial
  · trivial

/-- Calls keep a world settled and leave no return pending. -/
def CallsSettle (call : Calls) : Prop :=
  ∀ c vs w, (Promise.settled Exit.Failing).Keeps w (call c vs) fun _ _ => True

/-- The call of any value does, if those of closures do. -/
theorem Eval.apply_settled {call : Calls} (h : CallsSettle call) (f : Value) (vs : List Value)
    (w : World) : (Promise.settled Exit.Failing).Keeps w (Eval.apply call f vs) fun _ _ => True :=
  Eval.apply_keeps (fun _ => trivial) fun c _ => h c vs w

/-- The steps of evaluation keep a world settled. -/
theorem Promise.grants_settled {call : Calls} (h : CallsSettle call) (s : ScopeId)
    (bound : String → Prop) : (Promise.settled Exit.Pending).Grants call s bound where
  plain _ _ _ := trivial
  lookup w x := by
    refine .of_eq (Eval.lookup_apply s x w) fun hw => ⟨hw, trivial, ?_⟩
    cases hx : w.get? s x with
    | none => trivial
    | some o =>
        obtain ⟨a, scope, ha, ho⟩ := World.exists_of_get? hx
        exact Promise.yields_release (hw a scope x o ha ho) w
  assign w x v _ _ := .of_eq (Eval.assign_apply s x v w) fun hw => ⟨hw.set x v, trivial, trivial⟩
  closure w literal :=
    .of_eq (Eval.closure_apply literal s w) fun hw => ⟨hw, trivial, trivial⟩
  error _ _ := trivial
  returned _ _ _ := rfl
  call w f vs _ _ := Promise.keeps_pending (Eval.apply_settled h f vs w)

/-- **A call keeps a world settled, and leaves no return pending**, however deep the calls in it
nest. -/
theorem Closure.call_settled (depth : Nat) : CallsSettle (Closure.call depth) := by
  induction depth with
  | zero => intro c vs w _ r w' h; cases h
  | succ depth ih =>
      intro c vs w hw r w' h
      rw [Closure.call_succ] at h
      have hgrants := Promise.grants_settled ih (w.enclose c.scope).1 fun _ => True
      have henter := Closure.enter_keeps (fun _ => Exit.Failing) hgrants
        (fun w o ho => Promise.yields_release ho w) (fun _ _ _ => trivial) c vs
        (w.enclose c.scope).2 fun _ _ => trivial
      exact henter hw.enclose r w' h

/-! ### Nodes -/

/-- No return is pending after a program. -/
theorem Program.run_settled {depth : Nat} {s : ScopeId} {p : Program} {w w' : World}
    {o : Option Outcome} (hw : w.Settled) (h : p.run depth s w = some (o, w')) :
    w'.Settled ∧ ∀ o', o ≠ some (.returned o') := by
  have hgrants := Promise.grants_settled (Closure.call_settled depth) s fun _ => True
  obtain ⟨hw', -, o', hpermits, rfl⟩ := Program.run_keeps hgrants (fun _ _ => trivial) hw h
  refine ⟨hw', fun o'' ho => ?_⟩
  obtain ⟨o', rfl, hunwrap⟩ := Option.map_eq_some_iff.1 ho
  cases o' with
  | value v => cases hunwrap
  | error e => cases hunwrap
  | returned o' =>
      -- what the return brings is a value, and not another pending return
      obtain ⟨v, rfl⟩ := Outcome.exists_value hpermits
      cases hunwrap

/-- **Nothing that unwinds is ever stored, and no pending return escapes.**  In a world in which no
scope binds an outcome that unwinds, and however deep calls may nest:

* after a run of any node again no scope binds such an outcome; what a pending return brings is a
  value, and no return is pending after a program;
* after the call of any value no scope binds such an outcome, and no return is pending;
* a program runs like the block of its statements, and takes a pending return. -/
theorem World.settled_of_run (depth : Nat) {w : World} (hw : w.Settled) :
    (∀ (n : Node) (s : ScopeId) (o : Option Outcome) (w' : World),
      n.run depth s w = some (o, w') → w'.Settled ∧
        ∀ o', o = some (.returned o') → (∀ p, n ≠ .program p) ∧ o'.unwinds = false) ∧
    (∀ (f : Value) (args : List Value) (r : Except Exit Value) (w' : World),
      Eval.apply (Closure.call depth) f args w = some (r, w') →
        w'.Settled ∧ ∀ o, r ≠ .error (.returned o)) ∧
    ∀ (p : Program) (brace : Token) (s : ScopeId),
      (Node.program p).run depth s w =
        ((Node.block ⟨brace, p.statements⟩).run depth s w).map fun r =>
          (r.1.map Outcome.unwrap, r.2) := by
  refine ⟨fun n s o w' h => ?_, fun f args r w' h => ?_, fun p brace s => ?_⟩
  · have hgrants := Promise.grants_settled (Closure.call_settled depth) s fun _ => True
    obtain ⟨hw', -, hpermits⟩ := Node.run_keeps hgrants (fun _ _ => trivial) hw h
    refine ⟨hw', fun o' ho => ?_⟩
    have hprogram : ∀ p, n ≠ .program p := by
      rintro p rfl
      exact (Program.run_settled hw h).2 o' ho
    have hexit := hpermits hprogram
    rw [ho] at hexit
    exact ⟨hprogram, hexit⟩
  · obtain ⟨hw', -, hyields⟩ := Eval.apply_settled (Closure.call_settled depth) f args w hw r w' h
    refine ⟨hw', ?_⟩
    rintro o rfl
    exact hyields
  · exact Program.run_eq depth s p brace w

/-- In a settled world the block `{ return y }` leaves a return of a value pending. -/
theorem World.settled_of_run_return :
    (⟨#[⟨[("y", .value (.integer 7))], none⟩], 0⟩ : World).Settled ∧
    ∃ o w', (Node.block ⟨⟨.braceLeft, "\x7b", .start⟩, [.returns ⟨.kwReturn, "return", .start⟩
        (.ident ⟨⟨.identifier, "y", .start⟩, "y"⟩)]⟩).run 0 0
        ⟨#[⟨[("y", .value (.integer 7))], none⟩], 0⟩ = some (o, w') ∧
      w'.Settled ∧ ∀ o', o = some (.returned o') → o'.unwinds = false := by
  have hw : (⟨#[⟨[("y", .value (.integer 7))], none⟩], 0⟩ : World).Settled := by
    intro a scope x o ha hx
    obtain ⟨-, rfl⟩ : a = 0 ∧ (⟨[("y", .value (.integer 7))], none⟩ : Scope) = scope := by
      cases a with
      | zero => simpa using ha
      | succ a => simp at ha
    obtain ⟨-, rfl⟩ : "y" = x ∧ Outcome.value (.integer 7) = o := by
      simpa [Scope.get?, Scope.find?] using hx
    rfl
  obtain ⟨⟨o, w'⟩, h⟩ := Option.isSome_iff_exists.1 (show ((Node.block
    ⟨⟨.braceLeft, "\x7b", .start⟩, [.returns ⟨.kwReturn, "return", .start⟩
      (.ident ⟨⟨.identifier, "y", .start⟩, "y"⟩)]⟩).run 0 0
    ⟨#[⟨[("y", .value (.integer 7))], none⟩], 0⟩).isSome = true by decide +kernel)
  obtain ⟨hw', hreturned⟩ := (World.settled_of_run 0 hw).1 _ 0 o w' h
  exact ⟨hw, o, w', h, hw', fun o' ho => (hreturned o' ho).2⟩

end LetFn
