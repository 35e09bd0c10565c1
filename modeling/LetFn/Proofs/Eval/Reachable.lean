/-
**The worlds that can come about.**

A world begins empty.  A host makes scopes, binds outcomes, runs nodes and calls values, and whatever
comes about in this way is *reachable*.  What is referred to in such a world exists: a scope lies in
one that was made before it, and a closure that is bound somewhere was made, and so was the scope it
was written in.  Hence no number is in use that is yet to be given.

Main definitions:

* `LetFn.Value.Within`, `LetFn.Outcome.Within` — what a world may hold;
* `LetFn.World.Closed` — what is referred to exists;
* `LetFn.World.Grows` — scopes and closures are only ever added;
* `LetFn.World.Reachable` — the worlds that can come about.

Main results:

* `LetFn.Closure.call_closed`, `LetFn.Node.run_closed` — calls and runs keep a world closed;
* `LetFn.World.Reachable.closed` — **in a reachable world what is referred to exists**.
-/

import LetFn.Proofs.Eval.Settled

set_option relaxedAutoImplicit false
set_option autoImplicit false

namespace LetFn

/-! ### What a world may hold -/

/-- The closure was made, and so was the scope it was written in. -/
def Closure.Within (w : World) (c : Closure) : Prop :=
  c.id < w.closures ∧ c.scope < w.scopes.size

/-- A value that the world may hold. -/
def Value.Within (w : World) : Value → Prop
  | .function c => c.Within w
  | _ => True

/-- An outcome that the world may hold. -/
def Outcome.Within (w : World) : Outcome → Prop
  | .value v => v.Within w
  | .returned o => o.Within w
  | .error _ => True

/-- What may unwind in the world. -/
def Exit.Within (w : World) : Exit → Prop
  | .returned o => o.Within w
  | .error _ => True

/-- **What is referred to exists**: a scope lies in an earlier one, and what is bound somewhere is
something that the world may hold. -/
structure World.Closed (w : World) : Prop where
  outer : ∀ {s : ScopeId} {scope : Scope} {a : ScopeId}, w.scopes[s]? = some scope →
    scope.outer = some a → a < s
  bound : ∀ {s : ScopeId} {scope : Scope} {x : String} {o : Outcome},
    w.scopes[s]? = some scope → scope.get? x = some o → o.Within w

/-- Scopes and closures are only ever added. -/
structure World.Grows (w w' : World) : Prop where
  scopes : w.scopes.size ≤ w'.scopes.size
  closures : w.closures ≤ w'.closures

namespace World

variable {w w' w'' : World} {s : ScopeId}

theorem Grows.refl (w : World) : w.Grows w :=
  ⟨Nat.le_refl _, Nat.le_refl _⟩

theorem Grows.trans (h : w.Grows w') (h' : w'.Grows w'') : w.Grows w'' :=
  ⟨Nat.le_trans h.scopes h'.scopes, Nat.le_trans h.closures h'.closures⟩

/-- What a world may hold it may hold later. -/
theorem Grows.value (h : w.Grows w') {v : Value} (hv : v.Within w) : v.Within w' := by
  cases v with
  | function c => exact ⟨Nat.lt_of_lt_of_le hv.1 h.closures, Nat.lt_of_lt_of_le hv.2 h.scopes⟩
  | integer | boolean | null => trivial

theorem Grows.outcome (h : w.Grows w') {o : Outcome} (ho : o.Within w) : o.Within w' := by
  induction o with
  | value v => exact h.value ho
  | returned o ih => exact ih ho
  | error e => trivial

theorem grows_set (w : World) (s : ScopeId) (x : String) (o : Outcome) : w.Grows (w.set s x o) :=
  ⟨by simp [World.set], Nat.le_refl _⟩

theorem grows_newScope (w : World) (outer : Option ScopeId) : w.Grows (w.newScope outer).2 :=
  ⟨by simp [World.newScope], Nat.le_refl _⟩

theorem grows_newClosure (w : World) (literal : Function) (s : ScopeId) :
    w.Grows (w.newClosure literal s).2 :=
  ⟨Nat.le_refl _, Nat.le_succ _⟩

/-- What a name is worth is something that the world may hold. -/
theorem Closed.get? (h : w.Closed) {x : String} {o : Outcome} (ho : w.get? s x = some o) :
    o.Within w := by
  obtain ⟨a, scope, ha, hx⟩ := exists_of_get? ho
  exact h.bound ha hx

theorem Closed.set (h : w.Closed) (s : ScopeId) (x : String) {o : Outcome} (ho : o.Within w) :
    (w.set s x o).Closed := by
  have hgrows := grows_set w s x o
  constructor
  · intro a scope b ha hb
    obtain ⟨scope', ha', rfl | rfl⟩ := scope_of_set ha <;> exact h.outer ha' hb
  · intro a scope y o' ha hy
    rcases bound_of_set ha hy with rfl | ⟨scope', ha, hy⟩
    · exact hgrows.outcome ho
    · exact hgrows.outcome (h.bound ha hy)

theorem Closed.newScope (h : w.Closed) {outer : Option ScopeId}
    (houter : ∀ a ∈ outer, a < w.scopes.size) : (w.newScope outer).2.Closed := by
  have hgrows := grows_newScope w outer
  constructor
  · intro a scope b ha hb
    rcases scope_of_newScope ha with ⟨rfl, rfl⟩ | ha
    · exact houter b hb
    · exact h.outer ha hb
  · exact fun ha hy => hgrows.outcome (h.bound (bound_of_newScope ha hy) hy)

theorem Closed.newClosure (h : w.Closed) (literal : Function) (s : ScopeId) :
    (w.newClosure literal s).2.Closed :=
  ⟨h.outer, fun ha hx => (grows_newClosure w literal s).outcome (h.bound ha hx)⟩

end World

/-! ### Evaluation in a closed world -/

/-- The promise to keep a world closed in which there is the scope `s`. -/
def Promise.closed (s : ScopeId) : Promise where
  holds w := w.Closed ∧ s < w.scopes.size
  changes := World.Grows
  value w v := v.Within w
  exit w e := e.Within w
  changes_refl := World.Grows.refl
  changes_trans := World.Grows.trans
  value_of_changes h hv := h.value hv

/-- An outcome that the world may hold is let go. -/
theorem Promise.yields_release_closed {s : ScopeId} {w : World} {o : Outcome} (h : o.Within w) :
    (Promise.closed s).Yields (Promise.closed s).value w o.release := by
  cases o with
  | value v => exact h
  | returned o => exact h
  | error e => trivial

theorem Value.Plain.within {v : Value} (h : v.Plain) (w : World) : v.Within w := by
  cases v with
  | function c => exact h.elim
  | integer | boolean | null => trivial

/-- Calls keep a world closed. -/
def CallsClosed (call : Calls) : Prop :=
  ∀ s c vs w, c.Within w → (∀ v ∈ vs, v.Within w) →
    (Promise.closed s).Keeps w (call c vs) (Promise.closed s).value

/-- The call of any value keeps a world closed, if those of closures do. -/
theorem Eval.apply_closed {call : Calls} (h : CallsClosed call) (s : ScopeId) {f : Value}
    {vs : List Value} {w : World} (hf : f.Within w) (hvs : ∀ v ∈ vs, v.Within w) :
    (Promise.closed s).Keeps w (Eval.apply call f vs) (Promise.closed s).value :=
  Eval.apply_keeps (fun _ => trivial) fun c hc => h s c vs w (by rw [hc] at hf; exact hf) hvs

/-- The steps of evaluation keep a world closed. -/
theorem Promise.grants_closed {call : Calls} (h : CallsClosed call) (s : ScopeId)
    (bound : String → Prop) : (Promise.closed s).Grants call s bound where
  plain w _ hv := hv.within w
  lookup w x := by
    refine .of_eq (Eval.lookup_apply s x w) fun hw => ⟨hw, .refl w, ?_⟩
    cases hx : w.get? s x with
    | none => trivial
    | some o => exact Promise.yields_release_closed (hw.1.get? hx)
  assign w x v _ hv :=
    .of_eq (Eval.assign_apply s x v w) fun hw =>
      ⟨⟨hw.1.set s x (o := .value v) hv, by simpa [World.set] using hw.2⟩,
        World.grows_set w s x _, trivial⟩
  closure w literal :=
    .of_eq (Eval.closure_apply literal s w) fun hw =>
      ⟨⟨hw.1.newClosure literal s, hw.2⟩, World.grows_newClosure w literal s,
        Nat.lt_succ_self _, hw.2⟩
  error _ _ := trivial
  returned _ _ hv := hv
  call _ _ _ hf hvs := Eval.apply_closed h s hf hvs

/-- **A call keeps a world closed**, however deep the calls in it nest. -/
theorem Closure.call_closed (depth : Nat) : CallsClosed (Closure.call depth) := by
  induction depth with
  | zero => intro s c vs w _ _ _ r w' h; cases h
  | succ depth ih =>
      intro s c vs w hc hvs hw r w' h
      rw [Closure.call_succ] at h
      have hgrows : w.Grows (w.enclose c.scope).2 := World.grows_newScope w (some c.scope)
      have hclosed : (w.enclose c.scope).2.Closed :=
        hw.1.newScope fun a ha => Option.some.inj ha ▸ hc.2
      have hnew : (w.enclose c.scope).1 < (w.enclose c.scope).2.scopes.size := by
        simp [World.enclose, World.newScope]
      have hgrants := Promise.grants_closed ih (w.enclose c.scope).1 fun _ => True
      have henter := Closure.enter_keeps (Promise.closed (w.enclose c.scope).1).exit hgrants
        (fun w o ho => Promise.yields_release_closed ho) (fun _ _ h => h) c vs
        (w.enclose c.scope).2 fun v hv => hgrows.value (hvs v hv)
      obtain ⟨⟨hw', -⟩, hgrows', hyields⟩ := henter ⟨hclosed, hnew⟩ r w' h
      have hall := hgrows.trans hgrows'
      exact ⟨⟨hw', Nat.lt_of_lt_of_le hw.2 hall.scopes⟩, hall, hyields⟩

/-- The call of any value keeps a world closed, and adds to it. -/
theorem Eval.closed_of_apply {depth : Nat} {f : Value} {args : List Value} {w w' : World}
    {r : Except Exit Value} (hw : w.Closed) (hf : f.Within w) (hargs : ∀ v ∈ args, v.Within w)
    (h : Eval.apply (Closure.call depth) f args w = some (r, w')) : w'.Closed ∧ w.Grows w' := by
  cases f with
  | function c =>
      obtain ⟨hw', hgrows, -⟩ := Eval.apply_closed (Closure.call_closed depth) c.scope hf hargs
        ⟨hw, hf.2⟩ r w' h
      exact ⟨hw'.1, hgrows⟩
  | integer | boolean | null =>
      obtain ⟨-, rfl⟩ := Prod.mk.inj (Option.some.inj h)
      exact ⟨hw, .refl w⟩

/-- A run of a node keeps a world closed. -/
theorem Node.run_closed {depth : Nat} {n : Node} {s : ScopeId} {w w' : World}
    {o : Option Outcome} (hw : w.Closed) (hs : s < w.scopes.size)
    (h : n.run depth s w = some (o, w')) : w'.Closed := by
  have hgrants := Promise.grants_closed (Closure.call_closed depth) s fun _ => True
  exact (Node.run_keeps hgrants (fun _ _ => trivial) ⟨hw, hs⟩ h).1.1

/-- A run of a node adds to a world. -/
theorem Node.run_grows {depth : Nat} {n : Node} {s : ScopeId} {w w' : World} {o : Option Outcome}
    (hw : w.Closed) (hs : s < w.scopes.size) (h : n.run depth s w = some (o, w')) : w.Grows w' := by
  have hgrants := Promise.grants_closed (Closure.call_closed depth) s fun _ => True
  exact (Node.run_keeps hgrants (fun _ _ => trivial) ⟨hw, hs⟩ h).2.1

/-! ### Reachable worlds -/

namespace World

/-- **The worlds that can come about**: a host makes scopes, binds any outcome of values that the
world holds, runs nodes in scopes, and calls values. -/
inductive Reachable : World → Prop
  | empty : Reachable .empty
  | newGlobal {w : World} : Reachable w → Reachable w.newGlobal.2
  | enclose {w : World} {s : ScopeId} :
      Reachable w → s < w.scopes.size → Reachable (w.enclose s).2
  | set {w : World} (s : ScopeId) (x : String) {o : Outcome} :
      Reachable w → o.Within w → Reachable (w.set s x o)
  | run {w w' : World} {depth : Nat} {n : Node} {s : ScopeId} {o : Option Outcome} :
      Reachable w → s < w.scopes.size → n.run depth s w = some (o, w') → Reachable w'
  | apply {w w' : World} {depth : Nat} {f : Value} {args : List Value} {r : Except Exit Value} :
      Reachable w → f.Within w → (∀ v ∈ args, v.Within w) →
      Eval.apply (Closure.call depth) f args w = some (r, w') → Reachable w'

/-- **In a reachable world what is referred to exists.** -/
theorem Reachable.closed {w : World} (h : w.Reachable) : w.Closed := by
  induction h with
  | empty => exact ⟨fun ha => by simp [World.empty] at ha, fun ha => by simp [World.empty] at ha⟩
  | newGlobal _ ih => exact ih.newScope (by simp)
  | enclose _ hs ih => exact ih.newScope fun a ha => Option.some.inj ha ▸ hs
  | set s x _ ho ih => exact ih.set s x ho
  | run _ hs hrun ih => exact Node.run_closed ih hs hrun
  | apply _ hf hargs hrun ih => exact (Eval.closed_of_apply ih hf hargs hrun).1

end World

end LetFn
