/-
**The walk outward.**

From a scope one comes to the scope around it, from there to the scope around that, and so on.  A
scope is made in one that exists already and never moves, so the walk ends, whatever was evaluated
in between; and a name is worth what the first scope on the walk that binds it binds it to.

A name that is bound in a scope is seen from those scopes, and from no others, whose walk meets no
binding of the name before it comes there.  For all others nothing changes.

Main definitions:

* `LetFn.World.Walk` — the scopes on the walk outward;
* `LetFn.World.own?` — what the scope itself binds a name to.

Main results:

* `LetFn.Moment.Visits.reachable` — at every moment of an evaluation the world is reachable;
* `LetFn.World.Nested.exists_walk`, `LetFn.World.Walk.unique` — every walk ends, and there is one
  from each scope;
* `LetFn.World.Walk.get?_eq` — the first scope that binds a name decides;
* `LetFn.World.get?_nearest` — **lookup is nearest-scope, and a write is seen from where the scope
  is nearest**.
-/

import LetFn.Proofs.Eval.Course
import LetFn.Proofs.Eval.Reachable

set_option relaxedAutoImplicit false
set_option autoImplicit false

namespace LetFn

/-! ### Worlds in the course of an evaluation -/

section Course

variable {depth : Nat} {s : ScopeId} {w w' : World}

/-- The world after an expression is reachable, and may hold its value. -/
theorem Expr.eval_reachable {e : Expr} {v : Value} (hw : w.Reachable) (hs : s < w.scopes.size)
    (h : e.eval (Closure.call depth) s w = some (.ok v, w')) :
    w'.Reachable ∧ w.Grows w' ∧ v.Within w' := by
  have hrun : (Node.expr e).run depth s w = some (some (.value v), w') :=
    Run.map_eq_some_iff.2 ⟨.value v, Expr.run_eq_iff.2 h, rfl⟩
  have hgrants := Promise.grants_closed (Closure.call_closed depth) s fun _ => True
  obtain ⟨-, hgrows, hv⟩ :=
    Expr.eval_keeps hgrants e (fun _ _ => trivial) w ⟨hw.closed, hs⟩ _ _ h
  exact ⟨hw.run hs hrun, hgrows, hv⟩

/-- So it is after the arguments of a call. -/
theorem Expr.evalAll_reachable {es : List Expr} {vs : List Value} (hw : w.Reachable)
    (hs : s < w.scopes.size) (h : Expr.evalAll (Closure.call depth) s es w = some (.ok vs, w')) :
    w'.Reachable ∧ w.Grows w' ∧ ∀ v ∈ vs, v.Within w' := by
  induction es generalizing w vs with
  | nil =>
      obtain ⟨rfl, rfl⟩ := Eval.pure_eq_ok_iff.1 h
      exact ⟨hw, .refl w, by simp⟩
  | cons e es ih =>
      obtain ⟨v, w₁, he, h⟩ := Eval.bind_eq_ok_iff.1 h
      obtain ⟨us, w₂, hes, h⟩ := Eval.bind_eq_ok_iff.1 h
      obtain ⟨rfl, rfl⟩ := Eval.pure_eq_ok_iff.1 h
      obtain ⟨hw₁, hgrows₁, hv⟩ := Expr.eval_reachable hw hs he
      obtain ⟨hw₂, hgrows₂, hus⟩ := ih hw₁ (Nat.lt_of_lt_of_le hs hgrows₁.scopes) hes
      exact ⟨hw₂, hgrows₁.trans hgrows₂, List.forall_mem_cons.2 ⟨hgrows₂.value hv, hus⟩⟩

/-- So it is after several statements. -/
theorem Stmt.evalAll_reachable {sts : List Stmt} {last : Option Value} (hw : w.Reachable)
    (hs : s < w.scopes.size)
    (h : Stmt.evalAll (Closure.call depth) s none sts w = some (.ok last, w')) :
    w'.Reachable ∧ w.Grows w' ∧ ∀ v ∈ last, v.Within w' := by
  have hrun : (Node.program ⟨sts⟩).run depth s w = some _ := Program.run_eq_some_iff.2 ⟨_, h, rfl⟩
  have hgrants := Promise.grants_closed (Closure.call_closed depth) s fun _ => True
  obtain ⟨-, hgrows, hlast⟩ :=
    Stmt.evalAll_keeps hgrants sts (fun _ _ => trivial) none w (by simp) ⟨hw.closed, hs⟩ _ _ h
  exact ⟨hw.run hs hrun, hgrows, hlast⟩

/-- So it is when parameters have been bound. -/
theorem Eval.assignAll_reachable {xs : List Ident} {vs : List Value} (hw : w.Reachable)
    (hvs : ∀ v ∈ vs, v.Within w) (h : Eval.assignAll s xs vs w = some (.ok (), w')) :
    w'.Reachable ∧ w.Grows w' := by
  induction xs generalizing w vs with
  | nil =>
      cases vs <;>
      · obtain ⟨-, rfl⟩ := Eval.pure_eq_ok_iff.1 h
        exact ⟨hw, .refl w⟩
  | cons x xs ih =>
      cases vs with
      | nil =>
          obtain ⟨-, rfl⟩ := Eval.pure_eq_ok_iff.1 h
          exact ⟨hw, .refl w⟩
      | cons v vs =>
          obtain ⟨hv, hvs⟩ := List.forall_mem_cons.1 hvs
          have hgrows := World.grows_set w s x.name (.value v)
          obtain ⟨hw', hgrows'⟩ := ih (w := w.set s x.name (.value v)) (hw.set s x.name hv)
            (fun u hu => hgrows.value (hvs u hu)) h
          exact ⟨hw', hgrows.trans hgrows'⟩

/-- When the turn of a part has come, the world is reachable. -/
theorem Node.Part.reachable {n n' : Node} {us : List Value} (hw : w.Reachable)
    (hs : s < w.scopes.size) (h : n.Part (Closure.call depth) s w us n' w') :
    w'.Reachable ∧ w.Grows w' ∧ ∀ v ∈ us, v.Within w' := by
  cases h with
  | operand | left | condition | callee | bound | returned | value | block =>
      exact ⟨hw, .refl w, by simp⟩
  | right hl =>
      obtain ⟨hw', hgrows, ha⟩ := Expr.eval_reachable hw hs hl
      exact ⟨hw', hgrows, List.forall_mem_singleton.2 ha⟩
  | consequence hc _ | alternative hc _ =>
      obtain ⟨hw', hgrows, -⟩ := Expr.eval_reachable hw hs hc
      exact ⟨hw', hgrows, by simp⟩
  | argument hf hes =>
      obtain ⟨hw₁, hgrows₁, hv⟩ := Expr.eval_reachable hw hs hf
      obtain ⟨hw₂, hgrows₂, hvs⟩ :=
        Expr.evalAll_reachable hw₁ (Nat.lt_of_lt_of_le hs hgrows₁.scopes) hes
      exact ⟨hw₂, hgrows₁.trans hgrows₂, List.forall_mem_cons.2 ⟨hgrows₂.value hv, hvs⟩⟩
  | ofBlock hsts | ofProgram hsts =>
      obtain ⟨hw', hgrows, hlast⟩ := Stmt.evalAll_reachable hw hs hsts
      exact ⟨hw', hgrows, fun v hv => hlast v (Option.mem_toList.1 hv)⟩

/-- **At every moment of an evaluation the world is reachable**, and may hold what is kept. -/
theorem Moment.Visits.reachable {m m' : Moment} (h : m.Visits m') (hw : m.world.Reachable)
    (hs : m.scope < m.world.scopes.size) (hkept : ∀ v ∈ m.kept, v.Within m.world) :
    m'.world.Reachable ∧ m'.scope < m'.world.scopes.size ∧ ∀ v ∈ m'.kept, v.Within m'.world := by
  induction h with
  | refl => exact ⟨hw, hs, hkept⟩
  | part _ hpart ih =>
      obtain ⟨hw₁, hs₁, hvs⟩ := ih
      obtain ⟨hw₂, hgrows, hus⟩ := hpart.reachable hw₁ hs₁
      exact ⟨hw₂, Nat.lt_of_lt_of_le hs₁ hgrows.scopes,
        List.forall_mem_append.2 ⟨hus, fun v hv => hgrows.value (hvs v hv)⟩⟩
  | @body depth s vs us t f es w w₁ w₂ w₃ c _ hf hes _ hassign ih =>
      obtain ⟨hw, hs, hvs⟩ := ih
      obtain ⟨hw₁, hgrows₁, hc⟩ := Expr.eval_reachable hw hs hf
      obtain ⟨hw₂, hgrows₂, hus⟩ :=
        Expr.evalAll_reachable hw₁ (Nat.lt_of_lt_of_le hs hgrows₁.scopes) hes
      have hc₂ : Value.Within w₂ (.function c) := hgrows₂.value hc
      have hgrows₃ := World.grows_newScope w₂ (some c.scope)
      obtain ⟨hw₃, hgrows₄⟩ := Eval.assignAll_reachable (hw₂.enclose hc₂.2)
        (fun v hv => hgrows₃.value (hus v hv)) hassign
      have hall := (hgrows₁.trans hgrows₂).trans (hgrows₃.trans hgrows₄)
      refine ⟨hw₃, ?_, List.forall_mem_cons.2 ⟨(hgrows₃.trans hgrows₄).value hc₂, ?_⟩⟩
      · refine Nat.lt_of_lt_of_le ?_ hgrows₄.scopes
        simp [World.enclose, World.newScope]
      · exact List.forall_mem_append.2 ⟨fun v hv => (hgrows₃.trans hgrows₄).value (hus v hv),
          fun v hv => hall.value (hvs v hv)⟩

end Course

namespace World

/-! ### The walk -/

/-- **The walk outward from a scope**: the scopes on it, that scope first. -/
inductive Walk (w : World) : ScopeId → List ScopeId → Prop
  | last {s : ScopeId} : w.outer? s = none → Walk w s [s]
  | step {s a : ScopeId} {l : List ScopeId} :
      w.outer? s = some a → Walk w a l → Walk w s (s :: l)

/-- What the scope itself binds a name to. -/
def own? (w : World) (s : ScopeId) (x : String) : Option Outcome :=
  w.scopes[s]?.bind (·.get? x)

/-- A scope lies in one that was made before it, or in none. -/
def Nested (w : World) : Prop :=
  ∀ s a : ScopeId, w.outer? s = some a → a < s

theorem isSome_own? (w : World) (s : ScopeId) (x : String) :
    (w.own? s x).isSome = w.contains s x := rfl

variable {w : World} {s : ScopeId} {l : List ScopeId}

/-- There is one walk from a scope at most. -/
theorem Walk.unique {l' : List ScopeId} (h : w.Walk s l) (h' : w.Walk s l') : l = l' := by
  induction h generalizing l' with
  | last hs =>
      cases h' with
      | last => rfl
      | step ha _ => simp [hs] at ha
  | step ha _ ih =>
      cases h' with
      | last hs => simp [hs] at ha
      | step ha' h' =>
          obtain rfl := Option.some.inj (ha.symm.trans ha')
          rw [ih h']

theorem Closed.nested (hw : w.Closed) : w.Nested := by
  intro s a h
  obtain ⟨scope, hscope, houter⟩ := Option.bind_eq_some_iff.1 h
  exact hw.outer hscope houter

/-- **Every walk ends.** -/
theorem Nested.exists_walk (hw : w.Nested) (s : ScopeId) : ∃ l, w.Walk s l := by
  induction s using Nat.strongRecOn with
  | ind s ih =>
      cases ha : w.outer? s with
      | none => exact ⟨[s], .last ha⟩
      | some a =>
          obtain ⟨l, hl⟩ := ih a (hw _ _ ha)
          exact ⟨s :: l, .step ha hl⟩

/-- On a walk one comes to older scopes all the time, and so never back. -/
theorem Walk.pairwise (h : w.Walk s l) (hw : w.Nested) :
    l.Pairwise (· > ·) ∧ ∀ a ∈ l, a ≤ s := by
  induction h with
  | last => exact ⟨List.pairwise_singleton _ _, by simp⟩
  | @step s a l ha _ ih =>
      obtain ⟨hpairwise, hle⟩ := ih
      have hlt : ∀ b ∈ l, b < s := fun b hb =>
        Nat.lt_of_le_of_lt (hle b hb) (hw _ _ ha)
      exact ⟨List.pairwise_cons.2 ⟨hlt, hpairwise⟩,
        List.forall_mem_cons.2 ⟨Nat.le_refl s, fun b hb => Nat.le_of_lt (hlt b hb)⟩⟩

/-! ### Looking up -/

/-- A name is worth what the scope itself binds it to or, failing that, what it is worth in the
scope around it. -/
theorem Nested.get?_eq (hw : w.Nested) (s : ScopeId) (x : String) :
    w.get? s x = (w.own? s x).or ((w.outer? s).bind (w.get? · x)) := by
  cases hscope : w.scopes[s]? with
  | none =>
      rw [World.get?, own?, outer?, hscope]
      rfl
  | some scope =>
      have houter : w.outer? s = scope.outer := by rw [outer?, hscope, Option.bind_some]
      rw [World.get?_eq hscope, own?, hscope, houter, Option.bind_some]
      cases ha : scope.outer with
      | none => rfl
      | some a => rw [Option.bind_some, Option.bind_some, if_pos (hw s a (houter.trans ha))]

/-- **The first scope on the walk that binds a name decides what the name is worth.** -/
theorem Walk.get?_eq (h : w.Walk s l) (hw : w.Nested) (x : String) :
    w.get? s x = (l.find? (w.contains · x)).bind (w.own? · x) := by
  induction h with
  | last hs =>
      rw [hw.get?_eq, hs, Option.bind_none, Option.or_none, List.find?_cons, ← isSome_own?]
      cases hx : w.own? _ x with
      | none => rfl
      | some o => simp [hx]
  | step ha _ ih =>
      rw [hw.get?_eq, ha, Option.bind_some, ih, List.find?_cons, ← isSome_own?]
      cases hx : w.own? _ x with
      | none => rfl
      | some o => simp [hx]

/-! ### Binding -/

section Set

variable {e : ScopeId} {x : String} {o : Outcome}

/-- Binding a name moves no scope. -/
theorem outer?_set (w : World) (e : ScopeId) (x : String) (o : Outcome) (s : ScopeId) :
    (w.set e x o).outer? s = w.outer? s := by
  rw [outer?, outer?, World.set, Array.getElem?_modify]
  split
  · cases w.scopes[s]? <;> rfl
  · rfl

/-- A name is bound in one scope, if there is such a scope, and nothing else is. -/
theorem own?_set (w : World) (e : ScopeId) (x : String) (o : Outcome) (s : ScopeId) (y : String) :
    (w.set e x o).own? s y =
      if (s = e ∧ y = x) ∧ e < w.scopes.size then some o else w.own? s y := by
  rw [own?, own?, World.set, Array.getElem?_modify]
  by_cases hs : e = s
  · subst hs
    rw [if_pos rfl]
    cases hscope : w.scopes[e]? with
    | none =>
        have he := Array.getElem?_eq_none_iff.1 hscope
        rw [if_neg fun h => Nat.not_lt_of_le he h.2, Option.map_none]
    | some scope =>
        obtain ⟨he, -⟩ := Array.getElem?_eq_some_iff.1 hscope
        simp only [Option.map_some, Option.bind_some, Scope.get?_set, true_and, he, and_true]
  · rw [if_neg hs, if_neg fun h => hs h.1.1.symm]

theorem contains_set (he : e < w.scopes.size) (s : ScopeId) (y : String) :
    (w.set e x o).contains s y = if s = e ∧ y = x then true else w.contains s y := by
  simp only [← isSome_own?, own?_set, he, and_true]
  split <;> rfl

/-- **What is bound in a scope is seen from where that scope is the nearest to bind the name.** -/
theorem Walk.get?_set (h : w.Walk s l) (hw : w.Nested) (he : e < w.scopes.size) (y : String) :
    (w.set e x o).get? s y =
      if y = x ∧ l.find? ((w.set e x o).contains · x) = some e then some o else w.get? s y := by
  have hw' : (w.set e x o).Nested := fun s a ha => hw s a ((outer?_set w e x o s).symm.trans ha)
  -- the scope itself decides, or it leaves the decision to the rest of the walk
  have hstep {s : ScopeId} {l : List ScopeId}
      (hrest : ((w.outer? s).bind ((w.set e x o).get? · y)) =
        if y = x ∧ l.find? ((w.set e x o).contains · x) = some e then some o
        else (w.outer? s).bind (w.get? · y)) :
      (w.set e x o).get? s y =
        if y = x ∧ (s :: l).find? ((w.set e x o).contains · x) = some e then some o
        else w.get? s y := by
    rw [hw'.get?_eq, hw.get?_eq, outer?_set, own?_set, hrest, List.find?_cons, contains_set he]
    by_cases hs : s = e <;> by_cases hy : y = x
    · simp [hs, hy, he]
    · simp [hs, hy]
    · subst hy
      simp only [hs, false_and, if_false, ← isSome_own?]
      cases w.own? s y <;> simp [hs]
    · simp [hs, hy]
  induction h with
  | last hs => exact hstep (by simp [hs])
  | step ha _ ih => exact hstep (by rw [ha, Option.bind_some, Option.bind_some, ih])

end Set

/-- **Lookup is nearest-scope, and a write is seen from where the scope is nearest.**  At every
moment of an evaluation that starts in a reachable world the world is reachable again, and in a
reachable world:

* from every scope there is one walk outward, it ends, it never comes to a scope twice and stays
  among the scopes that there are; and a name is worth what the first scope on the walk that
  contains it binds it to, or nothing if there is no such scope;
* after a name has been bound in a scope, exactly where that scope is the first on the walk to
  contain the name it is worth what it was bound to; all else that is looked up is worth what it
  was, the scope contains the name, and no other scope or name is contained that was not, or lies
  elsewhere. -/
theorem get?_nearest (hw : w.Reachable) :
    (∀ (depth : Nat) (s : ScopeId) (n : Node) (m : Moment), s < w.scopes.size →
      Moment.Visits ⟨depth, s, [], n, w⟩ m → m.world.Reachable) ∧
    (∀ s < w.scopes.size, ∃ l, w.Walk s l ∧ (∀ l', w.Walk s l' → l' = l) ∧ l.Nodup ∧
      (∀ a ∈ l, a < w.scopes.size) ∧
      ∀ x, w.get? s x = (l.find? (w.contains · x)).bind (w.own? · x)) ∧
    ∀ e < w.scopes.size, ∀ (x : String) (o : Outcome),
      (∀ d l, w.Walk d l → ∀ y, (w.set e x o).get? d y =
        if y = x ∧ l.find? ((w.set e x o).contains · x) = some e then some o else w.get? d y) ∧
      (∀ d, (w.set e x o).outer? d = w.outer? d) ∧
      (w.set e x o).contains e x = true ∧
      ∀ d y, ¬ (d = e ∧ y = x) → (w.set e x o).contains d y = w.contains d y := by
  refine ⟨fun depth s n m hs hm => ?_, fun s hs => ?_, fun e he x o => ⟨?_, ?_, ?_, ?_⟩⟩
  · exact (hm.reachable hw hs (by simp)).1
  · obtain ⟨l, hl⟩ := hw.closed.nested.exists_walk s
    obtain ⟨hpairwise, hle⟩ := hl.pairwise hw.closed.nested
    refine ⟨l, hl, fun l' hl' => hl'.unique hl, hpairwise.imp Nat.ne_of_gt, ?_,
      hl.get?_eq hw.closed.nested⟩
    exact fun a ha => Nat.lt_of_le_of_lt (hle a ha) hs
  · exact fun d l hl y => hl.get?_set hw.closed.nested he y
  · exact outer?_set w e x o
  · rw [contains_set he, if_pos ⟨rfl, rfl⟩]
  · exact fun d y hne => by rw [contains_set he, if_neg hne]

/-- A world with three scopes, one in the other, the outermost of which binds `a`. -/
def threeScopes : World :=
  (((empty.newGlobal.2.set 0 "a" (.value (.integer 1))).enclose 0).2.enclose 1).2

/-- What is bound in the middle of three scopes is seen from the innermost and not from the
outermost. -/
theorem get?_nearest_middle :
    threeScopes.Reachable ∧
    threeScopes.get? 2 "a" = some (.value (.integer 1)) ∧
    (threeScopes.set 1 "a" (.value .null)).get? 2 "a" = some (.value .null) ∧
    (threeScopes.set 1 "a" (.value .null)).get? 0 "a" = some (.value (.integer 1)) := by
  have hbound : (Outcome.value (.integer 1)).Within empty.newGlobal.2 := trivial
  have hw : threeScopes.Reachable :=
    ((Reachable.empty.newGlobal.set 0 "a" hbound).enclose (by decide)).enclose (by decide)
  have hinner : threeScopes.Walk 2 [2, 1, 0] := .step rfl (.step rfl (.last rfl))
  have houter : threeScopes.Walk 0 [0] := .last rfl
  obtain ⟨-, hwalk, hset⟩ := get?_nearest hw
  obtain ⟨_, -, hunique, -, -, hinnermost⟩ := hwalk 2 (by decide)
  obtain rfl := hunique _ hinner
  obtain ⟨_, -, hunique, -, -, houtermost⟩ := hwalk 0 (by decide)
  obtain rfl := hunique _ houter
  obtain ⟨hseen, -⟩ := hset 1 (by decide) "a" (.value .null)
  refine ⟨hw, ?_, ?_, ?_⟩
  · rw [hinnermost]
    rfl
  · rw [hseen 2 _ hinner]
    rfl
  · rw [hseen 0 _ houter, if_neg (by decide), houtermost]
    rfl

end World

end LetFn
