/-
**A name that nobody mentions.**

Names are looked up and bound where the text says so, and nowhere else.  So if neither a node nor
any function that is bound in a world mentions a name, a run of the node never looks the name up and
never binds it: not in the scopes that there are, and not in those that it makes.  What the name is
bound to in some scope is then of no account.  Two worlds that differ in nothing else are run in
alike, and differ in nothing else when the run has ended.

The first half is a promise of one run, kept at nodes that do not mention the name; the second is a
comparison of two runs, in which everything may be reached and all names but this one are compared.

Main definitions:

* `LetFn.Node.Mentions` — the node itself names a name;
* `LetFn.Node.Omits`, `LetFn.Function.Omits`, `LetFn.World.Omits` — it is mentioned nowhere in a
  tree, in a literal, in the literals of a world;
* `LetFn.World.SameBut` — worlds that differ only in what one scope binds one name to.

Main results:

* `LetFn.Node.run_omits` — **a name that nobody mentions is bound nowhere anew**;
* `LetFn.Node.run_unmentioned` — **a name that nobody mentions cannot influence a run**.
-/

import LetFn.Proofs.Eval.Outward
import LetFn.Proofs.Eval.Repeat
import LetFn.Value.Text

set_option relaxedAutoImplicit false
set_option autoImplicit false

namespace LetFn

/-! ### Names that are not mentioned -/

section Omits

variable (z : String)

/-- The node itself names `z`: it is an occurrence of `z` or a binding of `z`, or a function with a
parameter `z`. -/
def Node.Mentions : Node → Prop
  | .expr (.ident x) => x.name = z
  | .expr (.function _ ps _) => ∃ x ∈ ps, x.name = z
  | .stmt (.bind _ x _) => x.name = z
  | _ => False

instance : DecidablePred (Node.Mentions z) := fun n => by
  unfold Node.Mentions
  split <;> infer_instance

/-- No node of a node names `z`. -/
def Node.Omits (n : Node) : Prop :=
  n.Every fun m => ¬ m.Mentions z

/-- No node of a literal names `z`, and no parameter is called `z`. -/
def Function.Omits (f : Function) : Prop :=
  (Node.expr (.function f.token f.parameters f.body)).Omits z

/-- The literal of the closure that an outcome holds, if it holds one, does not name `z`. -/
def Outcome.Omits (o : Outcome) : Prop :=
  ∀ c, o.closure? = some c → c.literal.Omits z

/-- The same of what unwinds. -/
def Exit.Omits : Exit → Prop
  | .returned o => o.Omits z
  | .error _ => True

/-- **No function that is bound in the world names `z`**; only what is bound to `z` itself may. -/
def World.Omits (w : World) : Prop :=
  ∀ (s : ScopeId) (x : String) (o : Outcome), x ≠ z → w.own? s x = some o → o.Omits z

end Omits

variable {z : String}

instance (n : Node) : Decidable (n.Omits z) :=
  inferInstanceAs (Decidable (∀ m ∈ n.nodes, ¬ m.Mentions z))

theorem Function.omits_iff {f : Function} :
    f.Omits z ↔ (∀ x ∈ f.parameters, x.name ≠ z) ∧ (Node.block f.body).Omits z := by
  refine Expr.every_function.trans (and_congr_left' ?_)
  simp [Node.Mentions]

theorem Outcome.omits_function {c : Closure} :
    (Outcome.value (.function c)).Omits z ↔ c.literal.Omits z := by
  simp [Outcome.Omits, Outcome.closure?]

theorem Value.Plain.omits {v : Value} (h : v.Plain) : (Outcome.value v).Omits z := by
  cases v with
  | function c => exact h.elim
  | integer | boolean | null =>
      intro c hc
      cases hc

/-! ### What a scope binds a name to -/

namespace World

variable {w : World}

/-- What is bound in a scope after a name has been bound is what it was bound to, or was bound
before. -/
theorem own?_of_set {e s : ScopeId} {x y : String} {o o' : Outcome}
    (h : (w.set e x o).own? s y = some o') : o' = o ∨ w.own? s y = some o' := by
  rw [own?_set] at h
  split at h
  · exact .inl (Option.some.inj h).symm
  · exact .inr h

/-- Binding a name leaves the other names alone. -/
theorem own?_set_of_ne {x y : String} (h : y ≠ x) (e s : ScopeId) (o : Outcome) :
    (w.set e x o).own? s y = w.own? s y := by
  rw [own?_set, if_neg fun hsame => h hsame.1.2]

/-- A new scope binds no name. -/
theorem own?_newScope (outer : Option ScopeId) (s : ScopeId) (x : String) :
    (w.newScope outer).2.own? s x = w.own? s x := by
  rw [own?, own?, World.newScope, Array.getElem?_push]
  split
  · rw [‹s = _›, Array.getElem?_eq_none (Nat.le_refl _)]
    rfl
  · rfl

/-- What a name is worth is something that a scope binds it to. -/
theorem exists_own?_of_get? {s : ScopeId} {x : String} {o : Outcome} (h : w.get? s x = some o) :
    ∃ a, w.own? a x = some o := by
  obtain ⟨a, scope, hscope, hx⟩ := exists_of_get? h
  exact ⟨a, Option.bind_eq_some_iff.2 ⟨scope, hscope, hx⟩⟩

theorem Omits.set (h : w.Omits z) (e : ScopeId) (x : String) {o : Outcome} (ho : o.Omits z) :
    (w.set e x o).Omits z := by
  intro s y o' hy hbound
  rcases own?_of_set hbound with rfl | hbound
  · exact ho
  · exact h s y o' hy hbound

theorem Omits.enclose (h : w.Omits z) (s : ScopeId) : (w.enclose s).2.Omits z := by
  intro a x o hx hbound
  exact h a x o hx ((own?_newScope (some s) a x).symm.trans hbound)

end World

/-! ### One run -/

/-- The promise to leave the name `z` alone in all scopes, those that are new included, and to make
no function that names it. -/
def Promise.omits (z : String) : Promise where
  holds w := w.Omits z
  changes w w' := ∀ s, w'.own? s z = w.own? s z
  value _ v := (Outcome.value v).Omits z
  exit _ e := e.Omits z
  changes_refl _ _ := rfl
  changes_trans h h' s := (h' s).trans (h s)
  value_of_changes _ hv := hv

/-- What is let go does not name `z` if the outcome does not. -/
theorem Promise.yields_release_omits {w : World} {o : Outcome} (h : o.Omits z) :
    (Promise.omits z).Yields (Promise.omits z).value w o.release := by
  cases o with
  | value v => exact h
  | returned o => exact h
  | error e => trivial

/-- Binding another name leaves `z` alone. -/
theorem Eval.assign_omits {x : String} (hx : x ≠ z) (s : ScopeId) (w : World) {v : Value}
    (hv : (Outcome.value v).Omits z) :
    (Promise.omits z).Keeps w (Eval.assign s x v) fun _ _ => True :=
  .of_eq (Eval.assign_apply s x v w) fun hw =>
    ⟨hw.set s x hv, fun a => World.own?_set_of_ne hx.symm s a _, trivial⟩

/-- Calls leave `z` alone. -/
def CallsOmit (z : String) (call : Calls) : Prop :=
  ∀ c vs w, c.literal.Omits z → (∀ v ∈ vs, (Outcome.value v).Omits z) →
    (Promise.omits z).Keeps w (call c vs) (Promise.omits z).value

/-- The steps of evaluation leave `z` alone at nodes that do not name it. -/
theorem Promise.grants_omits {call : Calls} (h : CallsOmit z call) (s : ScopeId) :
    (Promise.omits z).GrantsAt call s (Node.Omits z) where
  plain _ _ hv := hv.omits
  lookup w x hx := by
    refine .of_eq (Eval.lookup_apply s x.name w) fun hw => ⟨hw, fun _ => rfl, ?_⟩
    have hne : x.name ≠ z := Expr.every_ident.1 hx
    cases hbound : w.get? s x.name with
    | none => trivial
    | some o =>
        obtain ⟨a, ha⟩ := World.exists_own?_of_get? hbound
        exact Promise.yields_release_omits (hw a x.name o hne ha)
  assign w _ _ _ _ hx hv := Eval.assign_omits (Stmt.every_bind.1 hx).1 s w hv
  closure w t xs body hliteral := by
    refine .of_eq (Eval.closure_apply _ s w) fun hw => ⟨hw, fun _ => rfl, ?_⟩
    exact Outcome.omits_function.2 hliteral
  error _ _ := trivial
  returned _ _ hv := hv
  call w f vs hf hvs := by
    refine Eval.apply_keeps (fun _ => trivial) fun c hc => ?_
    subst hc
    exact h c vs w (Outcome.omits_function.1 hf) hvs

/-- **Calls leave a name alone that nobody mentions**, however deep they nest. -/
theorem Closure.call_omits (z : String) (depth : Nat) : CallsOmit z (Closure.call depth) := by
  induction depth with
  | zero =>
      intro c vs w _ _ _ r w' h
      cases h
  | succ depth ih =>
      intro c vs w hc hvs hw r w' h
      rw [Closure.call_succ] at h
      obtain ⟨hparameters, hbody⟩ := Function.omits_iff.1 hc
      have henter := Closure.enter_keepsAt (Promise.omits z).exit
        (Promise.grants_omits ih (w.enclose c.scope).1) (Node.hereditary_every _)
        (fun w o ho => Promise.yields_release_omits ho) (fun _ _ h => h)
        (fun x hx w v hv => Eval.assign_omits (hparameters x hx) _ w hv) hbody
        (w := (w.enclose c.scope).2) hvs
      obtain ⟨hw', hsame, hyields⟩ := henter (hw.enclose c.scope) r w' h
      exact ⟨hw', fun s => (hsame s).trans (World.own?_newScope _ s z), hyields⟩

/-- **A name that nobody mentions is bound nowhere anew**, neither in the scopes that there are nor
in those that are made; and nothing that mentions it is bound. -/
theorem Node.run_omits {depth : Nat} {s : ScopeId} {n : Node} {w w' : World} {o : Option Outcome}
    (hn : n.Omits z) (hw : w.Omits z) (h : n.run depth s w = some (o, w')) :
    w'.Omits z ∧ ∀ a, w'.own? a z = w.own? a z := by
  have hgrants := Promise.grants_omits (Closure.call_omits z depth) s
  obtain ⟨hw', hsame, -⟩ := Node.run_keepsAt hgrants (Node.hereditary_every _) hn hw h
  exact ⟨hw', hsame⟩

/-! ### Two runs -/

/-- **Worlds that differ only in what the scope `g` binds `z` to**: they have the same scopes, one
in the other alike, and as many closures. -/
structure World.SameBut (g : ScopeId) (z : String) (w w' : World) : Prop where
  size : w.scopes.size = w'.scopes.size
  outer? : ∀ s, w.outer? s = w'.outer? s
  own? : ∀ s x, ¬ (s = g ∧ x = z) → w.own? s x = w'.own? s x
  closures : w.closures = w'.closures

/-- Two runs that differ in nothing but a name that is not mentioned. -/
def Comparison.omitting (z : String) : Comparison where
  label := .same
  numbers := .refl
  node n := ¬ n.Mentions z
  name x := x ≠ z
  scope _ := True
  closure _ := True
  faithful := Relabelling.faithful_same
  name_ident h := h
  name_bind h := h
  name_parameter h x hx hz := h ⟨x, hx, hz⟩
  token_error _ := rfl
  token_errorStmt _ := rfl

theorem Value.translate_omitting (v : Value) : v.translate (.omitting z) = v := by
  cases v with
  | function c =>
      simp only [Value.translate, Closure.translate, Comparison.omitting, Function.relabel_same]
      rfl
  | integer | boolean | null => rfl

theorem Outcome.translate_omitting (o : Outcome) : o.translate (.omitting z) = o := by
  induction o with
  | value v => rw [Outcome.translate, Value.translate_omitting]
  | returned o ih => rw [Outcome.translate, ih]
  | error e => rfl

/-- Compared are outcomes whose closures do not name `z`. -/
theorem Outcome.admitted_omitting {o : Outcome} : o.Admitted (.omitting z) ↔ o.Omits z := by
  induction o with
  | value v =>
      cases v with
      | function c =>
          rw [Outcome.omits_function, Function.omits_iff]
          exact ⟨fun h => ⟨h.parameters, h.body⟩, fun h => ⟨trivial, trivial, h.1, h.2⟩⟩
      | integer | boolean | null => exact iff_of_true trivial (Value.Plain.omits trivial)
  | returned o ih => exact ih
  | error e => exact iff_of_true trivial fun c hc => by cases hc

namespace World

variable {g : ScopeId} {w w' : World}

/-- Worlds that differ only in what a scope binds `z` to are the same in other names. -/
theorem SameBut.matches (h : w.SameBut g z w') (hw : w.Omits z) :
    w.Matches (.omitting z) w' where
  scopes {s} _ := by
    have houter := h.outer? s
    have hown := h.own? s
    have homits := hw s
    change Option.Rel _ w.scopes[s]? w'.scopes[s]?
    rcases Nat.lt_or_ge s w.scopes.size with hs | hs
    · simp only [World.outer?, World.own?, Array.getElem?_eq_getElem hs,
        Array.getElem?_eq_getElem (h.size ▸ hs), Option.bind_some] at houter hown homits ⊢
      refine .some ⟨?_, fun _ _ => trivial, fun {x} hx => ?_, fun {x o} hx ho => ?_⟩
      · rw [← houter]
        exact (Option.map_id_apply).symm
      · rw [← hown x fun hsame => hx hsame.2, funext Outcome.translate_omitting]
        exact (Option.map_id_apply).symm
      · exact Outcome.admitted_omitting.2 (homits x o hx ho)
    · rw [Array.getElem?_eq_none hs, Array.getElem?_eq_none (h.size ▸ hs)]
      exact .none
  nextScope _ := congrArg (· + _) h.size
  reaches _ := trivial
  nextClosure _ := congrArg (· + _) h.closures
  reachesClosure _ := trivial

/-- Worlds that are the same in other names differ only in what a scope binds `z` to, if they do not
differ in what the other scopes bind it to. -/
theorem Matches.sameBut (h : w.Matches (.omitting z) w')
    (hz : ∀ s, s ≠ g → w.own? s z = w'.own? s z) : w.SameBut g z w' := by
  have hscopes (s : ScopeId) :
      w.outer? s = w'.outer? s ∧ ∀ x, x ≠ z → w.own? s x = w'.own? s x := by
    have hs : Option.Rel (Scope.Matches (.omitting z)) w.scopes[s]? w'.scopes[s]? :=
      h.scopes trivial
    simp only [World.outer?, World.own?]
    generalize w.scopes[s]? = found, w'.scopes[s]? = found' at hs
    cases hs with
    | none => exact ⟨rfl, fun _ _ => rfl⟩
    | some hscope =>
        refine ⟨?_, fun x hx => ?_⟩
        · exact ((hscope.outer).trans Option.map_id_apply).symm
        · have hget := hscope.get? (x := x) hx
          rw [funext Outcome.translate_omitting] at hget
          exact (hget.trans Option.map_id_apply).symm
  refine ⟨h.nextScope 0, fun s => (hscopes s).1, fun s x hne => ?_, h.nextClosure 0⟩
  by_cases hx : x = z
  · subst hx
    exact hz s fun hs => hne ⟨hs, rfl⟩
  · exact (hscopes s).2 x hx

/-- When `z` has been bound in `g`, a world differs only in what `g` binds `z` to. -/
theorem sameBut_set (w : World) (g : ScopeId) (z : String) (o : Outcome) :
    w.SameBut g z (w.set g z o) where
  size := by simp [World.set]
  outer? s := (outer?_set w g z o s).symm
  own? s x hne := by rw [own?_set, if_neg fun hsame => hne hsame.1]
  closures := rfl

/-- In the one world no function that is bound mentions `z` if none does in the other. -/
theorem SameBut.omits (h : w.SameBut g z w') (hw : w.Omits z) : w'.Omits z := by
  intro s x o hx hbound
  exact hw s x o hx ((h.own? s x fun hsame => hx hsame.2).trans hbound)

end World

/-- No node is changed where the tokens are not. -/
theorem Node.relabel_same (n : Node) : n.relabel .same = n := by
  cases n with
  | program p => exact congrArg Node.program p.relabel_same
  | stmt st => exact congrArg Node.stmt (Stmt.relabel_same st)
  | block b => exact congrArg Node.block (Block.relabel_same b)
  | expr e => exact congrArg Node.expr (Expr.relabel_same e)

/-- **A name that nobody mentions cannot influence a run.**  Let neither a node nor any function
that is bound in a world mention `z`, and let another world differ only in what some scope binds `z`
to, if it binds it at all.  Then runs of the node in the two worlds, from any scope, both come to an
end or neither does; they have the same outcome and make the same scopes and functions; and the
worlds after them again differ only in what that scope binds `z` to, which is what it was bound to
before. -/
theorem Node.run_unmentioned {n : Node} (hn : n.Omits z) {g : ScopeId} {w w' : World}
    (hw : w.Omits z) (h : w.SameBut g z w') (depth : Nat) (s : ScopeId) :
    Option.Rel (fun r r' => r.1 = r'.1 ∧ r.2.SameBut g z r'.2 ∧
        r.2.own? g z = w.own? g z ∧ r'.2.own? g z = w'.own? g z)
      (n.run depth s w) (n.run depth s w') := by
  have hparallel := Node.run_parallel (C := .omitting z) depth hn (s := s) trivial (h.matches hw)
  change Option.Rel _ _ ((n.relabel .same).run depth s w') at hparallel
  rw [Node.relabel_same] at hparallel
  cases hrun : n.run depth s w with
  | none =>
      rw [hrun] at hparallel
      generalize n.run depth s w' = x at hparallel
      cases hparallel
      exact .none
  | some r =>
      cases hrun' : n.run depth s w' with
      | none =>
          rw [hrun, hrun'] at hparallel
          cases hparallel
      | some r' =>
          rw [hrun, hrun'] at hparallel
          obtain ⟨hresult, hmatches⟩ := Option.rel_some_some.1 hparallel
          -- `z` is bound in either world as it was, also in scopes that have been made
          obtain ⟨-, hsame⟩ := Node.run_omits hn hw hrun
          obtain ⟨-, hsame'⟩ := Node.run_omits hn (h.omits hw) hrun'
          refine .some ⟨?_, hmatches.sameBut fun a ha => ?_, hsame g, hsame' g⟩
          · rw [hresult, funext Outcome.translate_omitting]
            exact (Option.map_id_apply).symm
          · rw [hsame, hsame', h.own? a z fun hg => ha hg.1]

/-- The world with one scope, in which `f` is `fn(x) { fn() { x } }`. -/
def World.remembering : World :=
  World.oneFunction.set 0 "f" (.value (.function ⟨0, Function.remember, 0⟩))

/-- The expression `f(true)()`, whatever its tokens. -/
def Expr.recollect : Expr :=
  .call ⟨.parenLeft, "(", .start⟩ (.call ⟨.parenLeft, "(", .start⟩
    (.ident ⟨⟨.identifier, "f", .start⟩, "f"⟩) [.boolean ⟨.kwTrue, "true", .start⟩ true]) []

/-- A function that is made in a call and called in turn goes through the scope in which `z` is
bound to a function, and does not notice. -/
theorem Node.run_unmentioned_recollect :
    (Node.expr Expr.recollect).Omits "z" ∧ World.remembering.Omits "z" ∧
    ∃ (o : Option Outcome) (w₁ w₁' : World),
      (Node.expr Expr.recollect).run 1 0 World.remembering = some (o, w₁) ∧
      (Node.expr Expr.recollect).run 1 0
        (World.remembering.set 0 "z" (.value (.function ⟨0, Function.remember, 0⟩))) =
          some (o, w₁') ∧
      o.map Outcome.text = some "true" ∧ w₁.scopes.size = 3 ∧ w₁.SameBut 0 "z" w₁' := by
  have hn : (Node.expr Expr.recollect).Omits "z" := by decide
  have hempty : World.oneFunction.Omits "z" := by
    intro s x o _ h
    cases s <;> simp [World.own?, World.oneFunction, Scope.get?, Scope.find?] at h
  have hliteral : Function.remember.Omits "z" := by
    unfold Function.Omits
    decide
  have hw : World.remembering.Omits "z" := hempty.set 0 "f" (Outcome.omits_function.2 hliteral)
  have hrel := Node.run_unmentioned hn hw (World.sameBut_set World.remembering 0 "z"
    (.value (.function ⟨0, Function.remember, 0⟩))) 1 0
  have hshown : ((Node.expr Expr.recollect).run 1 0 World.remembering).map
      (fun r => (r.1.map Outcome.text, r.2.scopes.size)) = some (some "true", 3) := by
    decide +kernel
  obtain ⟨⟨o, w₁⟩, hrun, hend⟩ := Option.map_eq_some_iff.1 hshown
  obtain ⟨htext, hsize⟩ := Prod.mk.inj hend
  cases hrun' : (Node.expr Expr.recollect).run 1 0
      (World.remembering.set 0 "z" (.value (.function ⟨0, Function.remember, 0⟩))) with
  | none =>
      rw [hrun, hrun'] at hrel
      cases hrel
  | some r' =>
      obtain ⟨o', w₁'⟩ := r'
      rw [hrun, hrun'] at hrel
      obtain ⟨rfl, hsame, -⟩ := Option.rel_some_some.1 hrel
      exact ⟨hn, hw, o, w₁, w₁', hrun, rfl, htext, hsize, hsame⟩

end LetFn
