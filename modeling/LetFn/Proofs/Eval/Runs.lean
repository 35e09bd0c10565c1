/-
**A program runs like the block of its statements.**

A program and a block go through their statements in loops of their own.  They agree but for the
last thing they do: a program takes a pending return, and a block leaves it pending.

Main definitions:

* `LetFn.interpretAll` — what comes of texts that are interpreted one after the other.

Main results:

* `LetFn.Expr.run_eq_some_iff` — a run of an expression is an evaluation of it; and so for
  statements and blocks;
* `LetFn.Program.run_eq` — **a program runs like the block of its statements, and takes a pending
  return**;
* `LetFn.Node.run_keepsAt`, `LetFn.Node.run_keeps` — what the steps of evaluation keep, a run of any
  node keeps;
* `LetFn.interpret_cases` — a text is run or changes nothing.
-/

import LetFn.Interpret
import LetFn.Proofs.Eval.Promise

set_option relaxedAutoImplicit false
set_option autoImplicit false

namespace LetFn

theorem Run.map_apply {α β : Type} (f : α → β) (x : Run α) (w : World) :
    (f <$> x) w = (x w).map fun r => (f r.1, r.2) := by
  change Option.bind (x w) _ = _
  cases x w <;> rfl

/-- Something comes of a mapped run if something comes of the run. -/
theorem Run.map_eq_some_iff {α β : Type} {f : α → β} {x : Run α} {w w' : World} {b : β} :
    (f <$> x) w = some (b, w') ↔ ∃ a, x w = some (a, w') ∧ f a = b := by
  rw [Run.map_apply, Option.map_eq_some_iff]
  constructor
  · rintro ⟨⟨a, w''⟩, hx, hb⟩
    obtain ⟨rfl, rfl⟩ := Prod.mk.inj hb
    exact ⟨a, hx, rfl⟩
  · rintro ⟨a, hx, rfl⟩
    exact ⟨(a, w'), hx, rfl⟩

section Runs

variable {depth : Nat} {s : ScopeId} {w w' : World}

/-- A run of an expression is an evaluation of it. -/
theorem Expr.run_eq_some_iff {e : Expr} {o : Outcome} :
    e.run depth s w = some (o, w') ↔
      ∃ r, e.eval (Closure.call depth) s w = some (r, w') ∧ Outcome.ofExcept r = o :=
  Run.map_eq_some_iff

/-- The outcome of an expression is the result of its evaluation. -/
theorem Expr.run_eq_iff {e : Expr} {o : Outcome} :
    e.run depth s w = some (o, w') ↔ e.eval (Closure.call depth) s w = some (o.release, w') := by
  rw [Expr.run_eq_some_iff]
  constructor
  · rintro ⟨r, hr, rfl⟩
    rwa [Outcome.release_ofExcept]
  · exact fun h => ⟨o.release, h, Outcome.ofExcept_release o⟩

/-- A run of a statement is an evaluation of it. -/
theorem Stmt.run_eq_some_iff {st : Stmt} {o : Option Outcome} :
    st.run depth s w = some (o, w') ↔
      ∃ r, st.eval (Closure.call depth) s w = some (r, w') ∧ Outcome.ofExcept? r = o :=
  Run.map_eq_some_iff

/-- A run of a block is an evaluation of it. -/
theorem Block.run_eq_some_iff {b : Block} {o : Option Outcome} :
    b.run depth s w = some (o, w') ↔
      ∃ r, b.eval (Closure.call depth) s w = some (r, w') ∧ Outcome.ofExcept? r = o :=
  Run.map_eq_some_iff

end Runs

/-! ### Programs -/

/-- What a program makes of the outcome of the block of its statements. -/
def Program.settle (r : Option Outcome × World) : Option Outcome × World :=
  (r.1.map Outcome.unwrap, r.2)

/-- What a program does after a statement with the outcome `o`. -/
def Program.goOn (depth : Nat) (s : ScopeId) (sts : List Stmt) :
    Option Outcome → Run (Option Outcome)
  | some (.returned o) => pure (some o)
  | some (.error e) => pure (some (.error e))
  | o => Stmt.runAll depth s o sts

theorem Stmt.runAll_cons (depth : Nat) (s : ScopeId) (last : Option Outcome) (st : Stmt)
    (sts : List Stmt) (w : World) :
    Stmt.runAll depth s last (st :: sts) w =
      (st.run depth s w).bind fun r => Program.goOn depth s sts r.1 r.2 := rfl

/-- The statements of a program are run like those of a block. -/
theorem Stmt.runAll_eq (depth : Nat) (s : ScopeId) (last : Option Value) (sts : List Stmt)
    (w : World) :
    Stmt.runAll depth s (last.map .value) sts w =
      ((Outcome.ofExcept? <$> (Stmt.evalAll (Closure.call depth) s last sts).run : Run _) w).map
        Program.settle := by
  induction sts generalizing last w with
  | nil =>
      rw [Run.map_apply]
      cases last <;> rfl
  | cons st sts ih =>
      have heval : (Stmt.evalAll (Closure.call depth) s last (st :: sts)).run w =
          (st.eval (Closure.call depth) s w).bind
            (Eval.next fun v => Stmt.evalAll (Closure.call depth) s v sts) :=
        Eval.bind_apply _ _ w
      rw [Stmt.runAll_cons, Stmt.run, Run.map_apply, Run.map_apply, heval]
      change (Option.map _ (st.eval (Closure.call depth) s w)).bind _ = _
      cases st.eval (Closure.call depth) s w with
      | none => rfl
      | some p =>
          obtain ⟨r, w'⟩ := p
          cases r with
          | error e => cases e <;> rfl
          | ok v =>
              have hrest := ih v w'
              rw [Run.map_apply] at hrest
              cases v <;> exact hrest

/-- **A program runs like the block of its statements, and takes a pending return.** -/
theorem Program.run_eq (depth : Nat) (s : ScopeId) (p : Program) (brace : Token) (w : World) :
    p.run depth s w = ((Block.mk brace p.statements).run depth s w).map Program.settle :=
  Stmt.runAll_eq depth s none p.statements w

/-- A run of a program is an evaluation of its statements, of which a pending return is taken. -/
theorem Program.run_eq_some_iff {depth : Nat} {s : ScopeId} {p : Program} {w w' : World}
    {o : Option Outcome} :
    p.run depth s w = some (o, w') ↔
      ∃ r, Stmt.evalAll (Closure.call depth) s none p.statements w = some (r, w') ∧
        (Outcome.ofExcept? r).map Outcome.unwrap = o := by
  rw [Program.run_eq depth s p ⟨.braceLeft, "", .start⟩, Option.map_eq_some_iff]
  constructor
  · rintro ⟨⟨o', w''⟩, hblock, hsettle⟩
    obtain ⟨rfl, rfl⟩ := Prod.mk.inj hsettle
    obtain ⟨r, hr, rfl⟩ := Block.run_eq_some_iff.1 hblock
    exact ⟨r, hr, rfl⟩
  · rintro ⟨r, hr, rfl⟩
    exact ⟨(Outcome.ofExcept? r, w'), Block.run_eq_some_iff.2 ⟨r, hr, rfl⟩, rfl⟩

/-! ### Every node -/

variable {P : Promise} {depth : Nat} {s : ScopeId} {ok : Node → Prop} {bound : String → Prop}
  {w w' : World} {o : Option Outcome}

/-- The outcomes that may leave a node: what is pending or failing is what may unwind. -/
def Promise.Permits (P : Promise) (w : World) : Option Outcome → Prop
  | none => True
  | some (.value v) => P.value w v
  | some (.returned o) => P.exit w (.returned o)
  | some (.error e) => P.exit w (.error e)

theorem Promise.permits_of_yields {r : Except Exit (Option Value)}
    (h : P.Yields (fun w o => ∀ v ∈ o, P.value w v) w r) : P.Permits w (Outcome.ofExcept? r) := by
  rcases r with (o | e) | (_ | v)
  · exact h
  · exact h
  · trivial
  · exact h v rfl

theorem Promise.permits_of_yields_value {r : Except Exit Value} (h : P.Yields P.value w r) :
    P.Permits w (some (Outcome.ofExcept r)) := by
  rcases r with (o | e) | v <;> exact h

/-- What the steps of evaluation keep, a run of a program keeps; only that a program takes a pending
return. -/
theorem Program.run_keepsAt (h : P.GrantsAt (Closure.call depth) s ok)
    (hparts : Node.Hereditary ok) {p : Program} (hp : ok (.program p)) (hw : P.holds w)
    (hrun : p.run depth s w = some (o, w')) :
    P.holds w' ∧ P.changes w w' ∧ ∃ o', P.Permits w' o' ∧ o = o'.map Outcome.unwrap := by
  obtain ⟨r, hr, rfl⟩ := Program.run_eq_some_iff.1 hrun
  have hstatements := List.forall_mem_map.1 (hparts _ hp)
  obtain ⟨hw', hchanges, hyields⟩ :=
    Stmt.evalAll_keepsAt h hparts p.statements hstatements none w (by simp) hw r w' hr
  exact ⟨hw', hchanges, _, Promise.permits_of_yields hyields, rfl⟩

/-- **What the steps of evaluation keep, a run of any node keeps.** -/
theorem Node.run_keepsAt (h : P.GrantsAt (Closure.call depth) s ok) (hparts : Node.Hereditary ok)
    {n : Node} (hn : ok n) (hw : P.holds w) (hrun : n.run depth s w = some (o, w')) :
    P.holds w' ∧ P.changes w w' ∧ ((∀ p, n ≠ .program p) → P.Permits w' o) := by
  cases n with
  | program p =>
      obtain ⟨hw', hchanges, -⟩ := Program.run_keepsAt h hparts hn hw hrun
      exact ⟨hw', hchanges, fun hn => absurd rfl (hn p)⟩
  | stmt st =>
      obtain ⟨r, hr, rfl⟩ := Stmt.run_eq_some_iff.1 hrun
      obtain ⟨hw', hchanges, hyields⟩ := Stmt.eval_keepsAt h hparts st hn w hw r w' hr
      exact ⟨hw', hchanges, fun _ => Promise.permits_of_yields hyields⟩
  | block b =>
      obtain ⟨r, hr, rfl⟩ := Block.run_eq_some_iff.1 hrun
      obtain ⟨hw', hchanges, hyields⟩ := Block.eval_keepsAt h hparts b hn w hw r w' hr
      exact ⟨hw', hchanges, fun _ => Promise.permits_of_yields hyields⟩
  | expr e =>
      obtain ⟨o, ho, rfl⟩ := Run.map_eq_some_iff.1 hrun
      obtain ⟨r, hr, rfl⟩ := Expr.run_eq_some_iff.1 ho
      obtain ⟨hw', hchanges, hyields⟩ := Expr.eval_keepsAt h hparts e hn w hw r w' hr
      exact ⟨hw', hchanges, fun _ => Promise.permits_of_yields_value hyields⟩

/-- What the steps of evaluation keep at any node, a run of a program keeps. -/
theorem Program.run_keeps (h : P.Grants (Closure.call depth) s bound) {p : Program}
    (hbound : ∀ x ∈ Stmt.boundAll p.statements, bound x) (hw : P.holds w)
    (hrun : p.run depth s w = some (o, w')) :
    P.holds w' ∧ P.changes w w' ∧ ∃ o', P.Permits w' o' ∧ o = o'.map Outcome.unwrap :=
  Program.run_keepsAt h.at_bound (Node.hereditary_bound bound) hbound hw hrun

/-- **What the steps of evaluation keep at any node, a run of a node keeps.** -/
theorem Node.run_keeps (h : P.Grants (Closure.call depth) s bound) {n : Node}
    (hbound : ∀ x ∈ n.bound, bound x) (hw : P.holds w) (hrun : n.run depth s w = some (o, w')) :
    P.holds w' ∧ P.changes w w' ∧ ((∀ p, n ≠ .program p) → P.Permits w' o) :=
  Node.run_keepsAt h.at_bound (Node.hereditary_bound bound) hbound hw hrun

/-! ### Texts -/

/-- A text is run or changes nothing. -/
theorem interpret_cases {source : String} {r : Except (List SyntaxError) (Option Outcome)}
    (h : interpret depth source s w = some (r, w')) :
    w' = w ∨ ∃ o, (Node.program (Parsed.ofString source).program).run depth s w = some (o, w') := by
  by_cases hcorrect : (Parsed.ofString source).errors = []
  · rw [interpret_of_correct hcorrect] at h
    obtain ⟨o, ho, -⟩ := Run.map_eq_some_iff.1 h
    exact .inr ⟨o, ho⟩
  · rw [interpret_of_errors hcorrect] at h
    exact .inl (Prod.mk.inj (Option.some.inj h)).2.symm

/-- What comes of texts that are interpreted one after the other, each in a scope. -/
def interpretAll (depth : Nat) : List (ScopeId × String) →
    Run (List ((ScopeId × String) × Except (List SyntaxError) (Option Outcome)))
  | [] => pure []
  | t :: ts => do
    let r ← interpret depth t.2 t.1
    let rs ← interpretAll depth ts
    return (t, r) :: rs

theorem interpretAll_cons (t : ScopeId × String) (ts : List (ScopeId × String)) (w : World) :
    interpretAll depth (t :: ts) w =
      (interpret depth t.2 t.1 w).bind fun r =>
        (interpretAll depth ts r.2).map fun rs => ((t, r.1) :: rs.1, rs.2) := by
  change Option.bind (interpret depth t.2 t.1 w) _ = _
  refine congrArg (Option.bind _) (funext fun r => ?_)
  exact Run.map_apply (fun rs => (t, r.1) :: rs) (interpretAll depth ts) r.2

/-- Texts come to an end if the first of them does, and those after it do. -/
theorem interpretAll_cons_eq_some_iff {t : ScopeId × String} {ts : List (ScopeId × String)}
    {rs : List ((ScopeId × String) × Except (List SyntaxError) (Option Outcome))} :
    interpretAll depth (t :: ts) w = some (rs, w') ↔
      ∃ r w₁ rest, interpret depth t.2 t.1 w = some (r, w₁) ∧
        interpretAll depth ts w₁ = some (rest, w') ∧ (t, r) :: rest = rs := by
  rw [interpretAll_cons, Option.bind_eq_some_iff]
  constructor
  · rintro ⟨⟨r, w₁⟩, hr, h⟩
    obtain ⟨⟨rest, w₂⟩, hrest, he⟩ := Option.map_eq_some_iff.1 h
    obtain ⟨rfl, rfl⟩ := Prod.mk.inj he
    exact ⟨r, w₁, rest, hr, hrest, rfl⟩
  · rintro ⟨r, w₁, rest, hr, hrest, rfl⟩
    exact ⟨(r, w₁), hr, Option.map_eq_some_iff.2 ⟨(rest, w'), hrest, rfl⟩⟩

end LetFn
