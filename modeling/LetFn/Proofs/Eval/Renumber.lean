/-
**Other numbers for scopes and closures.**

Which numbers scopes and closures have depends on how many were made before.  So a run goes on alike
when others have been made in the meantime by something else, as long as the scopes that the run can
reach are what they were.  The two worlds then differ in numbers, and what the run makes next has
the next number in either of them.

What a run can reach is a *region*.  It covers a world if what is referred to in it lies in it.

Main definitions:

* `LetFn.Value.rename`, `LetFn.Outcome.rename`, `LetFn.Exit.rename` — a value with other numbers;
* `LetFn.Region`, `LetFn.Region.Covers` — scopes and closures that refer to no others;
* `LetFn.Comparison.renumberedIn`, `LetFn.Comparison.renumbered` — two runs that differ in numbers
  alone, in a region and everywhere;
* `LetFn.Renaming.shift`, `LetFn.Renaming.later` — later numbers for what is made after some moment.

Main results:

* `LetFn.World.matches_refl` — a world is itself in a region that covers it;
* `LetFn.World.Matches.later` — **a world goes on in any later world in which the scopes of its
  region are unchanged**.
-/

import Mathlib.Data.Set.Function
import Mathlib.Order.Interval.Set.Basic
import LetFn.Proofs.Eval.Parallel
import LetFn.Proofs.Eval.Reachable

set_option relaxedAutoImplicit false
set_option autoImplicit false

namespace LetFn

/-! ### Renaming -/

section Rename

variable (π : Renaming)

/-- A value with other numbers. -/
def Value.rename : Value → Value
  | .function c => .function ⟨π.closure c.id, c.literal, π.scope c.scope⟩
  | v => v

/-- An outcome with other numbers. -/
def Outcome.rename : Outcome → Outcome
  | .value v => .value (v.rename π)
  | .returned o => .returned o.rename
  | .error e => .error e

/-- What unwinds, with other numbers. -/
def Exit.rename : Exit → Exit
  | .returned o => .returned (o.rename π)
  | .error e => .error e

end Rename

/-- The same numbers. -/
def Renaming.refl : Renaming :=
  ⟨RelEmbedding.refl _, Function.Embedding.refl _⟩

/-- One renaming after another. -/
def Renaming.trans (π π' : Renaming) : Renaming :=
  ⟨π.scope.trans π'.scope, π.closure.trans π'.closure⟩

theorem Value.rename_refl (v : Value) : v.rename .refl = v := by
  cases v <;> rfl

theorem Outcome.rename_refl (o : Outcome) : o.rename .refl = o := by
  induction o with
  | value v => rw [Outcome.rename, Value.rename_refl]
  | returned o ih => rw [Outcome.rename, ih]
  | error e => rfl

theorem Value.rename_trans (π π' : Renaming) (v : Value) :
    v.rename (π.trans π') = (v.rename π).rename π' := by
  cases v <;> rfl

theorem Outcome.rename_trans (π π' : Renaming) (o : Outcome) :
    o.rename (π.trans π') = (o.rename π).rename π' := by
  induction o with
  | value v => rw [Outcome.rename, Value.rename_trans, Outcome.rename, Outcome.rename]
  | returned o ih => rw [Outcome.rename, ih, Outcome.rename, Outcome.rename]
  | error e => rfl

/-! ### Regions -/

/-- Scopes and closures that may be looked at. -/
structure Region where
  scope : ScopeId → Prop
  closure : Nat → Prop

/-- All scopes and closures. -/
def Region.all : Region :=
  ⟨fun _ => True, fun _ => True⟩

/-- The closure that an outcome holds, if it is or brings one. -/
def Outcome.closure? : Outcome → Option Closure
  | .value (.function c) => some c
  | .value _ => none
  | .returned o => o.closure?
  | .error _ => none

/-- The closure that an outcome with other numbers holds. -/
theorem Outcome.closure?_rename (π : Renaming) (o : Outcome) :
    (o.rename π).closure? =
      o.closure?.map fun c => ⟨π.closure c.id, c.literal, π.scope c.scope⟩ := by
  induction o with
  | value v => cases v <;> rfl
  | returned o ih => exact ih
  | error e => rfl

/-- A world may hold an outcome if it may hold the closure in it. -/
theorem Outcome.within_closure? {o : Outcome} {w : World} (h : o.Within w) {c : Closure}
    (hc : o.closure? = some c) : c.Within w := by
  induction o with
  | value v =>
      cases v with
      | function d => exact Option.some.inj hc ▸ h
      | integer | boolean | null => cases hc
  | returned o ih => exact ih h hc
  | error e => cases hc

/-- The closure lies in the region, and so does the scope it was written in. -/
def Region.Has (R : Region) (c : Closure) : Prop :=
  R.closure c.id ∧ R.scope c.scope

/-- **What is referred to in the region lies in it**, and so will what is made next. -/
structure Region.Covers (R : Region) (w : World) : Prop where
  outer : ∀ {s : ScopeId} {scope : Scope} {a : ScopeId}, R.scope s → w.scopes[s]? = some scope →
    scope.outer = some a → R.scope a
  bound : ∀ {s : ScopeId} {scope : Scope} {x : String} {o : Outcome} {c : Closure}, R.scope s →
    w.scopes[s]? = some scope → scope.get? x = some o → o.closure? = some c → R.Has c
  nextScope : ∀ k, R.scope (w.scopes.size + k)
  nextClosure : ∀ k, R.closure (w.closures + k)

theorem Region.covers_all (w : World) : Region.all.Covers w :=
  ⟨fun _ _ _ => trivial, fun _ _ _ _ => ⟨trivial, trivial⟩, fun _ => trivial, fun _ => trivial⟩

/-- Two runs that differ in numbers alone and stay in a region. -/
def Comparison.renumberedIn (R : Region) (π : Renaming) : Comparison where
  label := .same
  numbers := π
  node _ := True
  name _ := True
  scope := R.scope
  closure := R.closure
  faithful _ := ⟨⟨rfl, rfl⟩, rfl, rfl⟩
  name_ident _ := trivial
  name_bind _ := trivial
  name_parameter _ _ _ := trivial
  token_error _ := rfl
  token_errorStmt _ := rfl

/-- Two runs that differ in numbers alone. -/
abbrev Comparison.renumbered (π : Renaming) : Comparison :=
  .renumberedIn .all π

variable {R : Region} {π π' : Renaming}

@[simp] theorem Function.relabel_same (f : Function) : f.relabel .same = f := by
  have hparameters : f.parameters.map (Ident.relabel .same) = f.parameters := List.map_id _
  simp [Function.relabel, hparameters, Block.relabel_same]

theorem Program.relabel_same (p : Program) : p.relabel .same = p :=
  congrArg Program.mk
    ((List.map_congr_left fun st _ => Stmt.relabel_same st).trans (List.map_id _))

@[simp] theorem Value.translate_renumbered (v : Value) :
    v.translate (.renumberedIn R π) = v.rename π := by
  cases v with
  | function c => simp [Value.translate, Closure.translate, Value.rename, Comparison.renumberedIn]
  | integer | boolean | null => rfl

@[simp] theorem Outcome.translate_renumbered (o : Outcome) :
    o.translate (.renumberedIn R π) = o.rename π := by
  induction o with
  | value v => simp [Outcome.translate, Outcome.rename]
  | returned o ih => simp [Outcome.translate, Outcome.rename, ih]
  | error e => rfl

@[simp] theorem Exit.translate_renumbered (e : Exit) :
    e.translate (.renumberedIn R π) = e.rename π := by
  cases e with
  | returned o => simp [Exit.translate, Exit.rename]
  | error e => rfl

/-- An outcome may be called if the closure that it holds lies in the region. -/
theorem Outcome.admitted_renumberedIn (o : Outcome) :
    o.Admitted (.renumberedIn R π) ↔ ∀ c, o.closure? = some c → R.Has c := by
  induction o with
  | value v =>
      cases v with
      | function c =>
          refine ⟨fun h d hd => Option.some.inj hd ▸ ⟨h.id, h.scope⟩, fun h => ?_⟩
          exact ⟨(h c rfl).1, (h c rfl).2, fun _ _ => trivial, fun _ _ => trivial⟩
      | integer | boolean | null =>
          refine ⟨fun _ c hc => ?_, fun _ => trivial⟩
          cases hc
  | returned o ih => exact ih
  | error e =>
      refine ⟨fun _ c hc => ?_, fun _ => trivial⟩
      cases hc

/-- Whatever is compared may be called. -/
theorem Value.admitted_renumbered (v : Value) : v.Admitted (.renumbered π) := by
  cases v with
  | function c => exact ⟨trivial, trivial, fun _ _ => trivial, fun _ _ => trivial⟩
  | integer | boolean | null => trivial

/-- **A world is itself in a region that covers it.** -/
theorem World.matches_refl {w : World} (h : R.Covers w) : w.Matches (.renumberedIn R .refl) w where
  scopes {s} hs := by
    change Option.Rel _ w.scopes[s]? w.scopes[s]?
    cases hscope : w.scopes[s]? with
    | none => exact .none
    | some scope =>
        refine .some ⟨?_, fun a ha => h.outer hs hscope ha, fun {x} _ => ?_, fun {x o} _ ho => ?_⟩
        · exact (Option.map_id_apply).symm
        · cases hx : scope.get? x with
          | none => rfl
          | some o => rw [Option.map_some, Outcome.translate_renumbered, Outcome.rename_refl]
        · exact o.admitted_renumberedIn.2 fun c hc => h.bound hs hscope ho hc
  nextScope _ := rfl
  reaches := h.nextScope
  nextClosure _ := rfl
  reachesClosure := h.nextClosure

/-! ### Later numbers -/

/-- A shift of the numbers from `n` on by `d`. -/
def shift (n d : Nat) : Nat ↪o Nat :=
  OrderEmbedding.ofStrictMono (fun k => if k < n then k else k + d) fun a b h => by
    dsimp only
    split <;> split <;> omega

theorem shift_of_lt {n k : Nat} (d : Nat) (h : k < n) : shift n d k = k :=
  if_pos h

theorem shift_add (n d k : Nat) : shift n d (n + k) = n + d + k := by
  have h : shift n d (n + k) = if n + k < n then n + k else n + k + d := rfl
  rw [h, if_neg (by omega)]
  omega

/-- **Later numbers for what is made after some moment**: numbers in use in the world `w` stay, and
the next in `w` becomes the next in `w'`. -/
def Renaming.later (w w' : World) : Renaming where
  scope := shift w.scopes.size (w'.scopes.size - w.scopes.size)
  closure := (shift w.closures (w'.closures - w.closures)).toEmbedding

/-- What is between two moments is shifted to behind the later one. -/
theorem shift_bijOn {n m l : Nat} (h : n ≤ m) (hl : shift n (m - n) m = l) :
    Set.BijOn (shift n (m - n)) (Set.Ico n m) (Set.Ico m l) := by
  have hshift (k : Nat) : shift n (m - n) (n + k) = m + k := by
    rw [shift_add]
    omega
  have hl' : m + (m - n) = l := by
    rw [← hl, ← hshift, Nat.add_sub_cancel' h]
  refine ⟨fun k hk => ?_, Function.Injective.injOn (shift n (m - n)).injective, fun k hk => ?_⟩
  · obtain ⟨i, rfl⟩ := Nat.exists_eq_add_of_le hk.1
    rw [hshift, Set.mem_Ico]
    have := hk.2
    omega
  · obtain ⟨i, rfl⟩ := Nat.exists_eq_add_of_le hk.1
    refine ⟨n + i, ?_, hshift i⟩
    have := hk.2
    rw [Set.mem_Ico]
    omega

/-! ### A world goes on in a later one -/

section Later

variable {v w w' : World}

theorem Renaming.later_scope (hgrows : w.Grows w') (k : Nat) :
    (Renaming.later w w').scope (w.scopes.size + k) = w'.scopes.size + k := by
  have hsize := hgrows.scopes
  change shift _ _ _ = _
  rw [shift_add]
  omega

theorem Renaming.later_closure (hgrows : w.Grows w') (k : Nat) :
    (Renaming.later w w').closure (w.closures + k) = w'.closures + k := by
  have hsize := hgrows.closures
  change shift _ _ _ = _
  rw [shift_add]
  omega

/-- What a world may hold keeps its numbers. -/
theorem Value.rename_later {v : Value} (h : v.Within w) : v.rename (.later w w') = v := by
  cases v with
  | function c =>
      have hclosure : (Renaming.later w w').closure c.id = c.id := shift_of_lt _ h.1
      have hscope : (Renaming.later w w').scope c.scope = c.scope := shift_of_lt _ h.2
      rw [Value.rename, hclosure, hscope]
  | integer | boolean | null => rfl

theorem Outcome.rename_later {o : Outcome} (h : o.Within w) : o.rename (.later w w') = o := by
  induction o with
  | value v => rw [Outcome.rename, Value.rename_later h]
  | returned o ih => rw [Outcome.rename, ih h]
  | error e => rfl

variable {C : Comparison}

/-- A scope that there is has the number of one. -/
theorem World.Matches.scope_lt (h : v.Matches C w) {s : ScopeId} (hs : s < v.scopes.size) :
    C.numbers.scope s < w.scopes.size := by
  have hnext := h.nextScope 0
  rw [Nat.add_zero, Nat.add_zero] at hnext
  rw [← hnext]
  exact C.numbers.scope.lt_iff_lt.2 hs

/-- A closure that there is has the number of one, since the further numbers are those of closures
that are yet to be made. -/
theorem World.Matches.closure_lt (h : v.Matches C w) {k : Nat} (hk : k < v.closures) :
    C.numbers.closure k < w.closures := by
  by_contra hle
  obtain ⟨i, hi⟩ := Nat.exists_eq_add_of_le (Nat.le_of_not_lt hle)
  rw [← h.nextClosure i] at hi
  have := C.numbers.closure.injective hi
  omega

/-- A scope that is yet to be made has the number of one. -/
theorem World.Matches.le_scope (h : v.Matches C w) {s : ScopeId} (hs : v.scopes.size ≤ s) :
    w.scopes.size ≤ C.numbers.scope s := by
  obtain ⟨k, rfl⟩ := Nat.exists_eq_add_of_le hs
  exact h.nextScope k ▸ Nat.le_add_right _ k

/-- A closure that is yet to be made has the number of one. -/
theorem World.Matches.le_closure (h : v.Matches C w) {k : Nat} (hk : v.closures ≤ k) :
    w.closures ≤ C.numbers.closure k := by
  obtain ⟨i, rfl⟩ := Nat.exists_eq_add_of_le hk
  exact h.nextClosure i ▸ Nat.le_add_right _ i

/-- What one world may hold the other may hold with its numbers. -/
theorem World.Matches.within_rename (h : v.Matches (.renumberedIn R π) w) {o : Outcome}
    (ho : o.Within v) : (o.rename π).Within w := by
  induction o with
  | value u =>
      cases u with
      | function c => exact ⟨h.closure_lt ho.1, h.scope_lt ho.2⟩
      | integer | boolean | null => trivial
  | returned o ih => exact ih ho
  | error e => trivial

/-- A scope with what it binds keeps its numbers. -/
theorem Scope.Matches.later (h : v.Matches (.renumberedIn R π) w) (hv : v.Closed) {s : ScopeId}
    {scope scope' : Scope} (hs : v.scopes[s]? = some scope)
    (hscope : scope.Matches (.renumberedIn R π) scope') :
    scope.Matches (.renumberedIn R (π.trans (.later w w'))) scope' where
  outer := by
    obtain ⟨hlt, -⟩ := Array.getElem?_eq_some_iff.1 hs
    rw [hscope.outer]
    cases houter : scope.outer with
    | none => rfl
    | some a =>
        have ha : a < v.scopes.size := (hv.outer hs houter).trans hlt
        exact congrArg some (shift_of_lt _ (h.scope_lt ha)).symm
  reaches := hscope.reaches
  get? := by
    intro x _
    rw [hscope.get? trivial]
    cases hx : scope.get? x with
    | none => rfl
    | some o =>
        rw [Option.map_some, Option.map_some, Outcome.translate_renumbered,
          Outcome.translate_renumbered, Outcome.rename_trans,
          Outcome.rename_later (h.within_rename (hv.bound hs hx))]
  admitted {x o} _ ho :=
    o.admitted_renumberedIn.2 (o.admitted_renumberedIn.1 (hscope.admitted (x := x) trivial ho))

/-- **A world goes on in any later world in which the scopes of its region are unchanged.** -/
theorem World.Matches.later (h : v.Matches (.renumberedIn R π) w) (hv : v.Closed)
    (hgrows : w.Grows w')
    (hkeeps : ∀ s < v.scopes.size, R.scope s → w'.scopes[π.scope s]? = w.scopes[π.scope s]?) :
    v.Matches (.renumberedIn R (π.trans (.later w w'))) w' := by
  have hscopes (k : Nat) :
      (π.trans (.later w w')).scope (v.scopes.size + k) = w'.scopes.size + k :=
    (congrArg (Renaming.later w w').scope (h.nextScope k)).trans (Renaming.later_scope hgrows k)
  have hclosures (k : Nat) :
      (π.trans (.later w w')).closure (v.closures + k) = w'.closures + k :=
    (congrArg (Renaming.later w w').closure (h.nextClosure k)).trans
      (Renaming.later_closure hgrows k)
  refine ⟨fun {s} hs => ?_, hscopes, h.reaches, hclosures, h.reachesClosure⟩
  change Option.Rel _ _ w'.scopes[(π.trans (.later w w')).scope s]?
  cases hscope : v.scopes[s]? with
  | none =>
      -- a scope that is yet to be made is yet to be made later
      obtain ⟨k, rfl⟩ := Nat.exists_eq_add_of_le (Array.getElem?_eq_none_iff.1 hscope)
      rw [hscopes, Array.getElem?_eq_none (Nat.le_add_right _ k)]
      exact .none
  | some scope =>
      have hlt : s < v.scopes.size := (Array.getElem?_eq_some_iff.1 hscope).1
      have hsame : (π.trans (.later w w')).scope s = π.scope s := shift_of_lt _ (h.scope_lt hlt)
      obtain ⟨scope', hscope', hmatches⟩ := h.exists_scope hs hscope
      rw [hsame, hkeeps s hlt hs]
      change w.scopes[π.scope s]? = some scope' at hscope'
      rw [hscope']
      exact .some (hmatches.later h hv hscope)

end Later

end LetFn
