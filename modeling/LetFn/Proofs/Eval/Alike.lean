/-
**Places do not matter to evaluation.**

A closure keeps the literal that it was made of, and in it the places at which its tokens stood.
These are never shown and never asked for, except that a part of a literal that could not be read is
evaluated to an error that tells its place.  So let two worlds be *alike*: the same but for such
places as are never told.  Programs that are read from differently laid out texts, run in worlds
that are alike, end alike.

Main definitions:

* `LetFn.Relabelling.blurred` — forgets the places of tokens, those of broken nodes excepted;
* `LetFn.Outcome.blurred` — an outcome without the places in its closure;
* `LetFn.World.Alike` — worlds that differ in such places only.

Main results:

* `LetFn.World.Alike.get?` — a name is worth the same in worlds that are alike;
* `LetFn.Program.run_alike` — **programs that differ in places run alike in worlds that are alike**.
-/

import LetFn.Proofs.Eval.Forget
import LetFn.Proofs.Parser.Places

set_option relaxedAutoImplicit false
set_option autoImplicit false

namespace LetFn

/-! ### Without places -/

/-- Forgets the places of tokens, except of those in broken nodes, whose errors tell them. -/
def Relabelling.blurred : Relabelling :=
  { Relabelling.unplaced with broken := id }

/-- Two runs that differ in places alone. -/
def Comparison.blurred : Comparison where
  label := .blurred
  numbers := ⟨RelEmbedding.refl _, Function.Embedding.refl _⟩
  node _ := True
  name _ := True
  scope _ := True
  closure _ := True
  faithful _ := ⟨⟨rfl, rfl⟩, rfl, rfl⟩
  name_ident _ := trivial
  name_bind _ := trivial
  name_parameter _ _ _ := trivial
  token_error _ := rfl
  token_errorStmt _ := rfl

/-- An outcome without the places in its closure, if it has one. -/
def Outcome.blurred (o : Outcome) : Outcome :=
  o.translate .blurred

@[simp] theorem Outcome.tag_blurred (o : Outcome) : o.blurred.tag = o.tag := by
  cases o with
  | value v => exact v.tag_translate
  | returned | error => rfl

@[simp] theorem Outcome.text_blurred (o : Outcome) : o.blurred.text = o.text :=
  o.text_translate .blurred

/-- Without places, all that is bound is of the kind that may be compared. -/
theorem Outcome.admitted_blurred (o : Outcome) : o.Admitted .blurred := by
  induction o with
  | value v =>
      cases v with
      | function c => exact ⟨trivial, trivial, fun _ _ => trivial, fun _ _ => trivial⟩
      | integer | boolean | null => trivial
  | returned o ih => exact ih
  | error e => trivial

/-- A scope without the places in the closures that it binds. -/
def Scope.blurred (scope : Scope) : Scope :=
  ⟨scope.bindings.map fun b => (b.1, b.2.blurred), scope.outer⟩

/-- A world without the places in its closures. -/
def World.blurred (w : World) : World :=
  ⟨w.scopes.map Scope.blurred, w.closures⟩

theorem Scope.get?_blurred (scope : Scope) (x : String) :
    scope.blurred.get? x = (scope.get? x).map Outcome.blurred := by
  unfold Scope.get? Scope.blurred
  induction scope.bindings with
  | nil => rfl
  | cons b bs ih =>
      simp only [List.map_cons, Scope.find?]
      split
      · rfl
      · exact ih

/-! ### Alike -/

/-- Scopes that differ only in the places in closures. -/
structure Scope.Alike (scope scope' : Scope) : Prop where
  outer : scope.outer = scope'.outer
  get? : ∀ x, (scope.get? x).map Outcome.blurred = (scope'.get? x).map Outcome.blurred

/-- **Worlds that differ only in the places in closures.** -/
structure World.Alike (w w' : World) : Prop where
  scopes : ∀ s : ScopeId, Option.Rel Scope.Alike w.scopes[s]? w'.scopes[s]?
  closures : w.closures = w'.closures

/-- Scopes that are alike are one scope in other words: the one without places. -/
theorem Scope.Alike.matches {scope scope' : Scope} (h : scope.Alike scope') :
    scope'.Matches .blurred scope.blurred where
  outer := by
    rw [← h.outer]
    exact (Option.map_id_apply).symm
  reaches _ _ := trivial
  get? {x} _ := (scope.get?_blurred x).trans (h.get? x)
  admitted {_ o} _ _ := o.admitted_blurred

namespace World

variable {w w' v : World}

@[refl] theorem Alike.refl (w : World) : w.Alike w where
  scopes s := by
    cases w.scopes[s]? with
    | none => exact .none
    | some scope => exact .some ⟨rfl, fun _ => rfl⟩
  closures := rfl

/-- Worlds that are alike have equally many scopes. -/
theorem Alike.size_eq (h : w.Alike w') : w.scopes.size = w'.scopes.size := by
  have hiff (s : Nat) : w.scopes.size ≤ s ↔ w'.scopes.size ≤ s := by
    rw [← Array.getElem?_eq_none_iff, ← Array.getElem?_eq_none_iff]
    have hs := h.scopes s
    generalize w.scopes[s]? = found, w'.scopes[s]? = found' at hs
    cases hs with
    | none => exact Iff.rfl
    | some => exact iff_of_false (Option.some_ne_none _) (Option.some_ne_none _)
  exact Nat.le_antisymm ((hiff _).2 (Nat.le_refl _)) ((hiff _).1 (Nat.le_refl _))

/-- So are worlds. -/
theorem Alike.matches (h : w.Alike w') : w'.Matches .blurred w.blurred where
  scopes {s} _ := by
    have hs := h.scopes s
    change Option.Rel _ _ (w.scopes.map Scope.blurred)[s]?
    rw [Array.getElem?_map]
    generalize w.scopes[s]? = found, w'.scopes[s]? = found' at hs
    cases hs with
    | none => exact .none
    | some hscope => exact .some hscope.matches
  nextScope k := by
    simp only [World.blurred, Array.size_map, h.size_eq]
    rfl
  reaches _ := trivial
  nextClosure k := by
    simp only [World.blurred, h.closures]
    rfl
  reachesClosure _ := trivial

/-- Worlds that are one world in other words are alike. -/
theorem Matches.alike (h : w.Matches .blurred v) (h' : w'.Matches .blurred v) : w.Alike w' where
  scopes s := by
    have hs : Option.Rel (Scope.Matches .blurred) w.scopes[s]? v.scopes[s]? := h.scopes trivial
    have hs' : Option.Rel (Scope.Matches .blurred) w'.scopes[s]? v.scopes[s]? := h'.scopes trivial
    generalize w.scopes[s]? = found, w'.scopes[s]? = found', v.scopes[s]? = common at hs hs'
    cases hs with
    | none =>
        cases hs'
        exact .none
    | @some scope _ hscope =>
        cases hs' with
        | @some scope' _ hscope' =>
            have houter : scope.outer.map id = scope'.outer.map id :=
              hscope.outer.symm.trans hscope'.outer
            refine .some ⟨?_, fun x => ?_⟩
            · simpa only [Option.map_id, id] using houter
            · exact (hscope.get? trivial).symm.trans (hscope'.get? trivial)
  closures := (h.nextClosure 0).trans (h'.nextClosure 0).symm

/-- **A name is worth the same in worlds that are alike**, but for places. -/
theorem Alike.get? (h : w.Alike w') (s : ScopeId) (x : String) :
    (w.get? s x).map Outcome.blurred = (w'.get? s x).map Outcome.blurred := by
  have hleft := ((Alike.refl w).matches.get? (s := s) trivial (x := x) trivial).1
  have hright := (h.matches.get? (s := s) trivial (x := x) trivial).1
  exact hleft.symm.trans hright

end World

/-! ### Programs -/

/-- Where nothing is broken all places are forgotten. -/
theorem Program.relabel_blurred {p : Program} (hp : ∀ s ∈ p.statements, s.Every Node.Whole) :
    p.relabel .blurred = p.relabel .unplaced :=
  Program.relabel_of_whole .unplaced id hp

/-- **Programs that differ in places run alike in worlds that are alike**: both come to an end or
neither does. -/
theorem Program.run_alike (depth : Nat) {p p' : Program}
    (hp : p.relabel .blurred = p'.relabel .blurred) (s : ScopeId) {w w' : World} (hw : w.Alike w') :
    Option.Rel (fun r r' => r.1.map Outcome.blurred = r'.1.map Outcome.blurred ∧ r.2.Alike r'.2)
      (p.run depth s w) (p'.run depth s w') := by
  have hrun := Program.run_parallel (C := .blurred) depth (p := p) (fun _ _ _ _ => trivial)
    (s := s) trivial (World.Alike.refl w).matches
  have hrun' := Program.run_parallel (C := .blurred) depth (p := p') (fun _ _ _ _ => trivial)
    (s := s) trivial hw.matches
  change Option.Rel _ _ ((p.relabel .blurred).run depth s w.blurred) at hrun
  change Option.Rel _ _ ((p'.relabel .blurred).run depth s w.blurred) at hrun'
  rw [← hp] at hrun'
  generalize p.run depth s w = x, p'.run depth s w' = y,
    (p.relabel .blurred).run depth s w.blurred = z at hrun hrun'
  cases hrun with
  | none =>
      cases hrun'
      exact .none
  | some h =>
      cases hrun' with
      | some h' => exact .some ⟨h.1.symm.trans h'.1, h.2.alike h'.2⟩

end LetFn
