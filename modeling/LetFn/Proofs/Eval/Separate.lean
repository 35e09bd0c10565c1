/-
**Scopes that have nothing in common.**

From a scope one reaches the scopes around it, the closures that are bound in any of these, and the
scopes that the closures were written in.  Two scopes are separate if no scope and no closure is
reached from both.  Whatever is run in the one then leaves what is seen from the other as it was,
but for what the numbers are that come next: so texts that are interpreted in the two of them may be
interleaved in any way.  Each has the result that it has if those in the other scope are never
interpreted.

Main definitions:

* `LetFn.World.Reaches`, `LetFn.World.ReachesClosure` — what is reached from a scope;
* `LetFn.World.Separate` — scopes from which nothing is reached in common;
* `LetFn.World.Seen` — a world as it is seen from a scope;
* `LetFn.World.Interleaved` — a world as it is seen from two separate scopes.

Main results:

* `LetFn.World.Closed.separate_newGlobal` — a new global scope is separate from those there were;
* `LetFn.World.Seen.interpret` — what is interpreted in a scope has to do only with what is seen
  from it;
* `LetFn.World.Seen.later` — **what is run elsewhere is not seen**;
* `LetFn.World.Interleaved.later` — **what becomes of one side leaves the other as it is seen**;
* `LetFn.World.Interleaved.separate` — scopes that were separate are separate afterwards;
* `LetFn.World.Interleaved.interpretAll` — texts in separate scopes have the results that they have
  alone;
* `LetFn.World.unconnected` — **scopes that have nothing in common do not interfere**.
-/

import LetFn.Proofs.Eval.Forget
import LetFn.Proofs.Eval.Frame
import LetFn.Proofs.Eval.Renumber

set_option relaxedAutoImplicit false
set_option autoImplicit false

namespace LetFn

namespace World

/-! ### What is reached from a scope -/

/-- The scopes that are reached from the scope `a`: over outer scopes, and over the closures that
are bound in a scope that is reached. -/
inductive Reaches (w : World) (a : ScopeId) : ScopeId → Prop
  | refl : Reaches w a a
  | outer {s b : ScopeId} {scope : Scope} :
      Reaches w a s → w.scopes[s]? = some scope → scope.outer = some b → Reaches w a b
  | captured {s : ScopeId} {scope : Scope} {x : String} {o : Outcome} {c : Closure} :
      Reaches w a s → w.scopes[s]? = some scope → scope.get? x = some o → o.closure? = some c →
      Reaches w a c.scope

/-- The closure `k` is bound in a scope that is reached from the scope `a`. -/
def ReachesClosure (w : World) (a : ScopeId) (k : Nat) : Prop :=
  ∃ s scope x o c, w.Reaches a s ∧ w.scopes[s]? = some scope ∧ scope.get? x = some o ∧
    o.closure? = some c ∧ c.id = k

/-- **Nothing is reached both from the scope `a` and from the scope `b`.** -/
structure Separate (w : World) (a b : ScopeId) : Prop where
  scopes : ∀ s, w.Reaches a s → ¬ w.Reaches b s
  closures : ∀ k, w.ReachesClosure a k → ¬ w.ReachesClosure b k

/-- What is reached from a scope, and what is yet to be made. -/
def region (w : World) (a : ScopeId) : Region :=
  ⟨fun s => w.Reaches a s ∨ w.scopes.size ≤ s, fun k => w.ReachesClosure a k ∨ w.closures ≤ k⟩

/-- What is referred to in what is reached is reached as well. -/
theorem covers_region (w : World) (a : ScopeId) : (w.region a).Covers w where
  outer {s _ _} hs hscope ho := by
    rcases hs with hs | hs
    · exact .inl (hs.outer hscope ho)
    · rw [Array.getElem?_eq_none hs] at hscope
      cases hscope
  bound {s _ _ _ _} hs hscope hx hc := by
    rcases hs with hs | hs
    · exact ⟨.inl ⟨_, _, _, _, _, hs, hscope, hx, hc, rfl⟩, .inl (hs.captured hscope hx hc)⟩
    · rw [Array.getElem?_eq_none hs] at hscope
      cases hscope
  nextScope k := .inr (Nat.le_add_right _ k)
  nextClosure k := .inr (Nat.le_add_right _ k)

/-! ### New global scopes -/

section NewGlobal

variable {w : World} {a s : ScopeId}

/-- From a scope that was there before one does not reach a new global scope. -/
theorem Closed.lt_of_reaches (hw : w.Closed) (ha : a < w.scopes.size)
    (h : w.newGlobal.2.Reaches a s) : s < w.scopes.size := by
  have hkeeps : ∀ {t : ScopeId}, t < w.scopes.size →
      w.newGlobal.2.scopes[t]? = w.scopes[t]? := fun ht =>
    Array.getElem?_push_lt ht |>.trans (Array.getElem?_eq_getElem ht).symm
  induction h with
  | refl => exact ha
  | outer _ hscope ho ih =>
      rw [hkeeps ih] at hscope
      exact (hw.outer hscope ho).trans ih
  | captured _ hscope hx hc ih =>
      rw [hkeeps ih] at hscope
      exact (Outcome.within_closure? (hw.bound hscope hx) hc).2

/-- From a new global scope one reaches no other. -/
theorem eq_of_reaches_newGlobal (h : w.newGlobal.2.Reaches w.newGlobal.1 s) :
    s = w.newGlobal.1 ∧ w.newGlobal.2.scopes[s]? = some ⟨[], none⟩ := by
  have hnew : w.newGlobal.2.scopes[w.newGlobal.1]? = some ⟨[], none⟩ :=
    Array.getElem?_push_size
  induction h with
  | refl => exact ⟨rfl, hnew⟩
  | outer _ hscope ho ih =>
      rw [ih.2] at hscope
      cases hscope
      cases ho
  | captured _ hscope hx hc ih =>
      rw [ih.2] at hscope
      cases hscope
      cases hx

/-- **A new global scope is separate from each scope that was there before.** -/
theorem Closed.separate_newGlobal (hw : w.Closed) (ha : a < w.scopes.size) :
    w.newGlobal.2.Separate a w.newGlobal.1 where
  scopes s hs hs' := by
    obtain ⟨rfl, -⟩ := eq_of_reaches_newGlobal hs'
    exact Nat.lt_irrefl _ (hw.lt_of_reaches ha hs)
  closures k _ hk := by
    obtain ⟨s, scope, x, o, c, hs, hscope, hx, -, -⟩ := hk
    rw [(eq_of_reaches_newGlobal hs).2] at hscope
    cases hscope
    cases hx

end NewGlobal

/-! ### A world as it is seen from a scope -/

/-- **The world `v` is the world `w` as it is seen from the scope `a`**: the same but for numbers in
a region in which the scope lies, and the number of the scope itself is the same. -/
structure Seen (R : Region) (π : Renaming) (a : ScopeId) (v w : World) : Prop where
  alike : v.Matches (.renumberedIn R π) w
  closed : v.Closed
  exists_scope : a < v.scopes.size
  own : R.scope a
  number : π.scope a = a

end World

/-- What a user is shown of a result: the syntax errors, or the type and the text of the outcome. -/
def shown : Except (List SyntaxError) (Option Outcome) →
    Except (List SyntaxError) (Option (Tag × String)) :=
  Except.map (Option.map fun o => (o.tag, o.text))

theorem Outcome.tag_translate (C : Comparison) (o : Outcome) : (o.translate C).tag = o.tag := by
  cases o with
  | value v => exact v.tag_translate
  | returned | error => rfl

/-- An outcome is shown as it is shown in other words. -/
theorem Outcome.shown_translate (C : Comparison) (o : Option Outcome) :
    (o.map (Outcome.translate C)).map (fun o => (o.tag, o.text)) =
      o.map fun o => (o.tag, o.text) := by
  cases o with
  | none => rfl
  | some o => simp only [Option.map_some, Outcome.tag_translate, Outcome.text_translate]

namespace World

variable {R R' : Region} {π π' : Renaming} {a b : ScopeId} {v v' w w' : World} {depth : Nat}

/-- What is interpreted keeps a world closed and adds to it. -/
theorem closed_of_interpret {source : String} {r : Except (List SyntaxError) (Option Outcome)}
    (hw : w.Closed) (ha : a < w.scopes.size) (h : interpret depth source a w = some (r, w')) :
    w'.Closed ∧ w.Grows w' := by
  rcases interpret_cases h with rfl | ⟨o, ho⟩
  · exact ⟨hw, .refl _⟩
  · exact ⟨Node.run_closed hw ha ho, Node.run_grows hw ha ho⟩

/-- What is interpreted leaves all other scopes as they were. -/
theorem frame_of_interpret {source : String} {r : Except (List SyntaxError) (Option Outcome)}
    (h : interpret depth source a w = some (r, w')) {s : ScopeId} {scope : Scope} (hs : s ≠ a)
    (hscope : w.scopes[s]? = some scope) : w'.scopes[s]? = some scope := by
  rcases interpret_cases h with rfl | ⟨o, ho⟩
  · exact hscope
  · exact (Node.run_frame ho).others s scope hs hscope

namespace Seen

/-- **What is interpreted in a scope has to do only with what is seen from it.** -/
theorem interpret (h : Seen R π a v w) (depth : Nat) (source : String) :
    Option.Rel (fun r r' => shown r.1 = shown r'.1 ∧ Seen R π a r.2 r'.2)
      (interpret depth source a v) (interpret depth source a w) := by
  by_cases hcorrect : (Parsed.ofString source).errors = []
  · have hrun := Program.run_parallel (C := .renumberedIn R π) depth
      (p := (Parsed.ofString source).program) (fun _ _ _ _ => trivial) h.own h.alike
    change Option.Rel _ _ (((Parsed.ofString source).program.relabel .same).run depth (π.scope a) w)
      at hrun
    rw [Program.relabel_same, h.number] at hrun
    rw [interpret_of_correct hcorrect, Run.map_apply, Run.map_apply]
    generalize hv : (Parsed.ofString source).program.run depth a v = x,
      (Parsed.ofString source).program.run depth a w = y at hrun
    cases hrun with
    | none => exact .none
    | @some r r' hr =>
        have hrun' : (Node.program (Parsed.ofString source).program).run depth a v =
            some (r.1, r.2) := hv
        have hgrows := Node.run_grows h.closed h.exists_scope hrun'
        refine .some ⟨?_, hr.2, Node.run_closed h.closed h.exists_scope hrun',
          Nat.lt_of_lt_of_le h.exists_scope hgrows.scopes, h.own, h.number⟩
        change shown (.ok r.1) = shown (.ok r'.1)
        rw [hr.1]
        exact (congrArg Except.ok (Outcome.shown_translate _ r.1)).symm
  · rw [interpret_of_errors hcorrect]
    exact .some ⟨rfl, h⟩

/-- **What is run elsewhere is not seen**: only the numbers change that come next. -/
theorem later (h : Seen R π a v w) (hgrows : w.Grows w')
    (hkeeps : ∀ s < v.scopes.size, R.scope s → w'.scopes[π.scope s]? = w.scopes[π.scope s]?) :
    Seen R (π.trans (.later w w')) a v w' where
  alike := h.alike.later h.closed hgrows hkeeps
  closed := h.closed
  exists_scope := h.exists_scope
  own := h.own
  number := by
    have hlt : π.scope a < w.scopes.size := h.alike.scope_lt h.exists_scope
    exact (shift_of_lt _ hlt).trans h.number

/-- A name is shown as it is seen. -/
theorem get? (h : Seen R π a v w) (x : String) :
    (w.get? a x).map (fun o => (o.tag, o.text)) = (v.get? a x).map fun o => (o.tag, o.text) := by
  have hget := (h.alike.get? h.own (x := x) trivial).1
  change w.get? (π.scope a) x = _ at hget
  rw [h.number] at hget
  rw [hget, Outcome.shown_translate]

end Seen

/-! ### What is reached in a world as it is seen -/

namespace Seen

variable (h : Seen R π a v w) {s : ScopeId} {scope : Scope}

include h

/-- A scope that is seen, as it is in the world itself. -/
theorem matches_scope {t : ScopeId} (ht : t < v.scopes.size) (hown : R.scope t)
    (hscope : w.scopes[π.scope t]? = some scope) :
    ∃ seen, v.scopes[t]? = some seen ∧ seen.Matches (.renumberedIn R π) scope := by
  obtain ⟨scope', hscope', hmatches⟩ := h.alike.exists_scope hown (Array.getElem?_eq_getElem ht)
  change w.scopes[π.scope t]? = some scope' at hscope'
  rw [hscope] at hscope'
  obtain rfl := Option.some.inj hscope'
  exact ⟨_, Array.getElem?_eq_getElem ht, hmatches⟩

/-- A closure that is bound in a scope that is seen is seen as well, and so is its scope. -/
theorem closure_bound {t : ScopeId} {x : String} {o : Outcome} {c : Closure}
    (ht : t < v.scopes.size) (hown : R.scope t) (hscope : w.scopes[π.scope t]? = some scope)
    (hx : scope.get? x = some o) (hc : o.closure? = some c) :
    ∃ d : Closure, d.Within v ∧ R.Has d ∧ π.closure d.id = c.id ∧ π.scope d.scope = c.scope := by
  obtain ⟨seen, hseen, hmatches⟩ := h.matches_scope ht hown hscope
  rw [hmatches.get? trivial] at hx
  obtain ⟨o', ho', rfl⟩ := Option.map_eq_some_iff.1 hx
  rw [Outcome.translate_renumbered, Outcome.closure?_rename] at hc
  obtain ⟨d, hd, rfl⟩ := Option.map_eq_some_iff.1 hc
  have hadmitted := hmatches.admitted (x := x) trivial ho'
  exact ⟨d, Outcome.within_closure? (h.closed.bound hseen ho') hd,
    o'.admitted_renumberedIn.1 hadmitted d hd, rfl, rfl⟩

/-- A scope that is reached is seen. -/
theorem exists_of_reaches (hs : w.Reaches a s) :
    ∃ t < v.scopes.size, R.scope t ∧ π.scope t = s := by
  induction hs with
  | refl => exact ⟨a, h.exists_scope, h.own, h.number⟩
  | outer _ hscope ho ih =>
      obtain ⟨t, ht, hown, rfl⟩ := ih
      obtain ⟨seen, hseen, hmatches⟩ := h.matches_scope ht hown hscope
      rw [hmatches.outer] at ho
      obtain ⟨u, hu, rfl⟩ := Option.map_eq_some_iff.1 ho
      exact ⟨u, (h.closed.outer hseen hu).trans ht, hmatches.reaches u hu, rfl⟩
  | captured _ hscope hx hc ih =>
      obtain ⟨t, ht, hown, rfl⟩ := ih
      obtain ⟨d, hd, hhas, -, hnumber⟩ := h.closure_bound ht hown hscope hx hc
      exact ⟨d.scope, hd.2, hhas.2, hnumber⟩

/-- A closure that is reached is seen. -/
theorem exists_of_reachesClosure {k : Nat} (hk : w.ReachesClosure a k) :
    ∃ j < v.closures, R.closure j ∧ π.closure j = k := by
  obtain ⟨s, scope, x, o, c, hs, hscope, hx, hc, rfl⟩ := hk
  obtain ⟨t, ht, hown, rfl⟩ := h.exists_of_reaches hs
  obtain ⟨d, hd, hhas, hnumber, -⟩ := h.closure_bound ht hown hscope hx hc
  exact ⟨d.id, hd.1, hhas.1, hnumber⟩

end Seen

/-! ### A world as it is seen from two scopes -/

/-- **The worlds `v` and `v'` are the world `w` as it is seen from the scope `a` and from the scope
`b`**, and nothing is seen from both. -/
structure Interleaved (R R' : Region) (π π' : Renaming) (a b : ScopeId) (v v' w : World) :
    Prop where
  left : Seen R π a v w
  right : Seen R' π' b v' w
  closed : w.Closed
  scopes : ∀ s < v.scopes.size, ∀ t < v'.scopes.size, R.scope s → R'.scope t →
    π.scope s ≠ π'.scope t
  closures : ∀ k < v.closures, ∀ j < v'.closures, R.closure k → R'.closure j →
    π.closure k ≠ π'.closure j

namespace Interleaved

theorem symm (h : Interleaved R R' π π' a b v v' w) : Interleaved R' R π' π b a v' v w where
  left := h.right
  right := h.left
  closed := h.closed
  scopes s hs t ht hown hown' he := h.scopes t ht s hs hown' hown he.symm
  closures k hk j hj hown hown' he := h.closures j hj k hk hown' hown he.symm

/-- **Scopes from which nothing is seen in common are separate.** -/
theorem separate (h : Interleaved R R' π π' a b v v' w) : w.Separate a b where
  scopes s hs hs' := by
    obtain ⟨t, ht, hown, rfl⟩ := h.left.exists_of_reaches hs
    obtain ⟨u, hu, hown', he⟩ := h.right.exists_of_reaches hs'
    exact h.scopes t ht u hu hown hown' he.symm
  closures k hk hk' := by
    obtain ⟨j, hj, hown, rfl⟩ := h.left.exists_of_reachesClosure hk
    obtain ⟨i, hi, hown', he⟩ := h.right.exists_of_reachesClosure hk'
    exact h.closures j hj i hi hown hown' he.symm

/-- The scope `a` exists. -/
theorem left_lt (h : Interleaved R R' π π' a b v v' w) : a < w.scopes.size := by
  have hlt : π.scope a < w.scopes.size := h.left.alike.scope_lt h.left.exists_scope
  rwa [h.left.number] at hlt

/-- **What becomes of the one side leaves the other side as it is seen**: nothing else changes, and
what is new has numbers that nothing on the other side has. -/
theorem later (h : Interleaved R R' π π' a b v v' w) {v₁ w₁ : World} (hseen : Seen R π a v₁ w₁)
    (hclosed : w₁.Closed) (hgrows : w.Grows w₁)
    (hkeeps : ∀ {s : ScopeId} {scope : Scope}, s ≠ a → w.scopes[s]? = some scope →
      w₁.scopes[s]? = some scope) :
    Interleaved R R' π (π'.trans (.later w w₁)) a b v₁ v' w₁ where
  left := hseen
  right := by
    refine h.right.later hgrows fun t ht hown => ?_
    have hne : π'.scope t ≠ a := fun he =>
      h.scopes a h.left.exists_scope t ht h.left.own hown (h.left.number.trans he.symm)
    have hlt : π'.scope t < w.scopes.size := h.right.alike.scope_lt ht
    rw [Array.getElem?_eq_getElem hlt]
    exact hkeeps hne (Array.getElem?_eq_getElem hlt)
  closed := hclosed
  scopes s _ t ht hown hown' he := by
    have hlt : π'.scope t < w.scopes.size := h.right.alike.scope_lt ht
    have hsame : (π'.trans (.later w w₁)).scope t = π'.scope t := shift_of_lt _ hlt
    rw [hsame] at he
    rcases Nat.lt_or_ge s v.scopes.size with hs | hs
    · exact h.scopes s hs t ht hown hown' he
    · exact Nat.not_lt.2 (h.left.alike.le_scope hs) (he ▸ hlt)
  closures k _ j hj hown hown' he := by
    have hlt : π'.closure j < w.closures := h.right.alike.closure_lt hj
    have hsame : (π'.trans (.later w w₁)).closure j = π'.closure j := shift_of_lt _ hlt
    rw [hsame] at he
    rcases Nat.lt_or_ge k v.closures with hk | hk
    · exact h.closures k hk j hj hown hown' he
    · exact Nat.not_lt.2 (h.left.alike.le_closure hk) (he ▸ hlt)

/-- **What is interpreted in the one scope is not seen from the other.** -/
theorem interpret (h : Interleaved R R' π π' a b v v' w) (depth : Nat) (source : String) :
    Option.Rel (fun r r' => shown r.1 = shown r'.1 ∧
        ∃ ρ, Interleaved R R' π ρ a b r.2 v' r'.2)
      (LetFn.interpret depth source a v) (LetFn.interpret depth source a w) := by
  have hrel := h.left.interpret depth source
  generalize LetFn.interpret depth source a v = x at hrel ⊢
  cases hw : LetFn.interpret depth source a w with
  | none =>
      rw [hw] at hrel
      cases hrel
      exact .none
  | some r' =>
      rw [hw] at hrel
      cases hrel with
      | some hr =>
          obtain ⟨hclosed, hgrows⟩ := closed_of_interpret h.closed h.left_lt hw
          exact .some ⟨hr.1, _, h.later hr.2 hclosed hgrows (frame_of_interpret hw)⟩

end Interleaved

/-- A world is what is seen of it from each of two separate scopes. -/
theorem Separate.interleaved (h : w.Separate a b) (hw : w.Closed) (ha : a < w.scopes.size)
    (hb : b < w.scopes.size) :
    Interleaved (w.region a) (w.region b) .refl .refl a b w w w where
  left := ⟨matches_refl (w.covers_region a), hw, ha, .inl .refl, rfl⟩
  right := ⟨matches_refl (w.covers_region b), hw, hb, .inl .refl, rfl⟩
  closed := hw
  scopes s hs t ht hown hown' he := by
    obtain rfl : s = t := he
    exact h.scopes s (hown.resolve_right (Nat.not_le.2 hs)) (hown'.resolve_right (Nat.not_le.2 ht))
  closures k hk j hj hown hown' he := by
    obtain rfl : k = j := he
    exact h.closures k (hown.resolve_right (Nat.not_le.2 hk))
      (hown'.resolve_right (Nat.not_le.2 hj))

/-! ### Texts in two scopes -/

/-- What is shown of the results in one scope. -/
def shownIn (a : ScopeId)
    (rs : List ((ScopeId × String) × Except (List SyntaxError) (Option Outcome))) :
    List (Except (List SyntaxError) (Option (Tag × String))) :=
  (rs.filter fun r => r.1.1 = a).map fun r => shown r.2

/-- The texts for one scope. -/
def only (a : ScopeId) (ts : List (ScopeId × String)) : List (ScopeId × String) :=
  ts.filter fun t => t.1 = a

section Cons

variable {t : ScopeId × String} {ts : List (ScopeId × String)}
  {r : Except (List SyntaxError) (Option Outcome)}
  {rs : List ((ScopeId × String) × Except (List SyntaxError) (Option Outcome))}

theorem only_cons_of_eq (h : t.1 = a) : only a (t :: ts) = t :: only a ts :=
  List.filter_cons_of_pos (decide_eq_true h)

theorem only_cons_of_ne (h : t.1 ≠ a) : only a (t :: ts) = only a ts :=
  List.filter_cons_of_neg fun hd => h (of_decide_eq_true hd)

theorem shownIn_cons_of_eq (h : t.1 = a) :
    shownIn a ((t, r) :: rs) = shown r :: shownIn a rs := by
  rw [shownIn, List.filter_cons_of_pos (by exact decide_eq_true h)]
  rfl

theorem shownIn_cons_of_ne (h : t.1 ≠ a) : shownIn a ((t, r) :: rs) = shownIn a rs := by
  rw [shownIn, List.filter_cons_of_neg fun hd => h (by exact of_decide_eq_true hd)]
  rfl

end Cons

namespace Interleaved

/-- The two scopes are not the same. -/
theorem ne (h : Interleaved R R' π π' a b v v' w) : a ≠ b := fun hab =>
  h.scopes a h.left.exists_scope b h.right.exists_scope h.left.own h.right.own
    (h.left.number.trans (hab.trans h.right.number.symm))

/-- If what is interpreted in the one scope comes to an end as it is seen, it comes to an end. -/
theorem exists_interpret (h : Interleaved R R' π π' a b v v' w) {source : String}
    {r : Except (List SyntaxError) (Option Outcome)} {v₁ : World}
    (hrun : LetFn.interpret depth source a v = some (r, v₁)) :
    ∃ r' w₁ ρ, LetFn.interpret depth source a w = some (r', w₁) ∧ shown r = shown r' ∧
      Interleaved R R' π ρ a b v₁ v' w₁ := by
  have hrel := h.interpret depth source
  rw [hrun] at hrel
  generalize LetFn.interpret depth source a w = y at hrel
  cases hrel with
  | some hr =>
      obtain ⟨hshown, ρ, h₁⟩ := hr
      exact ⟨_, _, ρ, rfl, hshown, h₁⟩

/-- If what is interpreted in the one scope comes to an end, it does so as it is seen. -/
theorem exists_seen (h : Interleaved R R' π π' a b v v' w) {source : String}
    {r : Except (List SyntaxError) (Option Outcome)} {w₁ : World}
    (hrun : LetFn.interpret depth source a w = some (r, w₁)) :
    ∃ r' v₁ ρ, LetFn.interpret depth source a v = some (r', v₁) ∧
      Interleaved R R' π ρ a b v₁ v' w₁ := by
  have hrel := h.interpret depth source
  rw [hrun] at hrel
  generalize LetFn.interpret depth source a v = x at hrel
  cases hrel with
  | some hr =>
      obtain ⟨-, ρ, h₁⟩ := hr
      exact ⟨_, _, ρ, rfl, h₁⟩

/-- **Texts in two separate scopes have the results that those in each of them have alone.** -/
theorem interpretAll (h : Interleaved R R' π π' a b v v' w) {ts : List (ScopeId × String)}
    (hts : ∀ t ∈ ts, t.1 = a ∨ t.1 = b)
    {rs rs' : List ((ScopeId × String) × Except (List SyntaxError) (Option Outcome))}
    {u u' : World} (hleft : LetFn.interpretAll depth (only a ts) v = some (rs, u))
    (hright : LetFn.interpretAll depth (only b ts) v' = some (rs', u')) :
    ∃ all w₁ ρ ρ', LetFn.interpretAll depth ts w = some (all, w₁) ∧
      shownIn a all = shownIn a rs ∧ shownIn b all = shownIn b rs' ∧
      Interleaved R R' ρ ρ' a b u u' w₁ := by
  induction ts generalizing v v' w π π' rs rs' with
  | nil =>
      cases hleft
      cases hright
      exact ⟨[], w, π, π', rfl, rfl, rfl, h⟩
  | cons t ts ih =>
      have hts' : ∀ t ∈ ts, t.1 = a ∨ t.1 = b := fun t' ht' => hts t' (List.mem_cons_of_mem _ ht')
      rcases hts t List.mem_cons_self with rfl | rfl
      · rw [only_cons_of_eq rfl, interpretAll_cons_eq_some_iff] at hleft
        rw [only_cons_of_ne h.ne] at hright
        obtain ⟨r, v₁, rest, hr, hrest, rfl⟩ := hleft
        obtain ⟨r', w₁, ρ, hr', hshown, h₁⟩ := h.exists_interpret hr
        obtain ⟨all, w₂, ρ₁, ρ₂, hall, ha, hb, h₂⟩ := ih h₁ hts' hrest hright
        refine ⟨(t, r') :: all, w₂, ρ₁, ρ₂,
          interpretAll_cons_eq_some_iff.2 ⟨r', w₁, all, hr', hall, rfl⟩, ?_, ?_, h₂⟩
        · rw [shownIn_cons_of_eq rfl, shownIn_cons_of_eq rfl, hshown, ha]
        · rw [shownIn_cons_of_ne h.ne, hb]
      · rw [only_cons_of_eq rfl, interpretAll_cons_eq_some_iff] at hright
        rw [only_cons_of_ne h.ne.symm] at hleft
        obtain ⟨r, v₁, rest, hr, hrest, rfl⟩ := hright
        obtain ⟨r', w₁, ρ, hr', hshown, h₁⟩ := h.symm.exists_interpret hr
        obtain ⟨all, w₂, ρ₁, ρ₂, hall, ha, hb, h₂⟩ := ih h₁.symm hts' hleft hrest
        refine ⟨(t, r') :: all, w₂, ρ₁, ρ₂,
          interpretAll_cons_eq_some_iff.2 ⟨r', w₁, all, hr', hall, rfl⟩, ?_, ?_, h₂⟩
        · rw [shownIn_cons_of_ne h.ne.symm, ha]
        · rw [shownIn_cons_of_eq rfl, shownIn_cons_of_eq rfl, hshown, hb]

/-- If texts in two separate scopes come to an end, those in each of them do. -/
theorem exists_only (h : Interleaved R R' π π' a b v v' w) {ts : List (ScopeId × String)}
    (hts : ∀ t ∈ ts, t.1 = a ∨ t.1 = b)
    {all : List ((ScopeId × String) × Except (List SyntaxError) (Option Outcome))} {w₁ : World}
    (hrun : LetFn.interpretAll depth ts w = some (all, w₁)) :
    (∃ rs u, LetFn.interpretAll depth (only a ts) v = some (rs, u)) ∧
      ∃ rs u, LetFn.interpretAll depth (only b ts) v' = some (rs, u) := by
  induction ts generalizing v v' w π π' all with
  | nil => exact ⟨⟨[], v, rfl⟩, [], v', rfl⟩
  | cons t ts ih =>
      have hts' : ∀ t ∈ ts, t.1 = a ∨ t.1 = b := fun t' ht' => hts t' (List.mem_cons_of_mem _ ht')
      obtain ⟨r, w₂, rest, hr, hrest, rfl⟩ := interpretAll_cons_eq_some_iff.1 hrun
      rcases hts t List.mem_cons_self with rfl | rfl
      · obtain ⟨r', v₁, ρ, hr', h₁⟩ := h.exists_seen hr
        obtain ⟨⟨rs, u, hrs⟩, hright⟩ := ih h₁ hts' hrest
        rw [only_cons_of_eq rfl, only_cons_of_ne h.ne]
        exact ⟨⟨_, u, interpretAll_cons_eq_some_iff.2 ⟨r', v₁, rs, hr', hrs, rfl⟩⟩, hright⟩
      · obtain ⟨r', v₁, ρ, hr', h₁⟩ := h.symm.exists_seen hr
        obtain ⟨hleft, rs, u, hrs⟩ := ih h₁.symm hts' hrest
        rw [only_cons_of_eq rfl, only_cons_of_ne h.ne.symm]
        exact ⟨hleft, _, u, interpretAll_cons_eq_some_iff.2 ⟨r', v₁, rs, hr', hrs, rfl⟩⟩

end Interleaved

/-- **Scopes that have nothing in common do not interfere.**  Texts for the two of them come to an
end if and only if those for each of them do by themselves; and then it does not matter how they are
interleaved, neither for what is shown of their results nor for what names are bound to. -/
theorem unconnected (depth : Nat) (hw : w.Reachable) (ha : a < w.scopes.size)
    (hb : b < w.scopes.size) (hseparate : w.Separate a b) {l l' : List (ScopeId × String)}
    (hl : ∀ t ∈ l, t.1 = a ∨ t.1 = b) (hl' : ∀ t ∈ l', t.1 = a ∨ t.1 = b)
    (hleft : only a l = only a l') (hright : only b l = only b l') :
    ((interpretAll depth l w).isSome ↔
      (interpretAll depth (only a l) w).isSome ∧ (interpretAll depth (only b l) w).isSome) ∧
    ∀ rs w₁, interpretAll depth l w = some (rs, w₁) →
      ∃ rs' w₁', interpretAll depth l' w = some (rs', w₁') ∧
        shownIn a rs = shownIn a rs' ∧ shownIn b rs = shownIn b rs' ∧
        (∀ s, s = a ∨ s = b → ∀ x, (w₁.get? s x).map (fun o => (o.tag, o.text)) =
          (w₁'.get? s x).map fun o => (o.tag, o.text)) ∧
        w₁.Separate a b ∧ w₁'.Separate a b := by
  have h := hseparate.interleaved hw.closed ha hb
  refine ⟨⟨fun hrun => ?_, fun ⟨hrun, hrun'⟩ => ?_⟩, fun rs w₁ hrun => ?_⟩
  · obtain ⟨_, hrun⟩ := Option.isSome_iff_exists.1 hrun
    obtain ⟨⟨rs, u, hrs⟩, rs', u', hrs'⟩ := h.exists_only hl hrun
    exact ⟨Option.isSome_of_eq_some hrs, Option.isSome_of_eq_some hrs'⟩
  · obtain ⟨_, hrun⟩ := Option.isSome_iff_exists.1 hrun
    obtain ⟨_, hrun'⟩ := Option.isSome_iff_exists.1 hrun'
    obtain ⟨_, _, _, _, hall, -⟩ := h.interpretAll hl hrun hrun'
    exact Option.isSome_of_eq_some hall
  · obtain ⟨⟨left, u, hu⟩, right, u', hu'⟩ := h.exists_only hl hrun
    obtain ⟨all, w₂, _, _, hall, hshown, hshown', h₁⟩ := h.interpretAll hl hu hu'
    obtain ⟨rfl, rfl⟩ := Prod.mk.inj (Option.some.inj (hrun.symm.trans hall))
    rw [hleft] at hu
    rw [hright] at hu'
    obtain ⟨rs', w₁', _, _, hrun', hagain, hagain', h₂⟩ := h.interpretAll hl' hu hu'
    refine ⟨rs', w₁', hrun', hshown.trans hagain.symm, hshown'.trans hagain'.symm, ?_,
      h₁.separate, h₂.separate⟩
    rintro s (rfl | rfl) x
    · exact (h₁.left.get? x).trans (h₂.left.get? x).symm
    · exact (h₁.right.get? x).trans (h₂.right.get? x).symm

/-- Texts for two global scopes: each binds a number and a function that uses it, and calls the
function. -/
def textsForTwo : List (ScopeId × String) :=
  [(0, "let n = 1; let f = fn(x) \x7b x + n \x7d;"), (1, "let n = 10; let f = fn() \x7b n \x7d;"),
    (0, "f(5)"), (1, "f()")]

/-- The same texts, those for the second scope first. -/
def textsForTwo' : List (ScopeId × String) :=
  only 1 textsForTwo ++ only 0 textsForTwo

/-- In the one scope the function gives six and in the other it gives ten, whichever was first. -/
theorem unconnected_two_globals : ∃ rs w₁ rs' w₁',
    interpretAll 1 textsForTwo World.empty.newGlobal.2.newGlobal.2 = some (rs, w₁) ∧
    interpretAll 1 textsForTwo' World.empty.newGlobal.2.newGlobal.2 = some (rs', w₁') ∧
    (shownIn 0 rs').map Except.toOption = [some none, some (some (.integer, "6"))] ∧
    (shownIn 1 rs').map Except.toOption = [some none, some (some (.integer, "10"))] ∧
    w₁.Separate 0 1 ∧ w₁'.Separate 0 1 := by
  have hreachable : World.empty.newGlobal.2.Reachable := .newGlobal .empty
  have hseparate : World.empty.newGlobal.2.newGlobal.2.Separate 0 1 :=
    hreachable.closed.separate_newGlobal (by decide)
  have hshown : (interpretAll 1 textsForTwo World.empty.newGlobal.2.newGlobal.2).map
      (fun r => [(shownIn 0 r.1).map Except.toOption, (shownIn 1 r.1).map Except.toOption]) =
      some [[some none, some (some (.integer, "6"))],
        [some none, some (some (.integer, "10"))]] := by decide +kernel
  obtain ⟨⟨rs, w₁⟩, hrun, hvalues⟩ := Option.map_eq_some_iff.1 hshown
  have hscopes : ∀ t ∈ textsForTwo, t.1 = 0 ∨ t.1 = 1 := by decide +kernel
  have hscopes' : ∀ t ∈ textsForTwo', t.1 = 0 ∨ t.1 = 1 := by decide +kernel
  obtain ⟨rs', w₁', hrun', hleft, hright, -, hseparate₁, hseparate₁'⟩ :=
    (unconnected 1 hreachable.newGlobal (by decide) (by decide) hseparate hscopes hscopes'
      (by decide +kernel) (by decide +kernel)).2 rs w₁ hrun
  obtain ⟨hsix, hrest⟩ := List.cons.inj hvalues
  obtain ⟨hten, -⟩ := List.cons.inj hrest
  refine ⟨rs, w₁, rs', w₁', hrun, hrun', ?_, ?_, hseparate₁, hseparate₁'⟩
  · rw [← hleft, hsix]
  · rw [← hright, hten]

end World

end LetFn
