/-
**Well-scoped programs look up no name in vain.**

A closure is called from anywhere and at any time, but its body is evaluated in a scope that lies in
the one it was written in.  So what matters is that the names the body uses may be looked up from
there, and this once they may they may for ever: scopes are never moved, and names never unbound.  A
function that is bound to a name may use the name; it cannot be called before it is bound, so it is
sound from the moment it is stored.

A program that is well-scoped when some names may be used from the start fails to look up these
names at most.  If they are no names, no lookup fails; if they are all names, then this says only
that what the program fails with is not told of a broken node.

Main definitions:

* `LetFn.World.known` — the names that may be looked up from a scope;
* `LetFn.Closure.Sound`, `LetFn.World.Sound` — **the closures of a world are well-scoped where they
  were written**;
* `LetFn.RuntimeError.Possible` — what a well-scoped program may fail with.

Main results:

* `LetFn.Expr.eval_scoped`, `LetFn.Stmt.eval_scoped`, `LetFn.Block.eval_scoped` — **the evaluation
  of what is well-scoped keeps a world sound**;
* `LetFn.Closure.call_scoped` — so do calls;
* `LetFn.Program.run_scoped` — **a well-scoped program in a new scope fails with what is possible**.
-/

import LetFn.Proofs.Eval.Frame
import LetFn.Proofs.Eval.Settled
import LetFn.Proofs.Syntax.Scoping

set_option relaxedAutoImplicit false
set_option autoImplicit false

namespace LetFn

/-! ### The names that may be looked up -/

namespace World

/-- **The names that may be looked up from the scope `s`**: those of `free` in any case, and those
that are bound there or further out. -/
def known (w : World) (free : Set String) (s : ScopeId) : Set String :=
  {x | x ∈ free ∨ (w.get? s x).isSome}

variable {w w' : World} {s a : ScopeId} {bound : String → Prop} {x : String}

/-- A scope that there is is there later. -/
theorem Frame.lt_size (h : Frame s bound w w') (ha : a < w.scopes.size) : a < w'.scopes.size := by
  obtain ⟨scope, hscope⟩ : ∃ scope, w.scopes[a]? = some scope :=
    ⟨_, Array.getElem?_eq_getElem ha⟩
  by_cases has : a = s
  · subst has
    obtain ⟨scope', hscope', -⟩ := h.own scope hscope
    exact (Array.getElem?_eq_some_iff.1 hscope').1
  · exact (Array.getElem?_eq_some_iff.1 (h.others a scope has hscope)).1

/-- Each scope is later a scope that binds at least the same names and lies where it lay. -/
theorem Frame.exists_extends (h : Frame s bound w w') {scope : Scope}
    (ha : w.scopes[a]? = some scope) :
    ∃ scope', w'.scopes[a]? = some scope' ∧ scope.Extends bound scope' := by
  by_cases has : a = s
  · subst has
    exact h.own scope ha
  · exact ⟨scope, h.others a scope has ha, rfl, fun _ hx => hx, fun _ _ => rfl⟩

/-- **A name that is bound stays bound**, wherever it is looked up from. -/
theorem Frame.isSome_get? (h : Frame s bound w w') (hx : (w.get? a x).isSome) :
    (w'.get? a x).isSome := by
  induction a using Nat.strongRecOn with
  | ind a ih =>
      cases ha : w.scopes[a]? with
      | none =>
          rw [get?, ha] at hx
          cases hx
      | some scope =>
          obtain ⟨scope', ha', hextends⟩ := h.exists_extends ha
          rw [get?_eq ha, Option.isSome_or, Bool.or_eq_true] at hx
          rw [get?_eq ha', Option.isSome_or, Bool.or_eq_true, hextends.outer]
          rcases hx with hx | hx
          · exact .inl (hextends.names x hx)
          · cases houter : scope.outer with
            | none =>
                rw [houter] at hx
                cases hx
            | some b =>
                rw [houter, Option.bind_some] at hx
                rw [Option.bind_some]
                split at hx
                · rw [if_pos ‹_›]
                  exact .inr (ih b ‹_› hx)
                · cases hx

/-- What may be looked up may be looked up later. -/
theorem Frame.known_subset (h : Frame s bound w w') (free : Set String) (a : ScopeId) :
    w.known free a ⊆ w'.known free a :=
  fun _ hx => hx.imp_right h.isSome_get?

/-- A name that has been bound in a scope may be looked up from there. -/
theorem isSome_get?_set (hs : s < w.scopes.size) (x : String) (o : Outcome) :
    ((w.set s x o).get? s x).isSome := by
  have hscope : (w.set s x o).scopes[s]? = some (w.scopes[s].set x o) := by
    rw [World.set, Array.getElem?_modify, if_pos rfl, Array.getElem?_eq_getElem hs, Option.map_some]
  rw [get?_eq hscope, Scope.get?_set, if_pos rfl]
  rfl

/-- What may be looked up from a scope may be looked up from a new one that lies in it. -/
theorem isSome_get?_enclose (hs : s < w.scopes.size) (hx : (w.get? s x).isSome) :
    ((w.enclose s).2.get? (w.enclose s).1 x).isSome := by
  have hscope : (w.enclose s).2.scopes[(w.enclose s).1]? = some ⟨[], some s⟩ :=
    Array.getElem?_push_size
  have hframe : Frame s (fun _ => True) w (w.enclose s).2 := keeps_enclose.frame
  have hlt : s < (w.enclose s).1 := hs
  rw [get?_eq hscope]
  change ((none : Option Outcome).or ((some s).bind _)).isSome
  rw [Option.none_or, Option.bind_some, if_pos hlt]
  exact hframe.isSome_get? hx

end World

/-! ### Sound worlds -/

section Sound

variable (free : Set String) (n : ScopeId)

/-- **The closure is well-scoped where it was written**, which is in a scope that has been made, and
not before the scope `n`. -/
structure Closure.Sound (w : World) (c : Closure) : Prop where
  region : n ≤ c.scope
  made : c.scope < w.scopes.size
  body : c.literal.Scoped (w.known free c.scope)

/-- A closure is sound, and any other value. -/
def Value.Sound (w : World) : Value → Prop
  | .function c => c.Sound free n w
  | _ => True

/-- From the scope `n` on scopes lie in one another, and what they bind is sound values. -/
structure World.Sound (w : World) : Prop where
  outer : ∀ {s : ScopeId} {scope : Scope} {a : ScopeId}, n ≤ s → w.scopes[s]? = some scope →
    scope.outer = some a → n ≤ a
  bound : ∀ {s : ScopeId} {scope : Scope} {x : String} {o : Outcome}, n ≤ s →
    w.scopes[s]? = some scope → scope.get? x = some o → ∃ v, o = .value v ∧ v.Sound free n w

/-- What a well-scoped program may fail with: it may fail to look up a name of `free`, but no other,
and it tells neither of a broken node nor of an error of a host. -/
def RuntimeError.Possible : RuntimeError → Prop
  | .unbound x => x ∈ free
  | .broken _ _ _ => False
  | .custom _ => False
  | _ => True

/-- What a well-scoped program may unwind with: a pending return brings a sound value. -/
def Exit.Sound (w : World) : Exit → Prop
  | .returned o => ∃ v, o = .value v ∧ v.Sound free n w
  | .error e => e.Possible free

end Sound

variable {free : Set String} {n : ScopeId} {w w' : World} {s : ScopeId}

theorem Value.Plain.sound {v : Value} (h : v.Plain) : v.Sound free n w := by
  cases v with
  | function c => exact h.elim
  | integer | boolean | null => trivial

namespace World

/-- What is sound is sound later. -/
theorem Frame.sound {bound : String → Prop} (h : Frame s bound w w') {v : Value}
    (hv : v.Sound free n w) : v.Sound free n w' := by
  cases v with
  | function c =>
      exact ⟨hv.region, h.lt_size hv.made,
        Block.Scoped.mono (Set.union_subset_union_left _ (h.known_subset free c.scope)) _ hv.body⟩
  | integer | boolean | null => trivial

/-- What a name is worth is a sound value. -/
theorem Sound.get? (h : w.Sound free n) (hs : n ≤ s) {x : String} {o : Outcome}
    (ho : w.get? s x = some o) : ∃ v, o = .value v ∧ v.Sound free n w := by
  induction s using Nat.strongRecOn with
  | ind s ih =>
      cases hscope : w.scopes[s]? with
      | none =>
          rw [World.get?, hscope] at ho
          cases ho
      | some scope =>
          rw [get?_eq hscope, Option.or_eq_some_iff] at ho
          rcases ho with ho | ⟨-, ho⟩
          · exact h.bound hs hscope ho
          · obtain ⟨a, ha, ho⟩ := Option.bind_eq_some_iff.1 ho
            split at ho
            · exact ih a ‹_› (h.outer hs hscope ha) ho
            · cases ho

/-- Binding what is sound once it is bound keeps a world sound. -/
theorem Sound.set (h : w.Sound free n) (s : ScopeId) {x : String} {v : Value}
    (hv : v.Sound free n (w.set s x (.value v))) : (w.set s x (.value v)).Sound free n := by
  have hframe : Frame s (fun _ => True) w (w.set s x (.value v)) := frame_set trivial _
  constructor
  · intro a scope b hn ha hb
    obtain ⟨scope', ha', rfl | rfl⟩ := scope_of_set ha <;> exact h.outer hn ha' hb
  · intro a scope y o hn ha hy
    rcases bound_of_set ha hy with rfl | ⟨scope', ha, hy⟩
    · exact ⟨v, rfl, hv⟩
    · obtain ⟨u, rfl, hu⟩ := h.bound hn ha hy
      exact ⟨u, rfl, hframe.sound hu⟩

/-- A new scope binds nothing. -/
theorem Sound.newScope (h : w.Sound free n) {outer : Option ScopeId} (houter : ∀ a ∈ outer, n ≤ a) :
    (w.newScope outer).2.Sound free n := by
  have hframe : Frame n (fun _ => True) w (w.newScope outer).2 := keeps_newScope.frame
  constructor
  · intro a scope b hn ha hb
    rcases scope_of_newScope ha with ⟨-, rfl⟩ | ha
    · exact houter b hb
    · exact h.outer hn ha hb
  · intro a scope y o hn ha hy
    obtain ⟨u, rfl, hu⟩ := h.bound hn (bound_of_newScope ha hy) hy
    exact ⟨u, rfl, hframe.sound hu⟩

end World

/-! ### The steps of evaluation -/

/-- The promise to keep a world sound, in which there is the scope `s`. -/
def Promise.sound (free : Set String) (n s : ScopeId) : Promise where
  holds w := w.Sound free n ∧ n ≤ s ∧ s < w.scopes.size
  changes := World.Frame s fun _ => True
  value w v := v.Sound free n w
  exit w e := e.Sound free n w
  changes_refl w := (World.Keeps.refl w).frame
  changes_trans := World.Frame.trans
  value_of_changes h hv := h.sound hv

section Steps

variable (w : World) (s : ScopeId)

/-- A name that may be looked up has a sound value, or is one of `free`. -/
theorem Eval.lookup_sound {x : String} (hx : x ∈ w.known free s) :
    (Promise.sound free n s).Keeps w (Eval.lookup s x) (Promise.sound free n s).value := by
  refine .of_eq (Eval.lookup_apply s x w) fun hw => ⟨hw, (World.Keeps.refl w).frame, ?_⟩
  cases ho : w.get? s x with
  | none => exact hx.resolve_right (by simp [ho])
  | some o =>
      obtain ⟨v, rfl, hv⟩ := hw.1.get? hw.2.1 ho
      exact hv

/-- A name that is bound to a sound value may be looked up. -/
theorem Eval.assign_sound (x : String) {v : Value} (hv : v.Sound free n w) :
    (Promise.sound free n s).Keeps w (Eval.assign s x v) fun w' _ => x ∈ w'.known free s := by
  refine .of_eq (Eval.assign_apply s x v w) fun hw => ?_
  have hframe : World.Frame s (fun _ => True) w (w.set s x (.value v)) := World.frame_set trivial _
  exact ⟨⟨hw.1.set s (hframe.sound hv), hw.2.1, hframe.lt_size hw.2.2⟩, hframe,
    .inr (World.isSome_get?_set hw.2.2 x _)⟩

/-- Making a closure changes no scope. -/
theorem World.frame_newClosure (literal : Function) (a : ScopeId) :
    World.Frame s (fun _ => True) w (w.newClosure literal a).2 :=
  World.Keeps.frame fun _ _ h => h

theorem World.Sound.newClosure {w : World} (h : w.Sound free n) (literal : Function) (a : ScopeId) :
    (w.newClosure literal a).2.Sound free n where
  outer := h.outer
  bound hn ha hx := by
    obtain ⟨v, rfl, hv⟩ := h.bound hn ha hx
    exact ⟨v, rfl, (World.frame_newClosure w a literal a).sound hv⟩

/-- A function whose body is well-scoped makes a sound closure. -/
theorem Eval.closure_sound (literal : Function) (h : literal.Scoped (w.known free s)) :
    (Promise.sound free n s).Keeps w (Eval.closure literal s) (Promise.sound free n s).value := by
  refine .of_eq (Eval.closure_apply literal s w) fun hw => ?_
  have hframe := World.frame_newClosure w s literal s
  refine ⟨⟨hw.1.newClosure literal s, hw.2⟩, hframe, hw.2.1, hw.2.2, ?_⟩
  exact Block.Scoped.mono (Set.union_subset_union_left _ (hframe.known_subset free s)) _ h

/-- **A function that is bound to `x` may use `x`**: it is sound once it is bound. -/
theorem Eval.bind_closure_sound {x : String} (literal : Function)
    (h : literal.Scoped (insert x (w.known free s))) :
    (Promise.sound free n s).Keeps w (do Eval.assign s x (← Eval.closure literal s))
      fun w' _ => x ∈ w'.known free s := by
  refine .of_eq rfl fun hw => ?_
  have hmade := World.frame_newClosure w s literal s
  have hframe : World.Frame s (fun _ => True) w ((w.newClosure literal s).2.set s x
      (.value (.function (w.newClosure literal s).1))) := hmade.trans (World.frame_set trivial _)
  have hx : x ∈ ((w.newClosure literal s).2.set s x
      (.value (.function (w.newClosure literal s).1))).known free s :=
    .inr (World.isSome_get?_set (hmade.lt_size hw.2.2) x _)
  refine ⟨⟨(hw.1.newClosure literal s).set s ⟨hw.2.1, hframe.lt_size hw.2.2, ?_⟩, hw.2.1,
    hframe.lt_size hw.2.2⟩, hframe, hx⟩
  have hknown := Set.insert_subset hx (hframe.known_subset free s)
  exact Block.Scoped.mono (Set.union_subset_union_left _ hknown) _ h

end Steps

/-! ### Operations -/

theorem Operator.possible_unary {op : Token} {v : Value} {e : RuntimeError}
    (h : Operator.unary op v = .error e) : e.Possible free := by
  unfold Operator.unary at h
  split at h
  · cases h
  · split at h
    · cases h
    · obtain rfl := Except.error.inj h
      trivial
  · obtain rfl := Except.error.inj h
    trivial
  · obtain rfl := Except.error.inj h
    trivial

theorem Operator.possible_onIntegers {op : Token} {a b : Int64} {e : RuntimeError}
    (h : Operator.onIntegers op a b = .error e) : e.Possible free := by
  have hexact {m : Option Int64} (hm : Operator.exact op a b m = .error e) : e.Possible free := by
    cases m with
    | none =>
        obtain rfl := Except.error.inj hm
        trivial
    | some n => cases hm
  unfold Operator.onIntegers at h
  split at h
  case h_1 | h_2 | h_3 => exact hexact h
  case h_4 | h_5 =>
      split at h
      · obtain rfl := Except.error.inj h
        trivial
      · exact hexact h
  case h_12 =>
      obtain rfl := Except.error.inj h
      trivial
  all_goals cases h

theorem Operator.possible_binary {op : Token} {a b : Value} {e : RuntimeError}
    (h : Operator.binary op a b = .error e) : e.Possible free := by
  unfold Operator.binary at h
  split at h
  · exact possible_onIntegers h
  · split at h
    · cases h
    · cases h
    · split at h <;>
      · obtain rfl := Except.error.inj h
        trivial

/-- An operation has a plain value, or fails with what is possible. -/
theorem Eval.ofOperator_sound (w : World) (s : ScopeId) {r : Except RuntimeError Value}
    (hplain : ∀ v, r = .ok v → v.Plain) (hpossible : ∀ e, r = .error e → e.Possible free) :
    (Promise.sound free n s).Keeps w (Eval.ofOperator r) (Promise.sound free n s).value := by
  cases r with
  | ok v => exact .pure (hplain v rfl).sound
  | error e => exact .throw (hpossible e rfl)

/-- Calls with as many arguments as there are parameters keep a world sound. -/
def CallsSound (free : Set String) (n : ScopeId) (call : Calls) : Prop :=
  ∀ s c vs w, c.Sound free n w → c.literal.parameters.length = vs.length →
    (∀ v ∈ vs, v.Sound free n w) →
    (Promise.sound free n s).Keeps w (call c vs) (Promise.sound free n s).value

/-- The call of any value keeps a world sound, if those of closures do. -/
theorem Eval.apply_sound {call : Calls} (h : CallsSound free n call) (s : ScopeId) {f : Value}
    {vs : List Value} (hf : f.Sound free n w) (hvs : ∀ v ∈ vs, v.Sound free n w) :
    (Promise.sound free n s).Keeps w (Eval.apply call f vs) (Promise.sound free n s).value := by
  cases f with
  | function c =>
      simp only [Eval.apply]
      split
      case isTrue harity => exact h s c vs w hf harity hvs
      case isFalse => exact .throw trivial
  | integer | boolean | null => exact .throw trivial

/-- A block that has no value is worth null. -/
theorem Eval.getD_sound {x : Eval (Option Value)}
    (hx : (Promise.sound free n s).Keeps w x fun w o => ∀ v ∈ o, v.Sound free n w) :
    (Promise.sound free n s).Keeps w (do return (← x).getD .null)
      (Promise.sound free n s).value := by
  refine hx.bind fun o w' _ ho => .pure ?_
  cases o with
  | none => trivial
  | some v => exact ho v rfl

/-! ### Every node -/

mutual

/-- **The evaluation of a well-scoped expression keeps a world sound.** -/
theorem Expr.eval_scoped {free : Set String} {n : ScopeId} {call : Calls}
    (h : CallsSound free n call) (s : ScopeId) :
    (e : Expr) → (w : World) → e.Scoped (w.known free s) →
      (Promise.sound free n s).Keeps w (e.eval call s) (Promise.sound free n s).value
  | .ident _, w => fun he => Eval.lookup_sound w s he
  | .integer _ _, _ => fun _ => .pure trivial
  | .boolean _ _, _ => fun _ => .pure trivial
  | .unary _ e, w => by
    intro he
    refine (Expr.eval_scoped h s e w he).bind fun v w' _ _ => ?_
    exact Eval.ofOperator_sound w' s (fun _ hv => Operator.plain_unary hv)
      fun _ herror => Operator.possible_unary herror
  | .binary l _ r, w => by
    intro he
    refine (Expr.eval_scoped h s l w he.1).bind fun a w' hw' _ => ?_
    have hr := Expr.Scoped.mono (hw'.known_subset free s) r he.2
    refine (Expr.eval_scoped h s r w' hr).bind fun b w'' _ _ => ?_
    exact Eval.ofOperator_sound w'' s (fun _ hv => Operator.plain_binary hv)
      fun _ herror => Operator.possible_binary herror
  | .ifElse _ c yes none, w => by
    intro he
    refine (Expr.eval_scoped h s c w he.1).bind fun v w' hw' _ => ?_
    have hyes := Block.Scoped.mono (hw'.known_subset free s) yes he.2
    cases v.truthy with
    | true => exact Eval.getD_sound (Block.eval_scoped h s yes w' hyes)
    | false => exact .pure trivial
  | .ifElse _ c yes (some no), w => by
    intro he
    refine (Expr.eval_scoped h s c w he.1).bind fun v w' hw' _ => ?_
    have hyes := Block.Scoped.mono (hw'.known_subset free s) yes he.2.1
    have hno := Block.Scoped.mono (hw'.known_subset free s) no he.2.2
    cases v.truthy with
    | true => exact Eval.getD_sound (Block.eval_scoped h s yes w' hyes)
    | false => exact Eval.getD_sound (Block.eval_scoped h s no w' hno)
  | .function t xs body, w => fun he => Eval.closure_sound w s ⟨t, xs, body⟩ he
  | .call _ f es, w => by
    intro he
    refine (Expr.eval_scoped h s f w he.1).bind fun v w' hw' hv => ?_
    have hes := Expr.ScopedAll.mono (hw'.known_subset free s) es he.2
    refine (Expr.evalAll_scoped h s es w' hes).bind fun vs w'' hw'' hvs => ?_
    exact Eval.apply_sound h s (hw''.sound hv) hvs
  | .error _ _ _, _ => False.elim

/-- So does the evaluation of arguments. -/
theorem Expr.evalAll_scoped {free : Set String} {n : ScopeId} {call : Calls}
    (h : CallsSound free n call) (s : ScopeId) :
    (es : List Expr) → (w : World) → Expr.ScopedAll (w.known free s) es →
      (Promise.sound free n s).Keeps w (Expr.evalAll call s es)
        fun w vs => ∀ v ∈ vs, v.Sound free n w
  | [], _ => fun _ => .pure (by simp)
  | e :: es, w => by
    intro he
    refine (Expr.eval_scoped h s e w he.1).bind fun v w' hw' hv => ?_
    have hes := Expr.ScopedAll.mono (hw'.known_subset free s) es he.2
    refine (Expr.evalAll_scoped h s es w' hes).bind fun vs w'' hw'' hvs => .pure ?_
    rw [List.forall_mem_cons]
    exact ⟨hw''.sound hv, hvs⟩

/-- **The evaluation of a well-scoped statement keeps a world sound**, and what it declares may be
looked up afterwards. -/
theorem Stmt.eval_scoped {free : Set String} {n : ScopeId} {call : Calls}
    (h : CallsSound free n call) (s : ScopeId) :
    (st : Stmt) → (w : World) → st.Scoped (w.known free s) →
      (Promise.sound free n s).Keeps w (st.eval call s)
        fun w' o => (∀ v ∈ o, v.Sound free n w') ∧ st.declared ⊆ w'.known free s
  | .bind _ x e, w => by
    intro hst
    rcases Expr.function_or_scoped hst with ⟨t, xs, body, rfl⟩ | he
    · have hbind := Eval.bind_closure_sound (n := n) w s ⟨t, xs, body⟩ hst
      exact hbind.bind fun _ _ _ hx => .pure ⟨by simp, Set.singleton_subset_iff.2 hx⟩
    · refine (Expr.eval_scoped h s e w he).bind fun v w' _ hv => ?_
      exact (Eval.assign_sound w' s x.name hv).bind fun _ _ _ hx =>
        .pure ⟨by simp, Set.singleton_subset_iff.2 hx⟩
  | .returns _ e, w => fun hst =>
    (Expr.eval_scoped h s e w hst).bind fun v _ _ hv => .throw ⟨v, rfl, hv⟩
  | .expr _ e, w => fun hst =>
    (Expr.eval_scoped h s e w hst).bind fun v _ _ hv =>
      .pure ⟨fun u hu => Option.some.inj hu ▸ hv, Set.empty_subset _⟩
  | .block b, w => fun hst =>
    (Block.eval_scoped h s b w hst).mono fun _ _ ho => ⟨ho, Set.empty_subset _⟩
  | .error _, _ => False.elim

/-- So does the evaluation of several statements. -/
theorem Stmt.evalAll_scoped {free : Set String} {n : ScopeId} {call : Calls}
    (h : CallsSound free n call) (s : ScopeId) :
    (sts : List Stmt) → (last : Option Value) → (w : World) →
      (∀ v ∈ last, v.Sound free n w) → Stmt.ScopedAll (w.known free s) sts →
      (Promise.sound free n s).Keeps w (Stmt.evalAll call s last sts)
        fun w o => ∀ v ∈ o, v.Sound free n w
  | [], _, _, hlast => fun _ => .pure hlast
  | st :: sts, _, w, _ => by
    intro hsts
    refine (Stmt.eval_scoped h s st w hsts.1).bind fun o w' hw' ho => ?_
    exact Stmt.evalAll_scoped h s sts o w' ho.1
      (Stmt.ScopedAll.mono (Set.union_subset (hw'.known_subset free s) ho.2) sts hsts.2)

/-- **The evaluation of a well-scoped block keeps a world sound.** -/
theorem Block.eval_scoped {free : Set String} {n : ScopeId} {call : Calls}
    (h : CallsSound free n call) (s : ScopeId) :
    (b : Block) → (w : World) → b.Scoped (w.known free s) →
      (Promise.sound free n s).Keeps w (b.eval call s) fun w o => ∀ v ∈ o, v.Sound free n w
  | ⟨_, sts⟩, w => fun hb => Stmt.evalAll_scoped h s sts none w (by simp) hb

end

/-! ### Calls -/

/-- Parameters that are bound to as many sound arguments may be looked up. -/
theorem Eval.assignAll_sound (w : World) (s : ScopeId) (xs : List Ident) {vs : List Value}
    (hlength : xs.length = vs.length) (hvs : ∀ v ∈ vs, v.Sound free n w) :
    (Promise.sound free n s).Keeps w (Eval.assignAll s xs vs)
      fun w' _ => Ident.names xs ⊆ w'.known free s := by
  induction xs generalizing w vs with
  | nil =>
      cases vs with
      | nil => exact .pure fun y hy => by simp [Ident.names] at hy
      | cons v vs => cases hlength
  | cons x xs ih =>
      cases vs with
      | nil => cases hlength
      | cons v vs =>
          obtain ⟨hv, hvs⟩ := List.forall_mem_cons.1 hvs
          refine (Eval.assign_sound w s x.name hv).bind fun _ w₁ hw₁ hx => ?_
          -- that `x` may be looked up is still so when the other parameters are bound
          intro hholds r w₂ hr
          obtain ⟨hw₂, hframe, hyields⟩ :=
            ih w₁ (Nat.succ.inj hlength) (fun u hu => hw₁.sound (hvs u hu)) hholds r w₂ hr
          refine ⟨hw₂, hframe, ?_⟩
          cases r with
          | error e => exact hyields
          | ok _ =>
              rintro y ⟨z, hz, rfl⟩
              rcases List.mem_cons.1 hz with rfl | hz
              · exact hframe.known_subset free s hx
              · exact hyields ⟨z, hz, rfl⟩

section Enter

variable {c : Closure} {vs : List Value}

/-- The scope of a call can be made. -/
theorem Closure.enclose_sound (hc : c.Sound free n w) (hw : w.Sound free n) :
    (Promise.sound free n (w.enclose c.scope).1).holds (w.enclose c.scope).2 := by
  refine ⟨hw.newScope fun a ha => Option.some.inj ha ▸ hc.region, hc.region.trans hc.made.le, ?_⟩
  simp [World.enclose, World.newScope]

/-- **The body of a sound closure is well-scoped in the scope of a call**, once the parameters are
bound to as many arguments. -/
theorem Closure.body_scoped (hc : c.Sound free n w)
    (harity : c.literal.parameters.length = vs.length) (hvs : ∀ v ∈ vs, v.Sound free n w) :
    (Promise.sound free n (w.enclose c.scope).1).Keeps (w.enclose c.scope).2
      (Eval.assignAll (w.enclose c.scope).1 c.literal.parameters vs)
      fun w' _ => c.literal.body.Scoped (w'.known free (w.enclose c.scope).1) := by
  have hmade : World.Frame c.scope (fun _ => True) w (w.enclose c.scope).2 :=
    World.keeps_enclose.frame
  intro hholds r w' hr
  obtain ⟨hw', hframe, hyields⟩ := Eval.assignAll_sound (w.enclose c.scope).2 _
    c.literal.parameters harity (fun v hv => hmade.sound (hvs v hv)) hholds r w' hr
  refine ⟨hw', hframe, ?_⟩
  cases r with
  | error e => exact hyields
  | ok _ =>
      refine Block.Scoped.mono (Set.union_subset ?_ hyields) _ hc.body
      exact fun x hx => hx.imp_right fun h =>
        hframe.isSome_get? (World.isSome_get?_enclose hc.made h)

end Enter

/-- **Calls keep a world sound**, however deep they nest. -/
theorem Closure.call_scoped (free : Set String) (n : ScopeId) (depth : Nat) :
    CallsSound free n (Closure.call depth) := by
  induction depth with
  | zero =>
      intro s c vs w _ _ _ _ r w' hr
      cases hr
  | succ depth ih =>
      intro s c vs w hc harity hvs hw r w' hr
      have henter : (Promise.sound free n (w.enclose c.scope).1).Keeps (w.enclose c.scope).2
          (c.enter (Closure.call depth) vs (w.enclose c.scope).1)
          (Promise.sound free n (w.enclose c.scope).1).value := by
        refine (Closure.body_scoped hc harity hvs).bind fun _ w₁ _ hbody => ?_
        refine Promise.Keeps.catchReturn (Eval.getD_sound (Block.eval_scoped ih _ _ w₁ hbody)) ?_
          fun _ _ h => h
        rintro w₂ o ⟨v, rfl, hv⟩
        exact hv
      obtain ⟨hw', -, hyields⟩ := henter (Closure.enclose_sound hc hw.1) r w' hr
      have hframe : World.Frame s (fun _ => True) w w' :=
        World.Keeps.frame (Closure.call_keeps (depth + 1) c vs w r w' hr)
      refine ⟨⟨hw'.1, hw.2.1, hframe.lt_size hw.2.2⟩, hframe, ?_⟩
      cases r with
      | ok v => exact hyields
      | error e => exact hyields

/-! ### Programs -/

/-- In a new scope that lies in no other nothing has been bound yet. -/
theorem World.newGlobal_sound (free : Set String) (w : World) :
    (Promise.sound free w.newGlobal.1 w.newGlobal.1).holds w.newGlobal.2 := by
  have hnone {a : ScopeId} {scope : Scope} (hn : w.newGlobal.1 ≤ a)
      (ha : w.scopes[a]? = some scope) : False :=
    Nat.not_lt.2 hn (Array.getElem?_eq_some_iff.1 ha).1
  have hempty : w.Sound free w.newGlobal.1 :=
    ⟨fun hn ha _ => (hnone hn ha).elim, fun hn ha _ => (hnone hn ha).elim⟩
  refine ⟨hempty.newScope fun a ha => (Option.not_mem_none a ha).elim, le_rfl, ?_⟩
  simp [World.newGlobal, World.newScope]

/-- A program that is well-scoped is so in a new scope. -/
theorem Program.Scoped.newGlobal {free : Set String} {p : Program} (hp : p.Scoped free) (w : World) :
    p.Scoped (w.newGlobal.2.known free w.newGlobal.1) :=
  Stmt.ScopedAll.mono (fun _ hx => .inl hx) _ hp

/-- **A well-scoped program in a new scope fails with what is possible**, in whatever world the
scope is made. -/
theorem Program.run_scoped {free : Set String} {p : Program} (hp : p.Scoped free) {w w' : World}
    {depth : Nat} {e : RuntimeError}
    (h : p.run depth w.newGlobal.1 w.newGlobal.2 = some (some (.error e), w')) :
    e.Possible free := by
  obtain ⟨r, hr, ho⟩ := Program.run_eq_some_iff.1 h
  obtain ⟨-, -, hyields⟩ := Stmt.evalAll_scoped
    (Closure.call_scoped free w.newGlobal.1 depth) w.newGlobal.1 p.statements none
    w.newGlobal.2 (by simp) (hp.newGlobal w) (World.newGlobal_sound free w) r w' hr
  rcases r with (o | error) | (_ | v)
  · -- a pending return brings a value
    obtain ⟨v, rfl, -⟩ := hyields
    cases ho
  · obtain rfl := Outcome.error.inj (Option.some.inj ho)
    exact hyields
  · cases ho
  · cases ho

/-! ### What a failure says -/

/-- **Only a name that was looked up in vain is said not to be found.** -/
theorem RuntimeError.Possible.message_ne_notFound {e : RuntimeError} (h : e.Possible ∅)
    (x : String) : e.message ≠ "identifier not found: " ++ x := by
  cases e with
  | unbound | broken | custom => exact h.elim
  | divisionByZero | overflow | negationOverflow | typeMismatch | unknownBinary | unknownUnary
  | notFunction | wrongArity =>
      unfold RuntimeError.message
      simp [← String.toList_inj]

/-- **Only a broken node is told of as such.** -/
theorem RuntimeError.Possible.message_ne_broken {free : Set String} {e : RuntimeError}
    (h : e.Possible free) (x : String) : e.message ≠ "parse error at " ++ x := by
  cases e with
  | broken | custom => exact h.elim
  | unbound | divisionByZero | overflow | negationOverflow | typeMismatch | unknownBinary
  | unknownUnary | notFunction | wrongArity =>
      unfold RuntimeError.message
      simp [← String.toList_inj]

end LetFn
