/-
**The words of a tree are read as that tree.**

A parser that is given the words of a tree without broken nodes builds the tree again, up to what its
tokens say besides.  Every operation is written in parentheses, so how strictly an operator binds
never decides anything: the expression before an operator or a bracket is complete, and whatever
waits for it is the operation or the bracket that it was written in.  Only a call binds strictly
enough to be written without parentheses, after anything that may be called.

Main definitions:

* `LetFn.Parser.Goal.Offers` — an expression has been read, and may go on;
* `LetFn.Expr.Rereads`, `LetFn.Stmt.Rereads`, `LetFn.Block.Rereads` — the words of a tree are read
  as that tree.

Main results:

* `LetFn.Expr.rereads`, `LetFn.Stmt.rereads`, `LetFn.Block.rereads` — **so are those of every regular
  tree without broken nodes**;
* `LetFn.Program.ofTokens_words` — and of every such program.
-/

import LetFn.Proofs.Parser.Outline
import LetFn.Proofs.Parser.Places
import LetFn.Proofs.Render.Words

set_option relaxedAutoImplicit false
set_option autoImplicit false

namespace LetFn

open LetFn.Parser

/-! ### Reading on without errors -/

namespace Parser

theorem run_cons_of_step {s s' : State} {t : Token} (h : step s t = ([], s')) (ts : List Token) :
    run s (t :: ts) = run s' ts := by
  rw [run_cons, h]
  rfl

theorem run_append_of_run {s s' : State} {ts : List Token} (h : run s ts = ([], s'))
    (us : List Token) : run s (ts ++ us) = run s' us := by
  rw [run_append, h]
  rfl

theorem run_singleton (s : State) (t : Token) : run s [t] = step s t := by
  rw [run_cons, run_nil, List.append_nil]

/-- An expression has been read, and an operator may take it as its left operand. -/
inductive Goal.Offers : Goal → Expr → Prop
  | operator (e : Expr) : Offers (.operator e) e
  | otherwise (t : Token) (c : Expr) (yes : Block) :
      Offers (.otherwise t c yes) (.ifElse t c yes none)

/-- Unless an alternative follows, a token is judged by what waits for the expression. -/
theorem Goal.Offers.advance_eq {goal : Goal} {e : Expr} (h : goal.Offers e) {t : Token}
    (ht : t.kind ≠ .kwElse) (ps : List Pending) : advance t ps goal = close t true ps e := by
  cases h with
  | operator => rfl
  | otherwise => simp [advance, ht]

theorem Goal.Offers.step_eq {goal : Goal} {e : Expr} (h : goal.Offers e) {t : Token}
    (ht : t.kind ≠ .kwElse) (outer : List OpenBlock) (before : List Stmt) (head : Head)
    (ps : List Pending) :
    step ⟨outer, before, .inside head ps goal⟩ t =
      carry t outer before head (close t true ps e) := by
  rw [step_inside, h.advance_eq ht]

/-- Any expression may be called while no call waits for it. -/
theorem close_parenLeft {t : Token} (ht : t.kind = .parenLeft) {ps : List Pending}
    (hps : strictness ps < 6) (e : Expr) : close t true ps e = ([], .stay ps (.arguments t e)) := by
  cases ps with
  | nil => simp [close, strictness, shift, ht, TokenKind.precedence]
  | cons p ps => simp [close, hps, shift, ht, TokenKind.precedence]

/-- A binary operator takes any expression that stands at the beginning of its parentheses. -/
theorem close_group {t : Token} (ht : t.kind ∈ Grammar.binaryOperators) (ps : List Pending)
    (e : Expr) :
    close t true (.group :: ps) e = ([], .stay (.binary e t :: .group :: ps) .operand) := by
  obtain ⟨hprec, hparen⟩ := (Grammar.mem_binaryOperators_iff _).1 ht
  simp [close, strictness, Pending.strictness, shift, hprec, hparen]

end Parser

section Openings

variable (outer : List OpenBlock) (before : List Stmt) (head : Head) (ps : List Pending)

theorem step_group : step ⟨outer, before, .inside head ps .operand⟩ TokenKind.parenLeft.token =
    ([], ⟨outer, before, .inside head (.group :: ps) .operand⟩) := rfl

theorem step_if : step ⟨outer, before, .inside head ps .operand⟩ TokenKind.kwIf.token =
    ([], ⟨outer, before, .inside head ps (.conditionParen TokenKind.kwIf.token)⟩) := rfl

theorem step_condition (t : Token) :
    step ⟨outer, before, .inside head ps (.conditionParen t)⟩ TokenKind.parenLeft.token =
      ([], ⟨outer, before, .inside head (.condition t :: ps) .operand⟩) := rfl

theorem step_else (t : Token) (c : Expr) (yes : Block) :
    step ⟨outer, before, .inside head ps (.otherwise t c yes)⟩ TokenKind.kwElse.token =
      ([], ⟨outer, before, .inside head ps (.brace (.alternative t c yes))⟩) := rfl

theorem step_fn : step ⟨outer, before, .inside head ps .operand⟩ TokenKind.kwFn.token =
    ([], ⟨outer, before, .inside head ps (.parametersParen TokenKind.kwFn.token)⟩) := rfl

theorem step_parameters (t : Token) :
    step ⟨outer, before, .inside head ps (.parametersParen t)⟩ TokenKind.parenLeft.token =
      ([], ⟨outer, before, .inside head ps (.firstParameter t)⟩) := rfl

theorem step_brace (owner : Owner) :
    step ⟨outer, before, .inside head ps (.brace owner)⟩ TokenKind.braceLeft.token =
      ([], ⟨⟨owner, TokenKind.braceLeft.token, before, head, ps⟩ :: outer, [], .ready⟩) := rfl

end Openings

/-! ### Trees that are read back -/

/-- The words of an expression are read as that expression. -/
def Expr.Rereads (e : Expr) : Prop :=
  ∀ (outer : List OpenBlock) (before : List Stmt) (head : Head) (ps : List Pending),
    strictness ps < 6 → ∃ goal e',
      run ⟨outer, before, .inside head ps .operand⟩ e.words =
        ([], ⟨outer, before, .inside head ps goal⟩) ∧
      goal.Offers e' ∧ e'.relabel .bare = e.relabel .bare

/-- The words of a statement are read as that statement, except that it may go on. -/
def Stmt.Rereads (s : Stmt) : Prop :=
  ∀ (outer : List OpenBlock) (before : List Stmt), ∃ head goal e',
    run ⟨outer, before, .ready⟩ s.words = ([], ⟨outer, before, .inside head [] goal⟩) ∧
    goal.Offers e' ∧ (head.complete e').relabel .bare = s.relabel .bare

/-- The words of a block are read as that block. -/
def Block.Rereads (b : Block) : Prop :=
  ∀ (outer : List OpenBlock) (before : List Stmt) (head : Head) (ps : List Pending)
    (owner : Owner), ∃ b',
      run ⟨outer, before, .inside head ps (.brace owner)⟩ b.words =
        ([], ⟨outer, before, .inside head ps (owner.after b')⟩) ∧
      b'.relabel .bare = b.relabel .bare

/-! ### Operands without parts -/

theorem Ident.Regular.relabel_eq {x : Ident} (hx : x.Regular) :
    (Ident.ofToken ⟨.identifier, x.name, .start⟩).relabel .bare = x.relabel .bare := by
  obtain ⟨-, hkind, hname⟩ := hx
  simp [Ident.relabel, Ident.ofToken, Relabelling.bare, Token.unplaced, hkind, hname]

theorem Ident.Regular.rereads {x : Ident} (hx : x.Regular) : (Expr.ident x).Rereads := by
  intro outer before head ps _
  refine ⟨_, .ident (.ofToken ⟨.identifier, x.name, .start⟩), ?_, .operator _, ?_⟩
  · rw [Expr.words, run_singleton]
    rfl
  · rw [Expr.relabel, Expr.relabel, hx.relabel_eq]

theorem Expr.rereads_integer {t : Token} (ht : t.kind = .integer) {n : Int64} (hn : 0 ≤ n.toInt) :
    (Expr.integer t n).Rereads := by
  intro outer before head ps _
  refine ⟨_, .integer ⟨.integer, Integer.text n, .start⟩ n, ?_, .operator _, ?_⟩
  · rw [Expr.words, run_singleton]
    simp [step, advance, operand, begin, Parser.integer, Integer.ofDigits?_text n hn]
  · simp [Expr.relabel, Relabelling.bare, ht]

theorem Expr.rereads_boolean {t : Token} {b : Bool} (ht : t.Spelled (boolKind b)) :
    (Expr.boolean t b).Rereads := by
  intro outer before head ps _
  refine ⟨_, .boolean (boolKind b).token b, ?_, .operator _, ?_⟩
  · rw [Expr.words, run_singleton]
    cases b <;> rfl
  · have htoken : (boolKind b).token.unplaced = t.unplaced := ht.symm
    simp [Expr.relabel, Relabelling.bare, htoken]

/-! ### Operations -/

theorem Token.Spelled.relabel_eq {t : Token} {k : TokenKind} (h : t.Spelled k) :
    Relabelling.bare.token k.token = Relabelling.bare.token t :=
  h.symm

theorem Expr.Rereads.unary {e : Expr} (he : e.Rereads) {op : Token}
    (hop : op.kind ∈ Grammar.unaryOperators) (hspelled : op.Spelled op.kind) :
    (Expr.unary op e).Rereads := by
  intro outer before head ps _
  obtain ⟨goal, e', hrun, hoffers, hforget⟩ :=
    he outer before head (.unary op.kind.token :: .group :: ps) (show unaryPrecedence < 6 by decide)
  -- the closing parenthesis completes the operation first, and then the group
  refine ⟨.operator (.unary op.kind.token e'), _, ?_, .operator _, ?_⟩
  · have hoperator : step ⟨outer, before, .inside head (.group :: ps) .operand⟩ op.kind.token =
        ([], ⟨outer, before, .inside head (.unary op.kind.token :: .group :: ps) .operand⟩) := by
      have hkinds : op.kind = .bang ∨ op.kind = .minus := by
        simpa [Grammar.unaryOperators] using hop
      rcases hkinds with hkind | hkind <;> rw [hkind] <;> rfl
    rw [Expr.words, run_cons_of_step (step_group outer before head ps),
      run_cons_of_step hoperator, run_append_of_run hrun, run_singleton,
      hoffers.step_eq (by decide)]
    rfl
  · rw [Expr.relabel, Expr.relabel, hforget, hspelled.relabel_eq]

theorem Expr.Rereads.binary {l r : Expr} (hl : l.Rereads) (hr : r.Rereads) {op : Token}
    (hop : op.kind ∈ Grammar.binaryOperators) (hspelled : op.Spelled op.kind) :
    (Expr.binary l op r).Rereads := by
  have hstrict : op.kind.precedence < 6 ∧ op.kind ≠ .kwElse := by
    revert hop
    generalize op.kind = k
    revert k
    decide
  intro outer before head ps _
  obtain ⟨goal, l', hrun, hoffers, hforget⟩ :=
    hl outer before head (.group :: ps) (show 0 < 6 by decide)
  obtain ⟨goal', r', hrun', hoffers', hforget'⟩ :=
    hr outer before head (.binary l' op.kind.token :: .group :: ps) hstrict.1
  refine ⟨.operator (.binary l' op.kind.token r'), _, ?_, .operator _, ?_⟩
  · have hoperator : step ⟨outer, before, .inside head (.group :: ps) goal⟩ op.kind.token =
        ([], ⟨outer, before, .inside head (.binary l' op.kind.token :: .group :: ps) .operand⟩) := by
      rw [hoffers.step_eq (show op.kind.token.kind ≠ .kwElse from hstrict.2),
        close_group (show op.kind.token.kind ∈ Grammar.binaryOperators from hop)]
      rfl
    rw [Expr.words, run_cons_of_step (step_group outer before head ps), run_append_of_run hrun,
      run_cons_of_step hoperator, run_append_of_run hrun', run_singleton,
      hoffers'.step_eq (by decide)]
    simp [carry, close, Pending.operation?, Pending.accept?, TokenKind.token, TokenKind.precedence]
  · rw [Expr.relabel, Expr.relabel, hforget, hforget', hspelled.relabel_eq]

/-! ### Conditionals -/

/-- The words of a conditional up to its consequence. -/
theorem Expr.Rereads.run_condition {c : Expr} (hc : c.Rereads) (outer : List OpenBlock)
    (before : List Stmt) (head : Head) (ps : List Pending) : ∃ c',
      (∀ ts, run ⟨outer, before, .inside head ps .operand⟩
        (TokenKind.kwIf.token :: TokenKind.parenLeft.token ::
          (c.words ++ TokenKind.parenRight.token :: ts)) =
        run ⟨outer, before, .inside head ps (.brace (.consequence TokenKind.kwIf.token c'))⟩ ts) ∧
      c'.relabel .bare = c.relabel .bare := by
  obtain ⟨goal, c', hrun, hoffers, hforget⟩ :=
    hc outer before head (.condition TokenKind.kwIf.token :: ps) (show 0 < 6 by decide)
  refine ⟨c', fun ts => ?_, hforget⟩
  have hclose : step ⟨outer, before, .inside head (.condition TokenKind.kwIf.token :: ps) goal⟩
      TokenKind.parenRight.token =
      ([], ⟨outer, before, .inside head ps (.brace (.consequence TokenKind.kwIf.token c'))⟩) := by
    rw [hoffers.step_eq (by decide)]
    rfl
  rw [run_cons_of_step (step_if outer before head ps), run_cons_of_step (step_condition ..),
    run_append_of_run hrun, run_cons_of_step hclose]

theorem Expr.Rereads.ifThen {c : Expr} (hc : c.Rereads) {yes : Block} (hyes : yes.Rereads)
    {t : Token} (ht : t.Spelled .kwIf) : (Expr.ifElse t c yes none).Rereads := by
  intro outer before head ps _
  obtain ⟨c', hcondition, hforget⟩ := hc.run_condition outer before head ps
  obtain ⟨yes', hrun, hforget'⟩ :=
    hyes outer before head ps (.consequence TokenKind.kwIf.token c')
  -- an alternative might still follow, so the conditional is only on offer
  refine ⟨_, _, ?_, .otherwise TokenKind.kwIf.token c' yes', ?_⟩
  · rw [Expr.words, hcondition, hrun]
    rfl
  · rw [Expr.relabel, Expr.relabel, hforget, hforget', ht.relabel_eq]

theorem Expr.Rereads.ifElse {c : Expr} (hc : c.Rereads) {yes no : Block} (hyes : yes.Rereads)
    (hno : no.Rereads) {t : Token} (ht : t.Spelled .kwIf) :
    (Expr.ifElse t c yes (some no)).Rereads := by
  intro outer before head ps _
  obtain ⟨c', hcondition, hforget⟩ := hc.run_condition outer before head ps
  obtain ⟨yes', hrun, hforget'⟩ :=
    hyes outer before head ps (.consequence TokenKind.kwIf.token c')
  obtain ⟨no', hrun', hforget''⟩ :=
    hno outer before head ps (.alternative TokenKind.kwIf.token c' yes')
  refine ⟨_, _, ?_, .operator (.ifElse TokenKind.kwIf.token c' yes' (some no')), ?_⟩
  · rw [Expr.words, hcondition, run_append_of_run hrun, Owner.after,
      run_cons_of_step (step_else outer before head ps _ _ _), hrun']
    rfl
  · rw [Expr.relabel, Expr.relabel, hforget, hforget', hforget'', ht.relabel_eq]

/-! ### Statements and blocks -/

/-- A token that can neither go on with a statement nor continue a conditional ends the
statement. -/
theorem Parser.Goal.Offers.step_end {goal : Goal} {e : Expr} (h : goal.Offers e) {t : Token}
    (hprec : t.kind.precedence = 0) (helse : t.kind ≠ .kwElse) (outer : List OpenBlock)
    (before : List Stmt) (head : Head) :
    step ⟨outer, before, .inside head [] goal⟩ t =
      start t outer (head.complete e :: before) := by
  rw [h.step_eq helse]
  simp [close, hprec, carry]

/-- The words of several statements, and the token that ends the list of them. -/
theorem Stmt.run_words_intercalate {ss : List Stmt} (h : ∀ s ∈ ss, s.Rereads)
    (outer : List OpenBlock) (before : List Stmt) {t : Token}
    (ht : t.kind = .braceRight ∨ t.kind = .eof) : ∃ ss' : List Stmt,
      run ⟨outer, before, .ready⟩
        ([TokenKind.semicolon.token].intercalate (ss.map Stmt.words) ++ [t]) =
        start t outer (ss'.reverse ++ before) ∧
      ss'.map (Stmt.relabel .bare) = ss.map (Stmt.relabel .bare) := by
  have hprec : t.kind.precedence = 0 ∧ t.kind ≠ .kwElse := by
    rcases ht with hkind | hkind <;> rw [hkind] <;> decide
  induction ss generalizing before with
  | nil =>
      refine ⟨[], ?_, rfl⟩
      rw [List.map_nil, List.intercalate_nil, List.nil_append, run_singleton]
      rfl
  | cons s ss ih =>
      obtain ⟨hs, hss⟩ := List.forall_mem_cons.1 h
      obtain ⟨head, goal, e', hrun, hoffers, hforget⟩ := hs outer before
      cases ss with
      | nil =>
          -- nothing but the end of the list ends the last statement
          refine ⟨[head.complete e'], ?_, by rw [List.map_singleton, hforget]; rfl⟩
          rw [List.map_singleton, List.intercalate_singleton, run_append_of_run hrun,
            run_singleton, hoffers.step_end hprec.1 hprec.2]
          rfl
      | cons r ss =>
          obtain ⟨ss', hrest, hforget'⟩ := ih hss (head.complete e' :: before)
          refine ⟨head.complete e' :: ss', ?_, by rw [List.map_cons, hforget, hforget']; rfl⟩
          have hsemicolon : step ⟨outer, before, .inside head [] goal⟩ TokenKind.semicolon.token =
              ([], ⟨outer, head.complete e' :: before, .ready⟩) := by
            rw [hoffers.step_end (by decide) (by decide)]
            rfl
          rw [List.map_cons] at hrest
          rw [List.map_cons, List.map_cons, List.intercalate_cons_cons, List.append_assoc,
            List.append_assoc, run_append_of_run hrun, List.singleton_append,
            run_cons_of_step hsemicolon, hrest, List.reverse_cons, List.append_assoc,
            List.singleton_append]

theorem Block.Rereads.mk {ss : List Stmt} (h : ∀ s ∈ ss, s.Rereads) {t : Token}
    (ht : t.Spelled .braceLeft) : (Block.mk t ss).Rereads := by
  intro outer before head ps owner
  obtain ⟨ss', hrun, hforget⟩ := Stmt.run_words_intercalate h
    (⟨owner, TokenKind.braceLeft.token, before, head, ps⟩ :: outer) []
    (t := TokenKind.braceRight.token) (.inl rfl)
  refine ⟨⟨TokenKind.braceLeft.token, ss'⟩, ?_, ?_⟩
  · rw [Block.words, Stmt.wordsAll_eq_map, run_cons_of_step (step_brace outer before head ps owner),
      hrun]
    simp [start, TokenKind.token, OpenBlock.resume]
  · rw [Block.relabel, Block.relabel, Stmt.relabelAll_eq_map, Stmt.relabelAll_eq_map, hforget,
      ht.relabel_eq]

/-! ### Functions -/

/-- The words of several parameters, and the parenthesis after them. -/
theorem Ident.run_words_intercalate {x : Ident} (hx : x.Regular) {xs : List Ident}
    (hxs : ∀ y ∈ xs, y.Regular) (outer : List OpenBlock) (before : List Stmt) (head : Head)
    (ps : List Pending) (tok : Token) (done : List Ident) : ∃ xs' : List Ident,
      (∀ ts, run ⟨outer, before, .inside head ps (.parameter tok done)⟩
        ([TokenKind.comma.token].intercalate
            ((x :: xs).map fun y => [⟨.identifier, y.name, .start⟩]) ++
          TokenKind.parenRight.token :: ts) =
        run ⟨outer, before, .inside head ps (.brace (.body tok (done ++ xs')))⟩ ts) ∧
      xs'.map (Ident.relabel .bare) = (x :: xs).map (Ident.relabel .bare) := by
  have hname : step ⟨outer, before, .inside head ps (.parameter tok done)⟩
      ⟨.identifier, x.name, .start⟩ = ([], ⟨outer, before, .inside head ps
        (.parametersEnd tok (done ++ [.ofToken ⟨.identifier, x.name, .start⟩]))⟩) := rfl
  induction xs generalizing x done with
  | nil =>
      refine ⟨[.ofToken ⟨.identifier, x.name, .start⟩], fun ts => ?_, ?_⟩
      · rw [List.map_singleton, List.intercalate_singleton, List.singleton_append,
          run_cons_of_step hname, run_cons_of_step rfl]
      · rw [List.map_singleton, List.map_singleton, hx.relabel_eq]
  | cons y xs ih =>
      obtain ⟨hy, hxs⟩ := List.forall_mem_cons.1 hxs
      obtain ⟨xs', hrest, hforget⟩ :=
        ih hy hxs (done ++ [.ofToken ⟨.identifier, x.name, .start⟩]) rfl
      refine ⟨.ofToken ⟨.identifier, x.name, .start⟩ :: xs', fun ts => ?_, ?_⟩
      · have hcomma : step ⟨outer, before, .inside head ps
            (.parametersEnd tok (done ++ [.ofToken ⟨.identifier, x.name, .start⟩]))⟩
            TokenKind.comma.token = ([], ⟨outer, before, .inside head ps
              (.parameter tok (done ++ [.ofToken ⟨.identifier, x.name, .start⟩]))⟩) := rfl
        have htail := hrest ts
        rw [List.map_cons] at htail
        rw [List.map_cons, List.map_cons, List.intercalate_cons_cons, List.append_assoc,
          List.append_assoc, List.singleton_append, List.singleton_append,
          run_cons_of_step hname, run_cons_of_step hcomma, htail, List.append_assoc,
          List.singleton_append]
      · rw [List.map_cons, List.map_cons, hforget, hx.relabel_eq]

/-- Lists with others between them begin with the first of them. -/
theorem exists_intercalate_cons {α : Type} (separator xs : List α) (lists : List (List α)) :
    ∃ rest, separator.intercalate (xs :: lists) = xs ++ rest := by
  cases lists with
  | nil => exact ⟨[], by rw [List.intercalate_singleton, List.append_nil]⟩
  | cons ys lists => exact ⟨_, by rw [List.intercalate_cons_cons, List.append_assoc]⟩

theorem Expr.rereads_function {t : Token} (ht : t.Spelled .kwFn) {xs : List Ident}
    (hxs : ∀ x ∈ xs, x.Regular) {body : Block} (hbody : body.Rereads) :
    (Expr.function t xs body).Rereads := by
  intro outer before head ps _
  cases xs with
  | nil =>
      obtain ⟨body', hrun, hforget⟩ := hbody outer before head ps (.body TokenKind.kwFn.token [])
      refine ⟨_, _, ?_, .operator (.function TokenKind.kwFn.token [] body'), ?_⟩
      · have hclose : step ⟨outer, before, .inside head ps (.firstParameter TokenKind.kwFn.token)⟩
            TokenKind.parenRight.token =
            ([], ⟨outer, before, .inside head ps (.brace (.body TokenKind.kwFn.token []))⟩) := rfl
        rw [Expr.words, run_cons_of_step (step_fn outer before head ps),
          run_cons_of_step (step_parameters ..), List.map_nil, List.intercalate_nil,
          List.nil_append, run_cons_of_step hclose, hrun]
        rfl
      · rw [Expr.relabel, Expr.relabel, hforget, ht.relabel_eq]
  | cons x xs =>
      obtain ⟨hx, hxs⟩ := List.forall_mem_cons.1 hxs
      obtain ⟨xs', hparameters, hforget⟩ :=
        Ident.run_words_intercalate hx hxs outer before head ps TokenKind.kwFn.token []
      obtain ⟨body', hrun, hforget'⟩ := hbody outer before head ps (.body TokenKind.kwFn.token xs')
      refine ⟨_, _, ?_, .operator (.function TokenKind.kwFn.token xs' body'), ?_⟩
      · -- the first parameter is read like any other
        have hfirst (ts : List Token) :
            run ⟨outer, before, .inside head ps (.firstParameter TokenKind.kwFn.token)⟩
              (⟨.identifier, x.name, .start⟩ :: ts) =
            run ⟨outer, before, .inside head ps (.parameter TokenKind.kwFn.token [])⟩
              (⟨.identifier, x.name, .start⟩ :: ts) := rfl
        obtain ⟨ts, hts⟩ := exists_intercalate_cons [TokenKind.comma.token]
          [⟨.identifier, x.name, .start⟩] (xs.map fun y => [⟨.identifier, y.name, .start⟩])
        have hparameters := hparameters body.words
        rw [List.map_cons, hts, List.singleton_append, List.cons_append] at hparameters
        rw [Expr.words, run_cons_of_step (step_fn outer before head ps),
          run_cons_of_step (step_parameters ..), List.map_cons, hts, List.singleton_append,
          List.cons_append, hfirst, hparameters, List.nil_append, hrun]
        rfl
      · rw [Expr.relabel, Expr.relabel, hforget, hforget', ht.relabel_eq]

/-! ### Calls -/

/-- The words of a whole expression begin with a token that begins an operand. -/
theorem Expr.exists_words : (e : Expr) → e.Regular → e.Every Node.Whole →
    ∃ t ts, e.words = t :: ts ∧ (Outline.opening t.kind).isSome
  | .ident _, _, _ => ⟨_, _, rfl, rfl⟩
  | .integer _ _, _, _ => ⟨_, _, rfl, rfl⟩
  | .boolean _ b, _, _ => ⟨_, _, rfl, by cases b <;> rfl⟩
  | .unary _ _, _, _ => ⟨_, _, rfl, rfl⟩
  | .binary _ _ _, _, _ => ⟨_, _, rfl, rfl⟩
  | .ifElse _ _ _ none, _, _ => ⟨_, _, rfl, rfl⟩
  | .ifElse _ _ _ (some _), _, _ => ⟨_, _, rfl, rfl⟩
  | .function _ _ _, _, _ => ⟨_, _, rfl, rfl⟩
  | .call _ f _, h, hwhole => by
    obtain ⟨t, ts, hwords, hopening⟩ :=
      Expr.exists_words f (every_call.1 h).2.1 (every_call.1 hwhole).2.1
    exact ⟨t, _, by rw [Expr.words, hwords]; rfl, hopening⟩
  | .error _ _ _, _, hwhole => absurd trivial (every_error.1 hwhole)

/-- The words of several arguments, and the parenthesis after them. -/
theorem Expr.run_words_intercalate {e : Expr} (he : e.Rereads) {es : List Expr}
    (hes : ∀ x ∈ es, x.Rereads) (outer : List OpenBlock) (before : List Stmt) (head : Head)
    (ps : List Pending) (tok : Token) (f : Expr) (done : List Expr) : ∃ es' : List Expr,
      run ⟨outer, before, .inside head (.argument tok f done :: ps) .operand⟩
        ([TokenKind.comma.token].intercalate ((e :: es).map Expr.words) ++
          [TokenKind.parenRight.token]) =
        ([], ⟨outer, before, .inside head ps (.operator (.call tok f (done ++ es')))⟩) ∧
      es'.map (Expr.relabel .bare) = (e :: es).map (Expr.relabel .bare) := by
  obtain ⟨goal, e', hrun, hoffers, hforget⟩ :=
    he outer before head (.argument tok f done :: ps) (show 0 < 6 by decide)
  induction es generalizing e done goal e' with
  | nil =>
      refine ⟨[e'], ?_, by rw [List.map_singleton, List.map_singleton, hforget]⟩
      rw [List.map_singleton, List.intercalate_singleton, run_append_of_run hrun, run_singleton,
        hoffers.step_eq (by decide)]
      rfl
  | cons x es ih =>
      obtain ⟨hx, hes⟩ := List.forall_mem_cons.1 hes
      obtain ⟨goal', x', hrun', hoffers', hforget'⟩ :=
        hx outer before head (.argument tok f (done ++ [e']) :: ps) (show 0 < 6 by decide)
      obtain ⟨es', hrest, hforgets⟩ := ih hx hes (done ++ [e']) goal' x' hrun' hoffers' hforget'
      refine ⟨e' :: es', ?_, by rw [List.map_cons, hforget, hforgets]; rfl⟩
      have hcomma : step ⟨outer, before, .inside head (.argument tok f done :: ps) goal⟩
          TokenKind.comma.token =
          ([], ⟨outer, before, .inside head (.argument tok f (done ++ [e']) :: ps) .operand⟩) := by
        rw [hoffers.step_eq (by decide)]
        rfl
      rw [List.map_cons] at hrest
      rw [List.map_cons, List.map_cons, List.intercalate_cons_cons, List.append_assoc,
        List.append_assoc, run_append_of_run hrun, List.singleton_append,
        run_cons_of_step hcomma, hrest, List.append_assoc, List.singleton_append]

/-- Where arguments may begin, a token that begins an operand begins the first argument. -/
theorem Parser.run_arguments {t : Token} (ht : (Outline.opening t.kind).isSome)
    (outer : List OpenBlock) (before : List Stmt) (head : Head) (ps : List Pending) (tok : Token)
    (f : Expr) (ts : List Token) :
    run ⟨outer, before, .inside head ps (.arguments tok f)⟩ (t :: ts) =
      run ⟨outer, before, .inside head (.argument tok f [] :: ps) .operand⟩ (t :: ts) := by
  have hparen : t.kind ≠ .parenRight := by
    intro hk
    rw [hk] at ht
    cases ht
  rw [run_cons, run_cons, step_inside, step_inside]
  simp only [advance, hparen, if_false]

theorem Expr.Rereads.call {f : Expr} (hf : f.Rereads) {es : List Expr}
    (hes : ∀ e ∈ es, e.Rereads)
    (hwords : ∀ e ∈ es, ∃ t ts, e.words = t :: ts ∧ (Outline.opening t.kind).isSome) {t : Token}
    (ht : t.Spelled .parenLeft) : (Expr.call t f es).Rereads := by
  intro outer before head ps hps
  obtain ⟨goal, f', hrun, hoffers, hforget⟩ := hf outer before head ps hps
  have hopen : step ⟨outer, before, .inside head ps goal⟩ TokenKind.parenLeft.token =
      ([], ⟨outer, before, .inside head ps (.arguments TokenKind.parenLeft.token f')⟩) := by
    rw [hoffers.step_eq (by decide), close_parenLeft rfl hps]
    rfl
  cases es with
  | nil =>
      refine ⟨_, _, ?_, .operator (.call TokenKind.parenLeft.token f' []), ?_⟩
      · rw [Expr.words, run_append_of_run hrun, run_cons_of_step hopen, Expr.wordsAll,
          List.intercalate_nil, List.nil_append, run_singleton]
        rfl
      · rw [Expr.relabel, Expr.relabel, hforget, ht.relabel_eq]
  | cons e es =>
      obtain ⟨he, hes⟩ := List.forall_mem_cons.1 hes
      obtain ⟨⟨u, us, hu, hopening⟩, -⟩ := List.forall_mem_cons.1 hwords
      obtain ⟨es', hrest, hforgets⟩ := Expr.run_words_intercalate he hes outer before head ps
        TokenKind.parenLeft.token f' []
      refine ⟨_, _, ?_, .operator (.call TokenKind.parenLeft.token f' es'), ?_⟩
      · obtain ⟨ts, hts⟩ :=
          exists_intercalate_cons [TokenKind.comma.token] e.words (es.map Expr.words)
        rw [List.map_cons, hts, hu, List.cons_append, List.cons_append] at hrest
        rw [Expr.words, run_append_of_run hrun, run_cons_of_step hopen, Expr.wordsAll_eq_map,
          List.map_cons, hts, hu, List.cons_append, List.cons_append, run_arguments hopening, hrest]
        rfl
      · rw [Expr.relabel, Expr.relabel, hforget, ht.relabel_eq, Expr.relabelAll_eq_map,
          Expr.relabelAll_eq_map, hforgets]

/-! ### Every whole tree -/

theorem Stmt.Rereads.bind {x : Ident} (hx : x.Regular) {e : Expr} (he : e.Rereads) {t : Token}
    (ht : t.Spelled .kwLet) : (Stmt.bind t x e).Rereads := by
  intro outer before
  obtain ⟨goal, e', hrun, hoffers, hforget⟩ := he outer before
    (.bind TokenKind.kwLet.token (.ofToken ⟨.identifier, x.name, .start⟩)) []
    (show 0 < 6 by decide)
  refine ⟨.bind TokenKind.kwLet.token (.ofToken ⟨.identifier, x.name, .start⟩), goal, e', ?_,
    hoffers, ?_⟩
  · have hlet : step ⟨outer, before, .ready⟩ TokenKind.kwLet.token =
        ([], ⟨outer, before, .bindName TokenKind.kwLet.token⟩) := rfl
    have hname : step ⟨outer, before, .bindName TokenKind.kwLet.token⟩
        ⟨.identifier, x.name, .start⟩ = ([], ⟨outer, before, .bindAssign TokenKind.kwLet.token
          (.ofToken ⟨.identifier, x.name, .start⟩)⟩) := rfl
    rw [Stmt.words, run_cons_of_step hlet, run_cons_of_step hname, run_cons_of_step rfl, hrun]
  · rw [Head.complete, Stmt.relabel, Stmt.relabel, hforget, ht.relabel_eq, hx.relabel_eq]

theorem Stmt.Rereads.returns {e : Expr} (he : e.Rereads) {t : Token}
    (ht : t.Spelled .kwReturn) : (Stmt.returns t e).Rereads := by
  intro outer before
  obtain ⟨goal, e', hrun, hoffers, hforget⟩ := he outer before
    (.returns TokenKind.kwReturn.token) [] (show 0 < 6 by decide)
  refine ⟨.returns TokenKind.kwReturn.token, goal, e', ?_, hoffers, ?_⟩
  · have hreturn : step ⟨outer, before, .ready⟩ TokenKind.kwReturn.token =
        ([], ⟨outer, before, .inside (.returns TokenKind.kwReturn.token) [] .operand⟩) := rfl
    rw [Stmt.words, run_cons_of_step hreturn, hrun]
  · rw [Head.complete, Stmt.relabel, Stmt.relabel, hforget, ht.relabel_eq]

/-- Where a statement may begin, a token that begins an operand begins one that is an expression. -/
theorem Parser.run_expression {t : Token} (ht : (Outline.opening t.kind).isSome)
    (outer : List OpenBlock) (before : List Stmt) (ts : List Token) :
    run ⟨outer, before, .ready⟩ (t :: ts) =
      run ⟨outer, before, .inside (.expr t) [] .operand⟩ (t :: ts) := by
  have hstep : step ⟨outer, before, .ready⟩ t =
      step ⟨outer, before, .inside (.expr t) [] .operand⟩ t := by
    revert ht
    cases hk : t.kind <;> simp [Outline.opening, step, start, startExpr, advance, operand, hk]
  rw [run_cons, run_cons, hstep]

theorem Stmt.Rereads.expr {e : Expr} (he : e.Rereads)
    (hwords : ∃ t ts, e.words = t :: ts ∧ (Outline.opening t.kind).isSome) (t : Token) :
    (Stmt.expr t e).Rereads := by
  intro outer before
  obtain ⟨u, us, hu, hopening⟩ := hwords
  obtain ⟨goal, e', hrun, hoffers, hforget⟩ :=
    he outer before (.expr u) [] (show 0 < 6 by decide)
  refine ⟨.expr u, goal, e', ?_, hoffers, ?_⟩
  · rw [Stmt.words, hu, run_expression hopening, ← hu, hrun]
  · rw [Head.complete, Stmt.relabel, Stmt.relabel, hforget]
    rfl

mutual

/-- **The words of a regular expression without broken nodes are read as that expression.** -/
theorem Expr.rereads : (e : Expr) → e.Regular → e.Every Node.Whole → e.Rereads
  | .ident _, h, _ => (Expr.every_ident.1 h).rereads
  | .integer _ _, h, _ => Expr.rereads_integer (Expr.every_integer.1 h).1 (Expr.every_integer.1 h).2
  | .boolean _ _, h, _ => Expr.rereads_boolean (Expr.every_boolean.1 h)
  | .unary op e, h, hwhole => by
    obtain ⟨⟨hop, hspelled⟩, he⟩ := Expr.every_unary.1 h
    exact (Expr.rereads e he (Expr.every_unary.1 hwhole).2).unary hop hspelled
  | .binary l op r, h, hwhole => by
    obtain ⟨⟨hop, hspelled⟩, hl, hr⟩ := Expr.every_binary.1 h
    obtain ⟨-, hwholel, hwholer⟩ := Expr.every_binary.1 hwhole
    exact (Expr.rereads l hl hwholel).binary (Expr.rereads r hr hwholer) hop hspelled
  | .ifElse _ c yes none, h, hwhole => by
    obtain ⟨ht, hc, hyes⟩ := Expr.every_ifThen.1 h
    obtain ⟨-, hwholec, hwhole⟩ := Expr.every_ifThen.1 hwhole
    exact (Expr.rereads c hc hwholec).ifThen (Block.rereads yes hyes hwhole) ht
  | .ifElse _ c yes (some no), h, hwhole => by
    obtain ⟨ht, hc, hyes, hno⟩ := Expr.every_ifElse.1 h
    obtain ⟨-, hwholec, hwhole, hwhole'⟩ := Expr.every_ifElse.1 hwhole
    exact (Expr.rereads c hc hwholec).ifElse (Block.rereads yes hyes hwhole)
      (Block.rereads no hno hwhole') ht
  | .function _ _ body, h, hwhole => by
    obtain ⟨⟨ht, hxs⟩, hbody⟩ := Expr.every_function.1 h
    exact Expr.rereads_function ht hxs (Block.rereads body hbody (Expr.every_function.1 hwhole).2)
  | .call _ f es, h, hwhole => by
    obtain ⟨ht, hf, hes⟩ := Expr.every_call.1 h
    obtain ⟨-, hwholef, hwholes⟩ := Expr.every_call.1 hwhole
    exact (Expr.rereads f hf hwholef).call (Expr.rereadsAll es hes hwholes)
      (fun e he => e.exists_words (hes e he) (hwholes e he)) ht
  | .error _ _ _, _, hwhole => absurd trivial (Expr.every_error.1 hwhole)

theorem Expr.rereadsAll : (es : List Expr) → (∀ e ∈ es, e.Regular) →
    (∀ e ∈ es, e.Every Node.Whole) → ∀ e ∈ es, e.Rereads
  | [], _, _ => by simp
  | e :: es, h, hwhole => by
    obtain ⟨he, hes⟩ := List.forall_mem_cons.1 h
    obtain ⟨hwholee, hwholes⟩ := List.forall_mem_cons.1 hwhole
    rw [List.forall_mem_cons]
    exact ⟨Expr.rereads e he hwholee, Expr.rereadsAll es hes hwholes⟩

/-- **The words of a regular statement without broken nodes are read as that statement.** -/
theorem Stmt.rereads : (s : Stmt) → s.Regular → s.Every Node.Whole → s.Rereads
  | .bind _ _ e, h, hwhole => by
    obtain ⟨⟨ht, hx⟩, he⟩ := Stmt.every_bind.1 h
    exact .bind hx (Expr.rereads e he (Stmt.every_bind.1 hwhole).2) ht
  | .returns _ e, h, hwhole => by
    obtain ⟨ht, he⟩ := Stmt.every_returns.1 h
    exact .returns (Expr.rereads e he (Stmt.every_returns.1 hwhole).2) ht
  | .expr t e, h, hwhole => by
    obtain ⟨-, he⟩ := Stmt.every_expr.1 h
    obtain ⟨-, hwholee⟩ := Stmt.every_expr.1 hwhole
    exact .expr (Expr.rereads e he hwholee) (e.exists_words he hwholee) t
  | .block _, h, _ => absurd (Stmt.every_block.1 h).1 id
  | .error _, _, hwhole => absurd trivial (Stmt.every_error.1 hwhole)

theorem Stmt.rereadsAll : (ss : List Stmt) → (∀ s ∈ ss, s.Regular) →
    (∀ s ∈ ss, s.Every Node.Whole) → ∀ s ∈ ss, s.Rereads
  | [], _, _ => by simp
  | s :: ss, h, hwhole => by
    obtain ⟨hs, hss⟩ := List.forall_mem_cons.1 h
    obtain ⟨hwhole', hwholes⟩ := List.forall_mem_cons.1 hwhole
    rw [List.forall_mem_cons]
    exact ⟨Stmt.rereads s hs hwhole', Stmt.rereadsAll ss hss hwholes⟩

/-- **The words of a regular block without broken nodes are read as that block.** -/
theorem Block.rereads : (b : Block) → b.Regular → b.Every Node.Whole → b.Rereads
  | ⟨_, ss⟩, h, hwhole => by
    obtain ⟨ht, hss⟩ := Block.every_mk.1 h
    exact .mk (Stmt.rereadsAll ss hss (Block.every_mk.1 hwhole).2) ht

end

/-- **The words of a regular program without broken nodes are read as that program.** -/
theorem Program.ofTokens_words {p : Program} (hp : ∀ s ∈ p.statements, s.Regular)
    (hwhole : ∀ s ∈ p.statements, s.Every Node.Whole) {eof : Token} (heof : eof.kind = .eof) :
    (Parsed.ofTokens ⟨p.words, eof⟩).errors = [] ∧
      (Parsed.ofTokens ⟨p.words, eof⟩).program.forget = p.forget := by
  obtain ⟨ss, hrun, hforget⟩ := Stmt.run_words_intercalate
    (Stmt.rereadsAll p.statements hp hwhole) [] [] (.inr heof)
  have hbody : run .initial (p.words ++ [eof]) = ([], ⟨[], ss.reverse, .ready⟩) := by
    rw [Program.words, Stmt.wordsAll_eq_map, State.initial, hrun]
    simp [start, heof]
  have hparsed : Parsed.ofTokens ⟨p.words, eof⟩ = ⟨⟨ss⟩, []⟩ := by
    simp [Parsed.ofTokens, hbody, finish]
  rw [hparsed]
  exact ⟨rfl, by rw [Program.forget, Program.forget, Program.relabel, Program.relabel, hforget]⟩

end LetFn
