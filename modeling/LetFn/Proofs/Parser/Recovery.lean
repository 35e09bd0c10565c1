/-
**Recovery from an error ends at a semicolon.**

A text that is broken off anywhere is read like the same text before a semicolon.  Whatever was
under way is ended, construct by construct, by the semicolon as it would be by the end of the text:
the same errors are recorded, only that they name the semicolon.  There is one exception.  Where an
operand is wanted the semicolon is passed over, and it is the token behind it that ends what was
under way.  That token must not be one that could go on with an expression; and it is not used up,
so that what follows the semicolon is read as a text of its own.

Main definitions:

* `LetFn.SyntaxError.blame` — the same error, about another token;
* `LetFn.SyntaxError.Reblamed`, `LetFn.Expr.Reblamed`, `LetFn.Stmt.Reblamed` — the same, but where
  the end token was at fault another token may be;
* `LetFn.TokenKind.Continues` — the tokens that could go on with an expression;
* `LetFn.Parser.EndsAlike`, `LetFn.Parser.ReadsOn` — what is under way ends alike, and what follows
  the semicolon is read as a text of its own.

Main results:

* `LetFn.Parser.close_reblamed` — what was under way is ended alike by the end token and by others;
* `LetFn.Parser.readsOn` — **reading on after a semicolon**;
* `LetFn.Parsed.recovery_local` — **errors before a semicolon do not reach beyond it**.
-/

import Mathlib.Data.List.Forall2
import LetFn.Proofs.Parser.Grammar
import LetFn.Proofs.Parser.Places
import LetFn.Proofs.Parser.Sequence

set_option relaxedAutoImplicit false
set_option autoImplicit false

namespace LetFn

/-! ### Other tokens at fault -/

/-- The same error, about another token. -/
def SyntaxError.blame (t : Token) : SyntaxError → SyntaxError
  | .unexpected k _ => .unexpected k t
  | .noOperand _ => .noOperand t
  | .tooLarge _ => .tooLarge t

section Reblamed

variable (eof : Token) (found : List Token)

/-- The same error, but one about the end token may be about a token found in its place. -/
def SyntaxError.Reblamed (error error' : SyntaxError) : Prop :=
  error' = error ∨ error.token = eof ∧ ∃ t ∈ found, error' = error.blame t

/-- The same expression, but an error node for the end token may be one for a token found in its
place.  The end token is reached last, so such a node can only be the last part of the expression. -/
inductive Expr.Reblamed : Expr → Expr → Prop
  | same (e : Expr) : Reblamed e e
  | error {error error' : SyntaxError} :
      error.Reblamed eof found error' → Reblamed error.node error'.node
  | unary (op : Token) {e e' : Expr} : Reblamed e e' → Reblamed (.unary op e) (.unary op e')
  | binary (l : Expr) (op : Token) {e e' : Expr} :
      Reblamed e e' → Reblamed (.binary l op e) (.binary l op e')

/-- The same statement, but an error node for the end token may be one for a token found in its
place. -/
inductive Stmt.Reblamed : Stmt → Stmt → Prop
  | same (s : Stmt) : Reblamed s s
  | error {t : Token} : t ∈ found → Reblamed (.error eof) (.error t)
  | bind (t : Token) (x : Ident) {e e' : Expr} :
      e.Reblamed eof found e' → Reblamed (.bind t x e) (.bind t x e')
  | returns (t : Token) {e e' : Expr} :
      e.Reblamed eof found e' → Reblamed (.returns t e) (.returns t e')
  | expr (t : Token) {e e' : Expr} :
      e.Reblamed eof found e' → Reblamed (.expr t e) (.expr t e')

end Reblamed

/-- The token could go on with an expression, or with the construct that the expression is in. -/
def TokenKind.Continues (k : TokenKind) : Prop :=
  k ∈ Grammar.binaryOperators ∨ k = .parenLeft ∨ k = .parenRight ∨ k = .comma

instance : DecidablePred TokenKind.Continues := fun k => by
  unfold TokenKind.Continues
  infer_instance

namespace Parser

variable {eof t : Token} {found : List Token}

theorem precedence_of_not_continues {k : TokenKind} (h : ¬ k.Continues) : k.precedence = 0 := by
  by_contra hk
  by_cases hparen : k = .parenLeft
  · exact h (.inr (.inl hparen))
  · exact h (.inl ((Grammar.mem_binaryOperators_iff k).2 ⟨Nat.pos_of_ne_zero hk, hparen⟩))

/-! ### The end of what is under way -/

/-- Both end the expression, with the same errors and as the same expression, up to the tokens at
fault. -/
def EndsAlike (eof : Token) (found : List Token) (r r' : List SyntaxError × Move) : Prop :=
  ∃ e e', r.2 = .finished e ∧ r'.2 = .finished e' ∧
    List.Forall₂ (SyntaxError.Reblamed eof found) r.1 r'.1 ∧ e.Reblamed eof found e'

theorem EndsAlike.cons {r r' : List SyntaxError × Move} (h : EndsAlike eof found r r')
    {error error' : SyntaxError} (herror : error.Reblamed eof found error') :
    EndsAlike eof found (error :: r.1, r.2) (error' :: r'.1, r'.2) := by
  obtain ⟨e, e', hr, hr', herrors, he⟩ := h
  exact ⟨e, e', hr, hr', .cons herror herrors, he⟩

/-- A token that cannot go on with an expression completes an operation. -/
theorem close_operation (ht : ¬ t.kind.Continues) (free : Bool) (p : Pending) (ps : List Pending)
    {e e' : Expr} (hp : p.operation? e = some e') :
    close t free (p :: ps) e = close t true ps e' := by
  simp [close, precedence_of_not_continues ht, hp]

/-- It breaks off a bracketed construct. -/
theorem close_broken (ht : ¬ t.kind.Continues) (free : Bool) {p : Pending} (ps : List Pending)
    {e : Expr} (hp : p.operation? e = none) :
    close t free (p :: ps) e = giveUp (.unexpected .parenRight t) t ps := by
  have haccept : p.accept? t ps e = none := by
    unfold TokenKind.Continues at ht
    cases p <;> simp_all [Pending.accept?]
  simp only [close, precedence_of_not_continues ht, Nat.not_lt_zero, and_false, if_false, hp,
    haccept]
  rfl

section

variable (heof : ¬ eof.kind.Continues) (ht : ¬ t.kind.Continues) (hfound : t ∈ found)

include heof ht hfound

/-- **What waits for an expression is ended alike by the end token and by any other token that cannot
go on with it.** -/
theorem close_reblamed (free free' : Bool) (ps : List Pending) {e e' : Expr}
    (he : e.Reblamed eof found e') :
    EndsAlike eof found (close eof free ps e) (close t free' ps e') := by
  induction ps generalizing free free' e e' with
  | nil =>
      exact ⟨e, e', by simp [close, precedence_of_not_continues heof],
        by simp [close, precedence_of_not_continues ht],
        by simp [close, precedence_of_not_continues heof, precedence_of_not_continues ht], he⟩
  | cons p ps ih =>
      cases p with
      | unary op =>
          rw [close_operation heof free (.unary op) ps rfl, close_operation ht free' (.unary op) ps rfl]
          exact ih true true (.unary op he)
      | binary l op =>
          rw [close_operation heof free (.binary l op) ps rfl,
            close_operation ht free' (.binary l op) ps rfl]
          exact ih true true (.binary l op he)
      | group | condition | argument =>
          -- the expression is lost together with the bracket, and the error stands for both
          have herror : (SyntaxError.unexpected .parenRight eof).Reblamed eof found
              (.unexpected .parenRight t) := .inr ⟨rfl, t, hfound, rfl⟩
          rw [close_broken heof free ps rfl, close_broken ht free' ps rfl]
          exact (ih true true (.error herror)).cons herror

/-- A construct is given up alike. -/
theorem giveUp_reblamed {error : SyntaxError} (herror : error.token = eof) (ps : List Pending) :
    EndsAlike eof found (giveUp error eof ps) (giveUp (error.blame t) t ps) := by
  have hblame : error.Reblamed eof found (error.blame t) := .inr ⟨herror, t, hfound, rfl⟩
  exact (close_reblamed heof ht hfound true true ps (.error hblame)).cons hblame

theorem expect_reblamed {k : TokenKind} (hk : eof.kind ≠ k) (hk' : t.kind ≠ k) (ps : List Pending)
    (move move' : Move) :
    EndsAlike eof found (expect k eof ps move) (expect k t ps move') := by
  rw [expect, if_neg hk, expect, if_neg hk']
  exact giveUp_reblamed heof ht hfound rfl ps

end

/-! ### Reading on after a semicolon -/

/-- After the semicolon the tokens are read as if a statement began with them, behind the statements
that the text would have if it ended there. -/
def ReadsOn (eof : Token) (found : List Token) (semicolon : Token) (s : State)
    (ts : List Token) : Prop :=
  ∃ errors before,
    List.Forall₂ (SyntaxError.Reblamed eof found) (step s eof).1 errors ∧
    List.Forall₂ (Stmt.Reblamed eof found) (step s eof).2.before before ∧
    run s (semicolon :: ts) =
      (errors ++ (run ⟨[], before, .ready⟩ ts).1, (run ⟨[], before, .ready⟩ ts).2)

/-- Where a statement may begin, the end of the text and a semicolon change nothing. -/
theorem start_separator (h : t.kind = .eof ∨ t.kind = .semicolon) (outer : List OpenBlock)
    (before : List Stmt) : start t outer before = ([], ⟨outer, before, .ready⟩) := by
  rcases h with h | h <;> simp [start, h]

/-- A statement is complete with its expression. -/
theorem step_finished (h : t.kind = .eof ∨ t.kind = .semicolon) (outer : List OpenBlock)
    (before : List Stmt) (head : Head) {ps : List Pending} {goal : Goal} {e : Expr}
    (hadvance : (advance t ps goal).2 = .finished e) :
    step ⟨outer, before, .inside head ps goal⟩ t =
      ((advance t ps goal).1, ⟨outer, head.complete e :: before, .ready⟩) := by
  rw [step_inside]
  rcases hmove : advance t ps goal with ⟨errors, move⟩
  obtain rfl : move = .finished e := by simpa [hmove] using hadvance
  rw [carry, start_separator h, List.append_nil]

theorem Head.complete_reblamed (head : Head) {e e' : Expr} (h : e.Reblamed eof found e') :
    (head.complete e).Reblamed eof found (head.complete e') := by
  cases head with
  | bind t x => exact .bind t x h
  | returns t => exact .returns t h
  | expr t => exact .expr t h

section

variable {semicolon : Token} (heof : eof.kind = .eof) (hsemicolon : semicolon.kind = .semicolon)
  (hfound : semicolon ∈ found)

include heof hsemicolon hfound

/-- Where no operand is wanted, a semicolon ends an expression like the end token. -/
theorem advance_reblamed (ps : List Pending) {goal : Goal} (hoperand : goal ≠ .operand)
    (harguments : ∀ tok callee, goal ≠ .arguments tok callee) :
    EndsAlike eof found (advance eof ps goal) (advance semicolon ps goal) := by
  have heof' : ¬ eof.kind.Continues := by rw [heof]; decide
  have hsemicolon' : ¬ semicolon.kind.Continues := by rw [hsemicolon]; decide
  have hclose (free : Bool) (e : Expr) :
      EndsAlike eof found (close eof free ps e) (close semicolon free ps e) :=
    close_reblamed heof' hsemicolon' hfound free free ps (.same e)
  have hexpect {k : TokenKind} (hk : TokenKind.eof ≠ k) (hk' : TokenKind.semicolon ≠ k)
      (move move' : Move) : EndsAlike eof found (expect k eof ps move) (expect k semicolon ps move') :=
    expect_reblamed heof' hsemicolon' hfound (heof ▸ hk) (hsemicolon ▸ hk') ps move move'
  cases goal with
  | operand => exact absurd rfl hoperand
  | arguments tok callee => exact absurd rfl (harguments tok callee)
  | operator e => exact hclose true e
  | closer e => exact hclose false e
  | conditionParen | brace | parametersParen | parameter =>
      exact hexpect (by decide) (by decide) _ _
  | otherwise tok c yes =>
      simp only [advance, heof, hsemicolon, reduceCtorEq, if_false]
      exact hclose true _
  | firstParameter tok =>
      simp only [advance, heof, hsemicolon, reduceCtorEq, if_false]
      exact hexpect (by decide) (by decide) _ _
  | parametersEnd tok xs =>
      simp only [advance, heof, hsemicolon, reduceCtorEq, if_false]
      exact hexpect (by decide) (by decide) _ _

/-- Where an operand is wanted a semicolon is passed over, and the token behind it ends the
expression like the end token. -/
theorem operand_reblamed {next : Token} (hnext : ¬ next.kind.Continues) (hfound' : next ∈ found)
    (ps : List Pending) :
    ∃ e, operand semicolon ps = ([.noOperand semicolon], .stay ps (.closer e)) ∧
      EndsAlike eof found (operand eof ps)
        (.noOperand semicolon :: (close next false ps e).1, (close next false ps e).2) := by
  have heof' : ¬ eof.kind.Continues := by rw [heof]; decide
  have herror : (SyntaxError.noOperand eof).Reblamed eof found (.noOperand semicolon) :=
    .inr ⟨rfl, semicolon, hfound, rfl⟩
  refine ⟨(SyntaxError.noOperand semicolon).node, by simp [operand, begin, hsemicolon], ?_⟩
  rw [operand, if_pos heof]
  exact (close_reblamed heof' hnext hfound' true false ps (.error herror)).cons herror

/-- A binding is broken off alike. -/
theorem readsOn_abandon {before : List Stmt} {phase : Phase} {k : TokenKind}
    (hstep : ∀ u : Token, u.kind = .eof ∨ u.kind = .semicolon →
      step ⟨[], before, phase⟩ u = abandon k u [] before) (ts : List Token) :
    ReadsOn eof found semicolon ⟨[], before, phase⟩ ts := by
  have herror : (SyntaxError.unexpected k eof).Reblamed eof found (.unexpected k semicolon) :=
    .inr ⟨rfl, semicolon, hfound, rfl⟩
  have heof' := hstep eof (.inl heof)
  have hsemicolon' := hstep semicolon (.inr hsemicolon)
  rw [abandon, start_separator (.inl heof)] at heof'
  rw [abandon, start_separator (.inr hsemicolon)] at hsemicolon'
  refine ⟨[.unexpected k semicolon], .error semicolon :: before, ?_, ?_, ?_⟩
  · rw [heof']
    exact .cons herror .nil
  · rw [heof']
    exact .cons (.error hfound) (List.forall₂_same.2 fun s _ => .same s)
  · rw [run_cons, hsemicolon']

omit hfound in
/-- An expression that the semicolon ends is ended alike. -/
theorem readsOn_finished {before : List Stmt} {head : Head} {ps : List Pending} {goal : Goal}
    (h : EndsAlike eof found (advance eof ps goal) (advance semicolon ps goal)) (ts : List Token) :
    ReadsOn eof found semicolon ⟨[], before, .inside head ps goal⟩ ts := by
  obtain ⟨e, e', he, he', herrors, hee'⟩ := h
  have heof' := step_finished (.inl heof) [] before head he
  have hsemicolon' := step_finished (.inr hsemicolon) [] before head he'
  refine ⟨(advance semicolon ps goal).1, head.complete e' :: before, ?_, ?_, ?_⟩
  · rw [heof']
    exact herrors
  · rw [heof']
    exact .cons (head.complete_reblamed hee') (List.forall₂_same.2 fun s _ => .same s)
  · rw [run_cons, hsemicolon']

/-- An expression that lacks an operand is ended alike by the token behind the semicolon. -/
theorem readsOn_operand {before : List Stmt} {head : Head} {ps ps' : List Pending} {goal : Goal}
    (hadvance : ∀ u : Token, u.kind = .eof ∨ u.kind = .semicolon →
      advance u ps goal = operand u ps') {next : Token} (hnext : ¬ next.kind.Continues)
    (hfound' : next ∈ found) (ts : List Token) :
    ReadsOn eof found semicolon ⟨[], before, .inside head ps goal⟩ (next :: ts) := by
  obtain ⟨e, hpassed, e₁, e₂, he₁, he₂, herrors, he⟩ :=
    operand_reblamed heof hsemicolon hfound hnext hfound' ps'
  rw [← hadvance semicolon (.inr hsemicolon)] at hpassed
  rw [← hadvance eof (.inl heof)] at he₁ herrors
  have heof' := step_finished (.inl heof) [] before head he₁
  have hsemicolon' : step ⟨[], before, .inside head ps goal⟩ semicolon =
      ([.noOperand semicolon], ⟨[], before, .inside head ps' (.closer e)⟩) := by
    rw [step_inside, hpassed, carry]
  -- the next token ends the statement, and begins another as it would in the ready state
  have hnext' : step ⟨[], before, .inside head ps' (.closer e)⟩ next =
      ((close next false ps' e).1 ++ (step ⟨[], head.complete e₂ :: before, .ready⟩ next).1,
        (step ⟨[], head.complete e₂ :: before, .ready⟩ next).2) := by
    rw [step_inside, advance]
    rcases hmove : close next false ps' e with ⟨errors, move⟩
    obtain rfl : move = .finished e₂ := by simpa [hmove] using he₂
    rfl
  refine ⟨.noOperand semicolon :: (close next false ps' e).1, head.complete e₂ :: before, ?_, ?_,
    ?_⟩
  · rw [heof']
    exact herrors
  · rw [heof']
    exact .cons (head.complete_reblamed he) (List.forall₂_same.2 fun s _ => .same s)
  · rw [run_cons, hsemicolon', run_cons, hnext', run_cons]
    simp only [List.cons_append, List.nil_append, List.append_assoc]

/-- **Reading on after a semicolon**: what is under way is ended as at the end of the text, and the
token behind the semicolon is read as the first of a statement.  Where there is an error, that token
must be one that cannot go on with an expression. -/
theorem readsOn {next : Token} (hfound' : next ∈ found) (before : List Stmt) (phase : Phase)
    (hnext : (step ⟨[], before, phase⟩ eof).1 = [] ∨ ¬ next.kind.Continues) (ts : List Token) :
    ReadsOn eof found semicolon ⟨[], before, phase⟩ (next :: ts) := by
  cases phase with
  | ready =>
      have heof' : step ⟨[], before, .ready⟩ eof = ([], ⟨[], before, .ready⟩) :=
        start_separator (.inl heof) [] before
      have hsemicolon' : step ⟨[], before, .ready⟩ semicolon = ([], ⟨[], before, .ready⟩) :=
        start_separator (.inr hsemicolon) [] before
      refine ⟨[], before, ?_, ?_, ?_⟩
      · rw [heof']
        exact .nil
      · rw [heof']
        exact List.forall₂_same.2 fun s _ => .same s
      · rw [run_cons, hsemicolon']
  | bindName tok =>
      refine readsOn_abandon heof hsemicolon hfound (k := .identifier) (fun u hu => ?_) (next :: ts)
      rcases hu with hu | hu <;> simp [step, hu]
  | bindAssign tok x =>
      refine readsOn_abandon heof hsemicolon hfound (k := .assign) (fun u hu => ?_) (next :: ts)
      rcases hu with hu | hu <;> simp [step, hu]
  | inside head ps goal =>
      have hlacks (ps' : List Pending) (hadvance : ∀ u : Token,
          u.kind = .eof ∨ u.kind = .semicolon → advance u ps goal = operand u ps') :
          ReadsOn eof found semicolon ⟨[], before, .inside head ps goal⟩ (next :: ts) := by
        -- an operand is lacking, which is an error at the end of the text
        refine readsOn_operand heof hsemicolon hfound hadvance (hnext.resolve_left ?_) hfound' ts
        obtain ⟨e, he⟩ := advance_eof heof ps goal
        rw [step_finished (.inl heof) [] before head he, hadvance eof (.inl heof)]
        simp [operand, heof, giveUp]
      have hends (hoperand : goal ≠ .operand)
          (harguments : ∀ tok callee, goal ≠ .arguments tok callee) :
          ReadsOn eof found semicolon ⟨[], before, .inside head ps goal⟩ (next :: ts) :=
        readsOn_finished heof hsemicolon
          (advance_reblamed heof hsemicolon hfound ps hoperand harguments) _
      cases goal with
      | operand => exact hlacks ps fun u hu => rfl
      | arguments tok callee =>
          refine hlacks (.argument tok callee [] :: ps) fun u hu => ?_
          rcases hu with hu | hu <;> simp [advance, hu]
      | _ => exact hends (by simp) (by simp)

end

end Parser

open LetFn.Parser in
/-- A text at whose end no block is open ends with one step. -/
theorem Parsed.ofTokens_of_outer {ts : Tokens} (heof : ts.eof.kind = .eof)
    (h : (run .initial ts.body).2.outer = []) :
    Parsed.ofTokens ts = ⟨⟨(step (run .initial ts.body).2 ts.eof).2.before.reverse⟩,
      (run .initial ts.body).1 ++ (step (run .initial ts.body).2 ts.eof).1⟩ := by
  have houter := (step_eof heof (run .initial ts.body).2).1.trans h
  simp only [ofTokens, run_append, run_cons, run_nil, List.append_nil, houter, finish]

open LetFn.Parser in
/-- A block that is open at the end of a text lacks its brace. -/
theorem Parsed.outer_of_errors {ts : Tokens} (heof : ts.eof.kind = .eof)
    (h : ∀ t, .unexpected .braceRight t ∉ (Parsed.ofTokens ts).errors) :
    (run .initial ts.body).2.outer = [] := by
  have houter := (step_eof heof (run .initial ts.body).2).1
  cases hopen : (run .initial ts.body).2.outer with
  | nil => rfl
  | cons b outer =>
      refine absurd ?_ (h ts.eof)
      simp [ofTokens, run_append, run_cons, houter, hopen, finish]

open LetFn.Parser in
/-- Statements that follow others are a text of their own. -/
theorem Parsed.ofTokens_onto {ts : Tokens} (heof : ts.eof.kind = .eof) (before : List Stmt) :
    let body := run ⟨[], before, .ready⟩ ts.all
    finish ts.eof body.2.outer body.2.before =
      ((finish ts.eof (run .initial ts.all).2.outer (run .initial ts.all).2.before).1,
        ⟨before.reverse ++ (Parsed.ofTokens ts).program.statements⟩) ∧
    body.1 = (run .initial ts.all).1 := by
  have hrun : run ⟨[], before, .ready⟩ ts.all = ontoState before (run .initial ts.all) :=
    run_onto before .initial ts.all
  simp only [hrun, ontoState, State.onto, finish_onto _ _ _ heof]
  exact ⟨rfl, trivial⟩

open LetFn.Parser in
/-- **Two lists of tokens with a semicolon between them**, of which the first is complete or broken
off outside of blocks. -/
theorem Parsed.ofTokens_semicolon (ts us : Tokens) {semicolon next : Token} {more : List Token}
    (hts : ts.eof.kind = .eof) (hus : us.eof.kind = .eof) (hsemicolon : semicolon.kind = .semicolon)
    (hnext : us.all = next :: more)
    (hblock : ∀ t, .unexpected .braceRight t ∉ (Parsed.ofTokens ts).errors)
    (hfirst : (Parsed.ofTokens ts).errors = [] ∨ ¬ next.kind.Continues) :
    ∃ ss errors,
      List.Forall₂ (Stmt.Reblamed ts.eof [semicolon, next])
        (Parsed.ofTokens ts).program.statements ss ∧
      List.Forall₂ (SyntaxError.Reblamed ts.eof [semicolon, next])
        (Parsed.ofTokens ts).errors errors ∧
      Parsed.ofTokens ⟨ts.body ++ semicolon :: us.body, us.eof⟩ =
        ⟨⟨ss ++ (Parsed.ofTokens us).program.statements⟩,
          errors ++ (Parsed.ofTokens us).errors⟩ := by
  have houter := outer_of_errors hts hblock
  rw [ofTokens_of_outer hts houter] at hfirst ⊢
  rcases hbody : run .initial ts.body with ⟨errors, ⟨outer, before, phase⟩⟩
  simp only [hbody] at houter hfirst ⊢
  subst houter
  have hmem : semicolon ∈ [semicolon, next] ∧ next ∈ [semicolon, next] := by simp
  obtain ⟨errors', before', herrors, hbefore, hrun⟩ :=
    readsOn hts hsemicolon hmem.1 hmem.2 before phase
      (hfirst.imp_left fun h => (List.append_eq_nil_iff.1 h).2) more
  refine ⟨before'.reverse, errors ++ errors', List.rel_reverse hbefore,
    List.rel_append (List.forall₂_same.2 fun e _ => .inl rfl) herrors, ?_⟩
  rw [← hnext] at hrun
  obtain ⟨hfinish, herrors'⟩ := ofTokens_onto hus before'
  have hall : run .initial (ts.body ++ semicolon :: us.body ++ [us.eof]) =
      (errors ++ (errors' ++ (run .initial us.all).1), (run ⟨[], before', .ready⟩ us.all).2) := by
    have hlist : ts.body ++ semicolon :: us.body ++ [us.eof] = ts.body ++ semicolon :: us.all := by
      rw [Tokens.all, List.append_assoc, List.cons_append]
    rw [hlist, run_append, hbody, hrun, herrors']
  rw [ofTokens, hall, hfinish]
  simp only [List.append_assoc]
  rfl

/-- Tokens that are the same up to places begin with the same kind. -/
theorem Token.kind_head? {ts us : List Token}
    (h : ts.map Token.unplaced = us.map Token.unplaced) :
    ts.head?.map Token.kind = us.head?.map Token.kind := by
  have hhead := congrArg (fun l => l.head?.map Token.kind) h
  simpa [List.head?_map, Function.comp_def] using hhead

open LetFn.Parser in
/-- **Errors before a semicolon do not reach beyond it.**  Two texts with a semicolon between them
have the statements and the errors of the first and then those of the second, if no block of the
first is left open, and either the first is correct or the second does not begin with a token that
could go on with an expression.  What comes from the second is the same up to places; what comes from
the first is the same, but where the end of the first was at fault it may be the semicolon, or the
token behind it. -/
theorem Parsed.recovery_local (s₁ s₂ : String)
    (hblock : ∀ t, .unexpected .braceRight t ∉ (Parsed.ofString s₁).errors)
    (hfirst : (Parsed.ofString s₁).errors = [] ∨
      ∀ t ∈ (Tokens.ofString s₂).body.head?, ¬ t.kind.Continues) :
    ∃ semicolon rest, (Tokens.ofString (s₁ ++ ";" ++ s₂)).all =
        (Tokens.ofString s₁).body ++ semicolon :: rest ∧ semicolon.kind = .semicolon ∧
      ∃ ss₁ ss₂ errors₁ errors₂,
        (Parsed.ofString (s₁ ++ ";" ++ s₂)).program.statements = ss₁ ++ ss₂ ∧
        (Parsed.ofString (s₁ ++ ";" ++ s₂)).errors = errors₁ ++ errors₂ ∧
        List.Forall₂ (Stmt.Reblamed (Tokens.ofString s₁).eof (semicolon :: rest.head?.toList))
          (Parsed.ofString s₁).program.statements ss₁ ∧
        List.Forall₂ (SyntaxError.Reblamed (Tokens.ofString s₁).eof (semicolon :: rest.head?.toList))
          (Parsed.ofString s₁).errors errors₁ ∧
        (⟨⟨ss₂⟩, errors₂⟩ : Parsed).unplaced = (Parsed.ofString s₂).unplaced := by
  obtain ⟨semicolon, rest, hbody, hsemicolon, hrest⟩ := Tokens.ofString_semicolon s₁ s₂
  have heof₁ : (Tokens.ofString s₁).eof.kind = .eof := Lexer.kind_tokens_eof _
  have heof₂ : (Tokens.ofString s₂).eof.kind = .eof := Lexer.kind_tokens_eof _
  have heof : (Tokens.ofString (s₁ ++ ";" ++ s₂)).eof.kind = .eof := Lexer.kind_tokens_eof _
  have hunplaced : (Tokens.ofString (s₁ ++ ";" ++ s₂)).eof.unplaced =
      (Tokens.ofString s₂).eof.unplaced := by
    rw [Tokens.ofString, Lexer.unplaced_tokens_eof, Tokens.ofString, Lexer.unplaced_tokens_eof]
  unfold ofString
  generalize Tokens.ofString (s₁ ++ ";" ++ s₂) = ts at hbody heof hunplaced ⊢
  obtain ⟨body, eof⟩ := ts
  obtain rfl := hbody
  obtain ⟨next, more, hnext⟩ : ∃ next more, rest ++ [eof] = next :: more :=
    List.exists_cons_of_ne_nil (by simp)
  refine ⟨semicolon, next :: more, by simp [Tokens.all, hnext], hsemicolon, ?_⟩
  -- the second text begins with the same kind of token wherever it stands
  have hcontinues : (ofTokens (Tokens.ofString s₁)).errors = [] ∨ ¬ next.kind.Continues := by
    refine hfirst.imp_right fun hfirst => ?_
    cases rest with
    | nil =>
        obtain rfl : eof = next := (List.cons.inj hnext).1
        rw [heof]
        decide
    | cons t rest =>
        obtain rfl : t = next := (List.cons.inj hnext).1
        obtain ⟨u, hu, hkind⟩ := Option.map_eq_some_iff.1 (Token.kind_head? hrest).symm
        exact hkind ▸ hfirst u hu
  obtain ⟨ss₁, errors₁, hss, herrors, hparsed⟩ :=
    ofTokens_semicolon (Tokens.ofString s₁) ⟨rest, eof⟩ heof₁ heof hsemicolon hnext hblock hcontinues
  rw [hparsed]
  refine ⟨ss₁, _, errors₁, _, rfl, rfl, hss, herrors, ?_⟩
  have hsecond := ofTokens_unplaced ⟨rest, eof⟩
  rw [hrest, hunplaced, ofTokens_unplaced] at hsecond
  exact hsecond.symm

/-- An operand that is lacking in parentheses within a call: the semicolon is passed over, and the
keyword behind it ends the parentheses, the call and the binding. -/
theorem Parsed.recovery_local_operand :
    (∀ t, .unexpected .braceRight t ∉ (Parsed.ofString "let x = f(1, (2 +").errors) ∧
    (∀ t ∈ (Tokens.ofString "let y = \x7d").body.head?, ¬ t.kind.Continues) ∧
    ∃ ss₁ ss₂ errors₁ errors₂,
      (Parsed.ofString "let x = f(1, (2 +;let y = \x7d").program.statements = ss₁ ++ ss₂ ∧
      (Parsed.ofString "let x = f(1, (2 +;let y = \x7d").errors = errors₁ ++ errors₂ ∧
      errors₁.length = 3 ∧
      (⟨⟨ss₂⟩, errors₂⟩ : Parsed).unplaced = (Parsed.ofString "let y = \x7d").unplaced := by
  have herrors : (Parsed.ofString "let x = f(1, (2 +").errors =
      [.noOperand ⟨.eof, "", ⟨1, 18⟩⟩, .unexpected .parenRight ⟨.eof, "", ⟨1, 18⟩⟩,
        .unexpected .parenRight ⟨.eof, "", ⟨1, 18⟩⟩] := by decide +kernel
  have hblock : ∀ t, .unexpected .braceRight t ∉ (Parsed.ofString "let x = f(1, (2 +").errors := by
    simp [herrors]
  have hfirst : ∀ t ∈ (Tokens.ofString "let y = \x7d").body.head?, ¬ t.kind.Continues := by
    decide +kernel
  obtain ⟨_, _, -, -, ss₁, ss₂, errors₁, errors₂, hstatements, hall, -, hlength, hsecond⟩ :=
    Parsed.recovery_local "let x = f(1, (2 +" "let y = \x7d" hblock (.inr hfirst)
  refine ⟨hblock, hfirst, ss₁, ss₂, errors₁, errors₂, hstatements, hall, ?_, hsecond⟩
  rw [← hlength.length_eq, herrors]
  rfl

end LetFn
