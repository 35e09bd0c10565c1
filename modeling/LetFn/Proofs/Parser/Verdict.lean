/-
**What will become of a text.**

A cursor stands somewhere in a text, and the errors before it have been recorded.  A state machine
that reads one token after the other has read the same tokens, or the one at which the cursor stands
as well.  Then what will become of the whole text is told by the errors recorded, the state of the
machine and the tokens that are left: this is the verdict.  Where a cursor moves and the machine
does as well, the verdict remains; so it does where the machine is put into another state that does
the same with the next token.

With the verdict goes how far the cursor has come.  At any time each function has been entered at
different tokens, none of them further on than the present one.  Passing a token makes room for
every function to be entered again, unless it is the end token, which is never passed.

Main definitions:

* `LetFn.Parser.complete` — what the machine makes of the rest of a text;
* `LetFn.Cursor.Onward`, `LetFn.Cursor.Fresh` — where functions have been entered;
* `LetFn.Cursor.verdict` — what will become of a text;
* `LetFn.Cursor.Before`, `LetFn.Cursor.Past` — the machine has read up to the present token, or past
  it;
* `LetFn.Parser.Setting` — where an expression stands.

Main results:

* `LetFn.Cursor.Past.consume_read` — cursor and machine go on by one token;
* `LetFn.Cursor.Past.report` — an error is recorded, and the machine is put into another state;
* `LetFn.Cursor.Before.unclosed` — at the end of the text an open block is ended;
* `LetFn.Parser.Setting.step_giveUp` — a construct that is broken off is an operand from then on.
-/

import LetFn.Proofs.Parser.Descent

set_option relaxedAutoImplicit false
set_option autoImplicit false

namespace LetFn

/-! ### What becomes of the rest of a text -/

namespace Parser

/-- What a state makes of the tokens `ts` that are left and of the end token. -/
def complete (eof : Token) (s : State) (ts : List Token) : List SyntaxError × Program :=
  let body := run s (ts ++ [eof])
  let rest := finish eof body.2.outer body.2.before
  (body.1 ++ rest.1, rest.2)

variable {eof t : Token} {s s' : State} {ts : List Token}

theorem complete_cons :
    complete eof s (t :: ts) =
      ((step s t).1 ++ (complete eof (step s t).2 ts).1, (complete eof (step s t).2 ts).2) := by
  simp only [complete, List.cons_append, run_cons, List.append_assoc]

/-- Only what a state does with the next token matters. -/
theorem complete_of_step (eof : Token) (ts : List Token) (errors : List SyntaxError)
    (h : step s (ts.headD eof) =
      (errors ++ (step s' (ts.headD eof)).1, (step s' (ts.headD eof)).2)) :
    complete eof s ts = (errors ++ (complete eof s' ts).1, (complete eof s' ts).2) := by
  cases ts with
  | nil =>
      change step s eof = _ at h
      simp only [complete, List.nil_append, run_cons, run_nil, h, List.headD_nil, List.append_nil,
        List.append_assoc]
  | cons t ts =>
      change step s t = _ at h
      simp only [complete_cons, h, List.headD_cons, List.append_assoc]

/-- At the end of the text a program is complete if a statement may begin outside of blocks. -/
theorem complete_nil_ready (heof : eof.kind = .eof) (before : List Stmt) :
    complete eof ⟨[], before, .ready⟩ [] = ([], ⟨before.reverse⟩) := by
  simp [complete, run_cons, step, start, heof, finish]

/-- At the end of the text each open block lacks its brace. -/
theorem complete_openBlock (heof : eof.kind = .eof) (b : OpenBlock) (outer : List OpenBlock)
    (before : List Stmt) :
    complete eof ⟨b :: outer, before, .ready⟩ [] =
      ([.unexpected .braceRight eof] ++ (complete eof (b.resume outer before) []).1,
        (complete eof (b.resume outer before) []).2) := by
  have hready : step ⟨b :: outer, before, .ready⟩ eof = ([], ⟨b :: outer, before, .ready⟩) := by
    simp [step, start, heof]
  have houter : (step (b.resume outer before) eof).2.outer = outer := (step_eof heof _).1
  simp only [complete, List.nil_append, run_cons, run_nil, hready, finish, houter, List.append_nil,
    List.cons_append]

end Parser

/-! ### How far a cursor has come -/

namespace Cursor

variable {c : Cursor} {N : Nat}

/-- Each function has been entered at different tokens, each time further on than before and never
further on than the present token, `N` tokens before the end at most; and each turn of a loop has
passed a token. -/
structure Onward (N : Nat) (c : Cursor) : Prop where
  left_le : c.left ≤ N
  pairwise : ∀ r, (c.entered r).Pairwise (· < ·)
  entered : ∀ r, ∀ k ∈ c.entered r, c.left ≤ k ∧ k ≤ N
  turns : ∀ t ∈ c.turns, t.after < t.before

/-- The function has not been entered at the present token. -/
def Fresh (c : Cursor) (r : Routine) : Prop :=
  ∀ k ∈ c.entered r, c.left < k

theorem left_consume_le (c : Cursor) : c.consume.left ≤ c.left := by
  simp [left, consume]

theorem left_consume_lt (h : c.rest ≠ []) : c.consume.left < c.left := by
  have := List.length_pos_iff.2 h
  simp only [left, consume, List.length_tail]
  omega

/-- Where tokens are left, the present one is the first of them. -/
theorem rest_eq (h : c.rest ≠ []) : c.rest = c.current :: c.consume.rest := by
  obtain ⟨t, ts, hts⟩ := List.exists_cons_of_ne_nil h
  simp [current, consume, hts]

theorem current_consume (c : Cursor) : c.consume.current = c.peek := rfl

/-- The present token is the end token where no tokens are left. -/
theorem kind_current_eq_eof_iff : c.current.kind = .eof ↔ c.rest = [] := by
  constructor
  · intro h
    refine Decidable.byContradiction fun hne => ?_
    exact c.kind_rest c.current (rest_eq hne ▸ List.mem_cons_self) h
  · intro h
    rw [current, h]
    exact c.kind_eof

theorem rest_consume_ne_nil (h : c.peek.kind ≠ .eof) : c.consume.rest ≠ [] := fun hnil =>
  h (kind_current_eq_eof_iff.2 hnil)

theorem rest_ne_nil (h : c.peek.kind ≠ .eof) : c.rest ≠ [] := fun hnil =>
  rest_consume_ne_nil h (by simp [consume, hnil])

theorem Onward.consume (h : c.Onward N) : c.consume.Onward N where
  left_le := Nat.le_trans c.left_consume_le h.left_le
  pairwise := h.pairwise
  entered r k hk := ⟨Nat.le_trans c.left_consume_le (h.entered r k hk).1, (h.entered r k hk).2⟩
  turns := h.turns

/-- **Passing a token makes room for any function.** -/
theorem Onward.fresh_consume (h : c.Onward N) (hne : c.rest ≠ []) (r : Routine) :
    c.consume.Fresh r := fun k hk =>
  Nat.lt_of_lt_of_le (left_consume_lt hne) (h.entered r k hk).1

theorem entered_enter_self {r : Routine} : (c.enter r).entered r = c.left :: c.entered r :=
  if_pos rfl

theorem entered_enter_of_ne {r r' : Routine} (hr : r' ≠ r) :
    (c.enter r).entered r' = c.entered r' :=
  if_neg hr

/-- **A function may be entered where it has not been entered.** -/
theorem Onward.enter (h : c.Onward N) {r : Routine} (hfresh : c.Fresh r) :
    (c.enter r).Onward N where
  left_le := h.left_le
  pairwise r' := by
    by_cases hr : r' = r
    · subst hr
      rw [entered_enter_self]
      exact List.pairwise_cons.2 ⟨hfresh, h.pairwise r'⟩
    · rw [entered_enter_of_ne hr]
      exact h.pairwise r'
  entered r' := by
    by_cases hr : r' = r
    · subst hr
      rw [entered_enter_self]
      exact List.forall_mem_cons.2 ⟨⟨Nat.le_refl _, h.left_le⟩, h.entered r'⟩
    · rw [entered_enter_of_ne hr]
      exact h.entered r'
  turns := h.turns

/-- The other functions may still be entered. -/
theorem Fresh.enter {r r' : Routine} (h : c.Fresh r') (hr : r' ≠ r) : (c.enter r).Fresh r' := by
  rw [Fresh, entered_enter_of_ne hr]
  exact h

theorem Onward.report (h : c.Onward N) (e : SyntaxError) : (c.report e).Onward N :=
  ⟨h.left_le, h.pairwise, h.entered, h.turns⟩

theorem Onward.turned (h : c.Onward N) (loop : Loop) {before : Nat} (hlt : c.left < before) :
    (c.turned loop before).Onward N :=
  ⟨h.left_le, h.pairwise, h.entered, List.forall_mem_cons.2 ⟨hlt, h.turns⟩⟩

/-! ### How far the machine has read -/

/-- What will become of the text if the machine in the state `s` reads the tokens `ts`: the errors
recorded and those to come, and the program. -/
def verdict (c : Cursor) (s : Parser.State) (ts : List Token) : List SyntaxError × Program :=
  (c.errors ++ (Parser.complete c.eof s ts).1, (Parser.complete c.eof s ts).2)

variable {v : List SyntaxError × Program} {s s' : Parser.State}

/-- The machine is in the state `s`, has still to read the present token, and the text will become
`v`. -/
structure Before (N : Nat) (v : List SyntaxError × Program) (c : Cursor) (s : Parser.State) :
    Prop where
  onward : c.Onward N
  verdict : c.verdict s c.rest = v

/-- The machine is in the state `s`, has read the present token, and the text will become `v`. -/
structure Past (N : Nat) (v : List SyntaxError × Program) (c : Cursor) (s : Parser.State) :
    Prop where
  onward : c.Onward N
  verdict : c.verdict s c.consume.rest = v

/-- The cursor goes on to where the machine is. -/
theorem Past.consume (h : c.Past N v s) : c.consume.Before N v s :=
  ⟨h.onward.consume, h.verdict⟩

/-- The machine reads the present token. -/
theorem Before.read (h : c.Before N v s) (hne : c.rest ≠ [])
    (hstep : Parser.step s c.current = ([], s')) : c.Past N v s' := by
  refine ⟨h.onward, ?_⟩
  rw [← h.verdict, rest_eq hne, Cursor.verdict, Cursor.verdict, Parser.complete_cons, hstep]
  rfl

/-- The cursor goes on, and the machine reads the token to which it goes. -/
theorem Past.consume_read (h : c.Past N v s) (hpeek : c.peek.kind ≠ .eof)
    (hstep : Parser.step s c.peek = ([], s')) : c.consume.Past N v s' :=
  h.consume.read (rest_consume_ne_nil hpeek) hstep

/-- The machine may be in another state that does the same with the next token, but for an error
that is recorded now. -/
theorem Past.report (h : c.Past N v s) (e : SyntaxError)
    (hstep : Parser.step s c.peek =
      (e :: (Parser.step s' c.peek).1, (Parser.step s' c.peek).2)) :
    (c.report e).Past N v s' := by
  have hcomplete := Parser.complete_of_step c.eof c.consume.rest [e] hstep
  refine ⟨h.onward.report e, ?_⟩
  rw [← h.verdict, Cursor.verdict, Cursor.verdict, hcomplete, ← List.append_assoc]
  rfl

/-- The machine may be in another state that does the same with the next token. -/
theorem Past.congr (h : c.Past N v s) (hstep : Parser.step s c.peek = Parser.step s' c.peek) :
    c.Past N v s' := by
  have hcomplete := Parser.complete_of_step c.eof c.consume.rest [] hstep
  refine ⟨h.onward, ?_⟩
  rw [← h.verdict, Cursor.verdict, Cursor.verdict, hcomplete]
  rfl

/-- The same before the present token is read. -/
theorem Before.congr (h : c.Before N v s)
    (hstep : Parser.step s c.current = Parser.step s' c.current) : c.Before N v s' := by
  have hcomplete := Parser.complete_of_step c.eof c.rest [] hstep
  refine ⟨h.onward, ?_⟩
  rw [← h.verdict, Cursor.verdict, Cursor.verdict, hcomplete]
  rfl

/-- The machine reads the present token and records an error. -/
theorem Before.read_report (h : c.Before N v s) (hne : c.rest ≠ []) {e : SyntaxError}
    (hstep : Parser.step s c.current = ([e], s')) : (c.report e).Past N v s' := by
  refine ⟨h.onward.report e, ?_⟩
  rw [← h.verdict, rest_eq hne, Cursor.verdict, Cursor.verdict, Parser.complete_cons, hstep,
    ← List.append_assoc]
  rfl

/-- At the end of the text the machine has read all that there is. -/
theorem Before.past_end (h : c.Before N v s) (hnil : c.rest = []) : c.Past N v s := by
  have hconsume : c.consume.rest = c.rest := by simp [Cursor.consume, hnil]
  exact ⟨h.onward, hconsume ▸ h.verdict⟩

/-- At the end of the text an open block lacks its brace. -/
theorem Before.unclosed {b : Parser.OpenBlock} {outer : List Parser.OpenBlock} {before : List Stmt}
    (h : c.Before N v ⟨b :: outer, before, .ready⟩) (hnil : c.rest = []) :
    (c.report (.unexpected .braceRight c.current)).Past N v (b.resume outer before) := by
  have hcurrent : c.current = c.eof := by simp [current, hnil]
  have hconsume : (c.report (.unexpected .braceRight c.current)).consume.rest = [] := by
    simp [Cursor.consume, Cursor.report, hnil]
  refine ⟨h.onward.report _, ?_⟩
  rw [← h.verdict, Cursor.verdict, Cursor.verdict, hconsume, hnil,
    Parser.complete_openBlock c.kind_eof, ← List.append_assoc, hcurrent]
  rfl

theorem Past.turned (h : c.Past N v s) (loop : Loop) {k : Nat} (hk : c.left < k) :
    (c.turned loop k).Past N v s :=
  ⟨h.onward.turned loop hk, h.verdict⟩

theorem Before.enter (h : c.Before N v s) {r : Routine} (hfresh : c.Fresh r) :
    (c.enter r).Before N v s :=
  ⟨h.onward.enter hfresh, h.verdict⟩

theorem Past.enter (h : c.Past N v s) {r : Routine} (hfresh : c.Fresh r) :
    (c.enter r).Past N v s :=
  ⟨h.onward.enter hfresh, h.verdict⟩

end Cursor

/-! ### What the machine does inside an expression -/

namespace Parser

/-- Where an expression stands: the open blocks around it, the statements before it and the
statement that it belongs to. -/
structure Setting where
  outer : List OpenBlock
  before : List Stmt
  head : Head

/-- The state inside an expression. -/
def Setting.state (σ : Setting) (ps : List Pending) (goal : Goal) : State :=
  ⟨σ.outer, σ.before, .inside σ.head ps goal⟩

variable {σ : Setting} {t : Token} {ps qs : List Pending} {goal goal' : Goal} {e e' : Expr}
  {p : Pending}

theorem Setting.step_stay (h : advance t ps goal = ([], .stay qs goal')) :
    step (σ.state ps goal) t = ([], σ.state qs goal') := by
  rw [Setting.state, step_inside, h]
  rfl

theorem Setting.step_congr (h : advance t ps goal = advance t qs goal') :
    step (σ.state ps goal) t = step (σ.state qs goal') t := by
  rw [Setting.state, Setting.state, step_inside, step_inside, h]

theorem Setting.step_openBlock {owner : Owner} (h : advance t ps goal = ([], .openBlock owner qs)) :
    step (σ.state ps goal) t = ([], ⟨⟨owner, t, σ.before, σ.head, qs⟩ :: σ.outer, [], .ready⟩) := by
  rw [Setting.state, step_inside, h]
  rfl

/-- A construct that is broken off is an operand from then on. -/
theorem Setting.step_giveUp {error : SyntaxError} (h : advance t ps goal = giveUp error t qs) :
    step (σ.state ps goal) t =
      (error :: (step (σ.state qs (.operator error.node)) t).1,
        (step (σ.state qs (.operator error.node)) t).2) := by
  rw [Setting.state, Setting.state, step_inside, step_inside, h, giveUp, advance]
  rcases close t true qs error.node with ⟨errors, _ | _ | _⟩ <;> rfl

/-- An expression begins with its first token. -/
theorem Setting.step_operand (ht : t.kind ≠ .eof) :
    step (σ.state ps .operand) t =
      ((begin t ps).1, σ.state (begin t ps).2.1 (begin t ps).2.2) := by
  rw [Setting.state, step_inside, advance, operand, if_neg ht]
  rfl

/-- A tighter operator takes the expression before it. -/
theorem close_of_lt (h : strictness ps < t.kind.precedence) :
    close t true ps e = ([], shift t ps e) := by
  cases ps <;> simp [close, h]

/-- No other token does. -/
theorem close_of_not_lt (h : ¬ strictness ps < t.kind.precedence) :
    close t true ps e = close t false ps e := by
  cases ps <;> simp [close, h]

/-- An operation is complete with its operand. -/
theorem close_operand (h : p.operation? e = some e') :
    close t false (p :: ps) e = close t true ps e' := by
  simp [close, h]

/-- A bracketed construct is complete with its bracket, or goes on. -/
theorem close_accepted {move : Move} (h : p.operation? e = none)
    (haccept : p.accept? t ps e = some move) : close t false (p :: ps) e = ([], move) := by
  simp [close, h, haccept]

/-- A bracketed construct is broken off where its bracket is missing. -/
theorem close_unaccepted (h : p.operation? e = none) (haccept : p.accept? t ps e = none) :
    close t false (p :: ps) e = giveUp (.unexpected .parenRight t) t ps := by
  simp [close, h, haccept, giveUp]

end Parser

end LetFn
