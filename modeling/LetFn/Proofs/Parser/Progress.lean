/-
**Descent always goes onward.**

The parser by recursive descent comes to an end on every text, however malformed, and then every
token has been passed.  What makes it so is spread over its functions: the function that reads an
expression passes nothing by itself before it begins an operand, and when an operand is missing it
passes nothing at all; that something has been passed since the last expression was begun is the
work of whoever calls it.  So an expression may only be begun where none has been begun at the
present token, and each caller has to show that it has passed a token or that nothing has been begun
there.

The same functions are shown to do what the state machine does that reads one token after the other:
the verdict on the text does not change.  So the bound does not matter, and the parser by descent is
the parser.

Main definitions:

* `LetFn.Descent.Reads` — a function reads expressions and goes onward;
* `LetFn.Descent.Operand`, `LetFn.Descent.Listed`, `LetFn.Descent.Statement`,
  `LetFn.Descent.Between` — where cursor and machine are after a part of the text.

Main results:

* `LetFn.Descent.statement_ends`, `LetFn.Descent.block_ends`, `LetFn.Descent.operand_ends`,
  `LetFn.Descent.continued_ends` — each function goes onward if expressions do;
* `LetFn.Descent.expression_reads` — expressions are read as the machine reads them;
* `LetFn.Descent.program_onward` — **the parser comes to an end, and never goes back**.
-/

import LetFn.Proofs.Parser.Verdict

set_option relaxedAutoImplicit false
set_option autoImplicit false

namespace LetFn

/-! ### Expressions inside others -/

namespace Descent

open LetFn.Parser

variable {N n m : Nat} {v : List SyntaxError × Program} {c : Cursor} {σ : Setting}
  {ps qs : List Pending} {expr : Nat → Descent Expr}

/-- An expression has been read that an operator may take, and not more than `m` tokens are left. -/
def Operand (N : Nat) (v : List SyntaxError × Program) (m : Nat) (σ : Setting) (ps : List Pending)
    (e : Expr) (c : Cursor) : Prop :=
  c.left ≤ m ∧ c.Past N v (σ.state ps (.operator e))

/-- **The function `expr` reads expressions** where fewer than `n` tokens are left and no expression
has been begun at the present one: it comes to an end, goes onward, and reads what the machine
reads. -/
def Reads (N n : Nat) (v : List SyntaxError × Program) (expr : Nat → Descent Expr) : Prop :=
  ∀ (c : Cursor) (σ : Setting) (ps : List Pending), c.left < n → c.Fresh .expression →
    c.Before N v (σ.state ps .operand) →
    Ends (expr (strictness ps)) c fun e c' =>
      c'.left ≤ c.left ∧ c'.Past N v (σ.state ps (.closer e))

/-- An expression is read after the present token. -/
theorem Reads.after (hexpr : Reads N n v expr) (hne : c.rest ≠ []) (hn : c.left ≤ n)
    (h : c.Past N v (σ.state ps .operand)) :
    Ends (expr (strictness ps)) c.consume fun e c' =>
      c'.left < c.left ∧ c'.Past N v (σ.state ps (.closer e)) := by
  have hlt := Cursor.left_consume_lt hne
  refine (hexpr c.consume σ ps (Nat.lt_of_lt_of_le hlt hn) (h.onward.fresh_consume hne _)
    h.consume).mono ?_
  rintro e c' ⟨hleft, hpast⟩
  exact ⟨Nat.lt_of_le_of_lt hleft hlt, hpast⟩

/-- A token of kind `k` is next and passed, or it is missing. -/
theorem Ends.expect {α : Type} {k : TokenKind} {x y : Descent α} {post : α → Cursor → Prop}
    (hyes : c.peek.kind = k → Ends x c.consume post)
    (hno : c.peek.kind ≠ k → Ends y (c.report (.unexpected k c.peek)) post) :
    Ends (do if ← Descent.expect k then x else y) c post := by
  by_cases hk : c.peek.kind = k
  · have hexpect : Descent.expect k c = some (true, c.consume) := by
      change (if c.peek.kind = k then _ else _ : Descent Bool) c = _
      rw [if_pos hk]
      rfl
    exact .bind_eq hexpect (hyes hk)
  · have hexpect : Descent.expect k c = some (false, c.report (.unexpected k c.peek)) := by
      change (if c.peek.kind = k then _ else _ : Descent Bool) c = _
      rw [if_neg hk]
      rfl
    exact .bind_eq hexpect (hno hk)

/-- What is broken off is an operand. -/
theorem Ends.broken {k : TokenKind} {goal : Goal} (h : c.Past N v (σ.state qs goal))
    (hm : c.left ≤ m)
    (hbroken : advance c.peek qs goal = giveUp (.unexpected k c.peek) c.peek ps) :
    Ends (Descent.broken k) (c.report (.unexpected k c.peek)) (Operand N v m σ ps) :=
  .of_eq rfl ⟨hm, h.report _ (Setting.step_giveUp hbroken)⟩

/-- An expression is read on after the token that is wanted, and broken off at another. -/
theorem Ends.expecting {k : TokenKind} {next : Descent Expr} {goal : Goal}
    (h : c.Past N v (σ.state qs goal)) (hm : c.left ≤ m)
    (hbroken : c.peek.kind ≠ k → advance c.peek qs goal = giveUp (.unexpected k c.peek) c.peek ps)
    (hnext : c.peek.kind = k → Ends next c.consume (Operand N v m σ ps)) :
    Ends (Descent.expecting k next) c (Operand N v m σ ps) :=
  .expect hnext fun hk => .broken h hm (hbroken hk)

/-! ### Statements and blocks -/

variable {outer : List OpenBlock} {before : List Stmt}

/-- A statement is complete with its expression. -/
theorem endStatement_ends {e : Expr} (h : c.Past N v (σ.state [] (.closer e))) :
    Ends endStatement c fun _ c' =>
      c'.left ≤ c.left ∧ c'.Past N v ⟨σ.outer, σ.head.complete e :: σ.before, .ready⟩ := by
  have hready : c.Past N v ⟨σ.outer, σ.head.complete e :: σ.before, .ready⟩ := by
    refine h.congr ?_
    rw [Setting.state, step_inside]
    rfl
  refine .bind_eq rfl ?_
  by_cases hk : c.peek.kind = .semicolon
  · rw [if_pos hk]
    refine .of_eq rfl ⟨c.left_consume_le, hready.consume_read (by simp [hk]) ?_⟩
    simp [step, start, hk]
  · rw [if_neg hk]
    exact .of_eq rfl ⟨Nat.le_refl _, hready⟩

/-- The statement that stands where the machine was about to begin one. -/
def Statement (N : Nat) (v : List SyntaxError × Program) (m : Nat) (outer : List OpenBlock)
    (before : List Stmt) (st : Option Stmt) (c : Cursor) : Prop :=
  c.left ≤ m ∧ c.Past N v ⟨outer, st.toList ++ before, .ready⟩

/-- A binding, of which the machine has read the keyword. -/
theorem binding_ends (hexpr : Reads N n v expr) (hn : c.left ≤ n)
    (h : c.Past N v ⟨outer, before, .bindName c.current⟩) :
    Ends (binding expr) c fun st => Statement N v c.left outer before (some st) := by
  refine .bind_eq rfl (.expect (fun hk => .bind_eq rfl (.expect (fun hk' => ?_) fun hk' => ?_))
    fun hk => ?_)
  · have hassign : c.consume.Past N v ⟨outer, before, .bindAssign c.current (.ofToken c.peek)⟩ :=
      h.consume_read (by simp [hk]) (by simp [step, hk])
    have hoperand : c.consume.consume.Past N v
        (Setting.state ⟨outer, before, .bind c.current (.ofToken c.peek)⟩ [] .operand) :=
      hassign.consume_read (by simp [hk']) (by simp [step, hk', Setting.state])
    have hle := Nat.le_trans c.consume.left_consume_le c.left_consume_le
    have hvalue := hexpr.after (Cursor.rest_consume_ne_nil (by simp [hk'])) (Nat.le_trans hle hn)
      hoperand
    refine .bind_eq rfl (hvalue.bind ?_)
    rintro e c₁ ⟨hleft, hpast⟩
    refine (endStatement_ends hpast).bind ?_
    rintro _ c₂ ⟨hleft', hready⟩
    have hless := Nat.lt_of_le_of_lt hleft' hleft
    exact .pure ⟨Nat.le_trans (Nat.le_of_lt hless) hle, hready⟩
  · have hassign : c.consume.Past N v ⟨outer, before, .bindAssign c.current (.ofToken c.peek)⟩ :=
      h.consume_read (by simp [hk]) (by simp [step, hk])
    refine .of_eq rfl ⟨c.left_consume_le, hassign.report _ ?_⟩
    simp only [step, if_neg hk']
    rfl
  · refine .of_eq rfl ⟨Nat.le_refl _, h.report _ ?_⟩
    simp only [step, if_neg hk]
    rfl

/-- A statement that returns, of which the machine has read the keyword. -/
theorem returning_ends (hexpr : Reads N n v expr) (hne : c.rest ≠ []) (hn : c.left ≤ n)
    (h : c.Past N v (Setting.state ⟨outer, before, .returns c.current⟩ [] .operand)) :
    Ends (returning expr) c fun st => Statement N v c.left outer before (some st) := by
  refine .bind_eq rfl (.bind_eq rfl ((hexpr.after hne hn h).bind ?_))
  rintro e c₁ ⟨hleft, hpast⟩
  refine (endStatement_ends hpast).bind ?_
  rintro _ c₂ ⟨hleft', hready⟩
  exact .pure ⟨Nat.le_trans hleft' (Nat.le_of_lt hleft), hready⟩

/-- A statement that is an expression, of which the machine has read nothing. -/
theorem expressionStatement_ends (hexpr : Reads N n v expr) (hfresh : c.Fresh .expression)
    (hn : c.left < n)
    (h : c.Before N v (Setting.state ⟨outer, before, .expr c.current⟩ [] .operand)) :
    Ends (expressionStatement expr) c fun st => Statement N v c.left outer before (some st) := by
  refine .bind_eq rfl ((hexpr c _ [] hn hfresh h).bind ?_)
  rintro e c₁ ⟨hleft, hpast⟩
  refine (endStatement_ends hpast).bind ?_
  rintro _ c₂ ⟨hleft', hready⟩
  exact .pure ⟨Nat.le_trans hleft' hleft, hready⟩

/-- A statement that begins with the present token.  A closing brace begins none inside a block. -/
theorem statementOf_ends (hexpr : Reads N n v expr) (hne : c.rest ≠ [])
    (hfresh : c.Fresh .expression) (hn : c.left < n)
    (hbrace : c.current.kind = .braceRight → outer = [])
    (h : c.Before N v ⟨outer, before, .ready⟩) :
    Ends (statementOf expr c.current.kind) c (Statement N v c.left outer before) := by
  have heof : c.current.kind ≠ .eof := fun hk => hne (Cursor.kind_current_eq_eof_iff.1 hk)
  have hle := Nat.le_of_lt hn
  unfold statementOf
  split
  · have hk : c.current.kind = .kwLet := ‹_›
    exact (binding_ends hexpr hle (h.read hne (by simp [step, start, hk]))).bind
      fun st c' hst => .pure hst
  · have hk : c.current.kind = .kwReturn := ‹_›
    exact (returning_ends hexpr hne hle
      (h.read hne (by simp [step, start, hk, Setting.state]))).bind fun st c' hst => .pure hst
  · have hk : c.current.kind = .semicolon := ‹_›
    exact .pure ⟨Nat.le_refl _, h.read hne (by simp [step, start, hk])⟩
  · refine (expressionStatement_ends hexpr hfresh hn (h.congr ?_)).bind fun st c' hst => .pure hst
    rw [Setting.step_operand heof]
    simp only [step, start]
    split <;> simp_all [startExpr, Setting.state]

/-- **A statement ends, and is the machine's.** -/
theorem statement_ends (hexpr : Reads N n v expr) (hne : c.rest ≠ []) (hfresh : ∀ r, c.Fresh r)
    (hn : c.left < n) (hbrace : c.current.kind = .braceRight → outer = [])
    (h : c.Before N v ⟨outer, before, .ready⟩) :
    Ends (statement expr) c (Statement N v c.left outer before) :=
  .bind_eq rfl (.bind_eq rfl (statementOf_ends (c := c.enter .statement) hexpr hne
    ((hfresh .expression).enter (by decide)) hn hbrace (h.enter (hfresh .statement))))

/-- A statement may begin, or the text is at its end. -/
def Between (N : Nat) (v : List SyntaxError × Program) (outer : List OpenBlock)
    (before : List Stmt) (c : Cursor) : Prop :=
  c.Before N v ⟨outer, before.reverse, .ready⟩ ∧ (c.rest ≠ [] → ∀ r, c.Fresh r)

/-- Where the machine has read all before a statement, a statement may begin after a token. -/
theorem between_consume (h : c.Past N v ⟨outer, before.reverse, .ready⟩) :
    Between N v outer before c.consume := by
  refine ⟨h.consume, fun hne => h.onward.fresh_consume fun hnil => ?_⟩
  exact hne (by simp [Cursor.consume, hnil])

theorem Between.turned (h : Between N v outer before c) (loop : Loop) {k : Nat} (hk : c.left < k) :
    Between N v outer before (c.turned loop k) :=
  ⟨⟨h.1.onward.turned loop hk, h.1.verdict⟩, h.2⟩

/-- A statement and the token after it are passed, or the text comes to its end. -/
theorem statementAfter_ends (hexpr : Reads N n v expr) (hne : c.rest ≠ []) (hn : c.left < n)
    (hbrace : c.current.kind = .braceRight → outer = []) (h : Between N v outer before c) :
    Ends (statementAfter expr before) c fun sts c' =>
      c'.left < c.left ∧ Between N v outer sts c' := by
  refine (statement_ends hexpr hne (h.2 hne) hn hbrace h.1).bind ?_
  rintro st c₁ ⟨hleft, hpast⟩
  refine .bind_eq rfl (.pure ⟨?_, between_consume ?_⟩)
  · by_cases hend : c₁.rest = []
    · have hpos : 0 < c.left := List.length_pos_iff.2 hne
      simpa [Cursor.left, Cursor.consume, hend] using hpos
    · exact Nat.lt_of_lt_of_le (Cursor.left_consume_lt hend) hleft
  · have hreverse : (before ++ st.toList).reverse = st.toList ++ before.reverse := by
      cases st <;> simp
    exact hreverse ▸ hpast

/-- A block that has been entered, of which the machine has read the first brace. -/
theorem blockAt_ends (hexpr : Reads N n v expr) (hne : c.rest ≠ []) (hn : c.left ≤ n)
    {owner : Owner} {brace : Token}
    (h : c.Past N v ⟨⟨owner, brace, σ.before, σ.head, ps⟩ :: σ.outer, [], .ready⟩) :
    Ends (blockAt expr n brace) c fun b c' =>
      c'.left ≤ c.left ∧ c'.Past N v (σ.state ps (owner.after b)) := by
  have hlt := Cursor.left_consume_lt hne
  refine .bind_eq rfl (.bind (.iterate
    (fun sts c' => c'.left ≤ c.consume.left ∧
      Between N v (⟨owner, brace, σ.before, σ.head, ps⟩ :: σ.outer) sts c')
    ?_ (Nat.lt_of_lt_of_le hlt hn) ⟨Nat.le_refl _, between_consume h⟩) ?_)
  · -- another statement
    rintro sts c₁ ⟨hle, hbetween⟩ hgoes
    obtain ⟨hbrace, heof⟩ := of_decide_eq_true hgoes
    have hne₁ : c₁.rest ≠ [] := fun hnil => heof (Cursor.kind_current_eq_eof_iff.2 hnil)
    have hn₁ : c₁.left < n := Nat.lt_of_le_of_lt hle (Nat.lt_of_lt_of_le hlt hn)
    refine (statementAfter_ends hexpr hne₁ hn₁ (fun hk => absurd hk hbrace) hbetween).mono ?_
    rintro sts' c₂ ⟨hless, hbetween'⟩
    exact ⟨hless, Nat.le_of_lt (Nat.lt_of_lt_of_le hless hle), hbetween'.turned .block hless⟩
  rintro sts c₁ ⟨⟨hle, hbetween⟩, hstop⟩
  have hleft : c₁.left ≤ c.left := Nat.le_trans hle c.left_consume_le
  refine .bind_eq rfl ?_
  by_cases heof : c₁.current.kind = .eof
  · -- the brace is missing at the end of the text
    have hresume : OpenBlock.resume ⟨owner, brace, σ.before, σ.head, ps⟩ σ.outer sts.reverse =
        σ.state ps (owner.after ⟨brace, sts⟩) := by
      simp [OpenBlock.resume, Setting.state]
    rw [if_pos heof]
    refine .bind_eq rfl (.pure ⟨hleft, ?_⟩)
    exact hresume ▸ hbetween.1.unclosed (Cursor.kind_current_eq_eof_iff.1 heof)
  · have hbrace : c₁.current.kind = .braceRight := by
      simpa [heof] using hstop
    rw [if_neg heof]
    refine .pure ⟨hleft, ?_⟩
    have hne₁ : c₁.rest ≠ [] := fun hnil => heof (Cursor.kind_current_eq_eof_iff.2 hnil)
    refine hbetween.1.read hne₁ ?_
    simp [step, start, hbrace, OpenBlock.resume, Setting.state]

/-- **A block ends, and is the machine's**, which has read its first brace. -/
theorem block_ends (hexpr : Reads N n v expr) (hne : c.rest ≠ []) (hfresh : c.Fresh .block)
    (hn : c.left ≤ n) {owner : Owner}
    (h : c.Past N v ⟨⟨owner, c.current, σ.before, σ.head, ps⟩ :: σ.outer, [], .ready⟩) :
    Ends (block expr n) c fun b c' =>
      c'.left ≤ c.left ∧ c'.Past N v (σ.state ps (owner.after b)) :=
  .bind_eq rfl (.bind_eq rfl
    (blockAt_ends (c := c.enter .block) hexpr hne hn (h.enter hfresh)))

/-- A block is read after its brace. -/
theorem Reads.block_after (hexpr : Reads N n v expr) (hn : c.left ≤ n) {owner : Owner}
    (hopen : c.peek.kind = .braceLeft) (h : c.Past N v (σ.state ps (.brace owner))) :
    Ends (block expr n) c.consume fun b c' =>
      c'.left ≤ c.left ∧ c'.Past N v (σ.state ps (owner.after b)) := by
  have heof : c.peek.kind ≠ .eof := by simp [hopen]
  have hle := c.left_consume_le
  have hblock := h.consume_read heof (Setting.step_openBlock (if_pos hopen))
  have hfresh := h.onward.fresh_consume (Cursor.rest_ne_nil heof) .block
  refine (block_ends hexpr (Cursor.rest_consume_ne_nil heof) hfresh (Nat.le_trans hle hn)
    hblock).mono ?_
  rintro b c' ⟨hleft, hpast⟩
  exact ⟨Nat.le_trans hleft hle, hpast⟩

/-! ### Operands -/

theorem Operand.mono {e : Expr} {k : Nat} (h : Operand N v m σ ps e c) (hk : m ≤ k) :
    Operand N v k σ ps e c :=
  ⟨Nat.le_trans h.1 hk, h.2⟩

/-- An operation is complete with its operand. -/
theorem operand_of_closer {p : Pending} {e e' : Expr} (hp : p.operation? e = some e')
    (hm : c.left ≤ m) (h : c.Past N v (σ.state (p :: ps) (.closer e))) :
    Operand N v m σ ps e' c :=
  ⟨hm, h.congr (Setting.step_congr (close_operand hp))⟩

/-- A unary operation, of which the machine has read the operator. -/
theorem unary_ends (hexpr : Reads N n v expr) (hne : c.rest ≠ []) (hn : c.left ≤ n)
    (h : c.Past N v (σ.state (.unary c.current :: ps) .operand)) :
    Ends (unary expr) c (Operand N v c.left σ ps) := by
  refine .bind_eq rfl (.bind_eq rfl ((hexpr.after hne hn h).bind ?_))
  rintro e c₁ ⟨hleft, hpast⟩
  exact .pure (operand_of_closer rfl (Nat.le_of_lt hleft) hpast)

/-- An expression in parentheses, of which the machine has read the first. -/
theorem group_ends (hexpr : Reads N n v expr) (hne : c.rest ≠ []) (hn : c.left ≤ n)
    (h : c.Past N v (σ.state (.group :: ps) .operand)) :
    Ends (group expr) c (Operand N v c.left σ ps) := by
  refine .bind_eq rfl ((hexpr.after hne hn h).bind ?_)
  rintro e c₁ ⟨hleft, hpast⟩
  have hle := Nat.le_of_lt hleft
  refine .expecting hpast hle (fun hk => close_unaccepted rfl (if_neg hk)) fun hk => .pure ⟨?_, ?_⟩
  · exact Nat.le_trans c₁.left_consume_le hle
  · exact hpast.consume_read (by simp [hk]) (Setting.step_stay (close_accepted rfl (if_pos hk)))

/-- A conditional, of which the machine has read the keyword. -/
theorem conditional_ends (hexpr : Reads N n v expr) (hn : c.left ≤ n)
    (h : c.Past N v (σ.state ps (.conditionParen c.current))) :
    Ends (conditional expr n) c (Operand N v c.left σ ps) := by
  refine .bind_eq rfl (.expecting h (Nat.le_refl _) (fun hk => if_neg hk) ?_)
  intro hparen
  have hcondition : c.consume.Past N v (σ.state (.condition c.current :: ps) .operand) :=
    h.consume_read (by simp [hparen]) (Setting.step_stay (if_pos hparen))
  refine .bind_eq rfl ((hexpr.after (Cursor.rest_consume_ne_nil (by simp [hparen]))
    (Nat.le_trans c.left_consume_le hn) hcondition).bind ?_)
  rintro e c₁ ⟨hleft, hpast⟩
  have hle₁ : c₁.left ≤ c.left := Nat.le_trans (Nat.le_of_lt hleft) c.left_consume_le
  refine .expecting hpast hle₁ (fun hk => close_unaccepted rfl (if_neg hk)) ?_
  intro hclose
  have hbrace : c₁.consume.Past N v (σ.state ps (.brace (.consequence c.current e))) :=
    hpast.consume_read (by simp [hclose]) (Setting.step_stay (close_accepted rfl (if_pos hclose)))
  have hle₂ := Nat.le_trans c₁.left_consume_le hle₁
  refine .expecting hbrace hle₂ (fun hk => if_neg hk) ?_
  intro hopen
  refine (hexpr.block_after (Nat.le_trans hle₂ hn) hopen hbrace).bind ?_
  rintro yes c₂ ⟨hleft₂, hpast₂⟩
  have hle₃ := Nat.le_trans hleft₂ hle₂
  refine .bind_eq rfl ?_
  by_cases helse : c₂.peek.kind = .kwElse
  · rw [if_pos helse]
    have hbrace' : c₂.consume.Past N v (σ.state ps (.brace (.alternative c.current e yes))) :=
      hpast₂.consume_read (by simp [helse]) (Setting.step_stay (if_pos helse))
    have hle₄ := Nat.le_trans c₂.left_consume_le hle₃
    refine .bind_eq rfl (.expecting hbrace' hle₄ (fun hk => if_neg hk) ?_)
    intro hopen'
    refine (hexpr.block_after (Nat.le_trans hle₄ hn) hopen' hbrace').bind ?_
    rintro no c₃ ⟨hleft₃, hpast₃⟩
    exact .pure ⟨Nat.le_trans hleft₃ hle₄, hpast₃⟩
  · rw [if_neg helse]
    exact .pure ⟨hle₃, hpast₂.congr (Setting.step_congr (if_neg helse))⟩

/-- What becomes of a list: it goes on as the machine does in the state `next`, or a token is
missing in it, and what is broken off is an operand. -/
def Listed {α : Type} (N : Nat) (v : List SyntaxError × Program) (m : Nat) (σ : Setting)
    (ps : List Pending) (next : α → Goal) : Except TokenKind α → Cursor → Prop
  | .ok items, c => c.left ≤ m ∧ c.Past N v (σ.state ps (next items))
  | .error k, c => Operand N v m σ ps (SyntaxError.unexpected k c.peek).node c

variable {α : Type} {next : α → Goal}

/-- A token is missing in a list. -/
theorem listed_error {k : TokenKind} {goal : Goal} (hm : c.left ≤ m)
    (h : c.Past N v (σ.state qs goal))
    (hbroken : advance c.peek qs goal = giveUp (.unexpected k c.peek) c.peek ps) :
    Listed N v m σ ps next (.error k) (c.report (.unexpected k c.peek)) :=
  ⟨hm, h.report _ (Setting.step_giveUp hbroken)⟩

theorem Listed.turned {r : Except TokenKind α} (h : Listed N v m σ ps next r c) (loop : Loop)
    {k : Nat} (hk : c.left < k) : Listed N v m σ ps next r (c.turned loop k) := by
  cases r with
  | ok items => exact ⟨h.1, h.2.turned loop hk⟩
  | error k => exact ⟨h.1, h.2.turned loop hk⟩

/-- A list ends with its parenthesis. -/
theorem closing_ends {items : α} {goal : Goal} (hm : c.left ≤ m) (h : c.Past N v (σ.state qs goal))
    (hclose : c.peek.kind = .parenRight → advance c.peek qs goal = ([], .stay ps (next items)))
    (hbroken : c.peek.kind ≠ .parenRight →
      advance c.peek qs goal = giveUp (.unexpected .parenRight c.peek) c.peek ps) :
    Ends (closing items) c (Listed N v m σ ps next) := by
  refine .expect (fun hk => .pure ⟨Nat.le_trans c.left_consume_le hm, ?_⟩) fun hk => .pure ?_
  · exact h.consume_read (by simp [hk]) (Setting.step_stay (hclose hk))
  · exact listed_error hm h (hbroken hk)

/-- After a list an expression is read on, if no token was missing. -/
theorem withList_ends {r : Except TokenKind α} {onward : α → Descent Expr}
    (h : Listed N v m σ ps next r c)
    (hnext : ∀ items, c.left ≤ m → c.Past N v (σ.state ps (next items)) →
      Ends (onward items) c (Operand N v m σ ps)) :
    Ends (withList onward r) c (Operand N v m σ ps) := by
  cases r with
  | ok items => exact hnext items h.1 h.2
  | error k => exact .of_eq rfl h

/-- Another parameter, before which the machine has read none of its comma. -/
theorem parameterAfter_ends {token : Token} {xs : List Ident} (hcomma : c.peek.kind = .comma)
    (hm : c.left ≤ m) (h : c.Past N v (σ.state ps (.parametersEnd token xs))) :
    Ends (parameterAfter (.ok xs)) c fun r c' =>
      c'.left < c.left ∧ Listed N v m σ ps (.parametersEnd token) r c' := by
  have hlt := Cursor.left_consume_lt (c := c) (Cursor.rest_ne_nil (by simp [hcomma]))
  have hle := Nat.le_trans c.left_consume_le hm
  have hparameter : c.consume.Past N v (σ.state ps (.parameter token xs)) :=
    h.consume_read (by simp [hcomma]) (Setting.step_stay (if_pos hcomma))
  refine .bind_eq rfl (.expect (fun hk => .bind_eq rfl (.pure ⟨?_, ?_, ?_⟩))
    fun hk => .pure ⟨hlt, ?_⟩)
  · exact Nat.lt_of_le_of_lt c.consume.left_consume_le hlt
  · exact Nat.le_trans c.consume.left_consume_le hle
  · exact hparameter.consume_read (by simp [hk]) (Setting.step_stay (if_pos hk))
  · exact listed_error hle hparameter (if_neg hk)

/-- The parameters of a function, of which the machine has read the parenthesis. -/
theorem parameters_ends {token : Token} (hn : c.left ≤ n)
    (h : c.Past N v (σ.state ps (.firstParameter token))) :
    Ends (parameters n) c
      (Listed N v c.left σ ps fun xs => .brace (.body token xs)) := by
  refine .bind_eq rfl ?_
  by_cases hclose : c.peek.kind = .parenRight
  · rw [if_pos hclose]
    refine .bind_eq rfl (.pure ⟨c.left_consume_le, ?_⟩)
    exact h.consume_read (by simp [hclose]) (Setting.step_stay (if_pos hclose))
  · rw [if_neg hclose]
    refine .expect (fun hk => .bind_eq rfl ?_) fun hk => .pure ?_
    · have hfirst : c.consume.Past N v (σ.state ps (.parametersEnd token [.ofToken c.peek])) :=
        h.consume_read (by simp [hk])
          (Setting.step_stay ((if_neg hclose).trans (if_pos hk)))
      have hlt := Cursor.left_consume_lt (c := c) (Cursor.rest_ne_nil (by simp [hk]))
      refine .bind (.iterate (Listed N v c.left σ ps (.parametersEnd token)) ?_
        (Nat.lt_of_lt_of_le hlt hn) ⟨c.left_consume_le, hfirst⟩) ?_
      · intro r c₁ hr hgoes
        obtain ⟨hok, hcomma⟩ := Bool.and_eq_true_iff.1 hgoes
        cases r with
        | error k => cases hok
        | ok xs =>
            refine (parameterAfter_ends (of_decide_eq_true hcomma) hr.1 hr.2).mono ?_
            rintro r' c₂ ⟨hless, hr'⟩
            exact ⟨hless, hr'.turned .parameters hless⟩
      · rintro r c₁ ⟨hr, hstop⟩
        cases r with
        | error k => exact .pure hr
        | ok xs =>
            have hcomma : c₁.peek.kind ≠ .comma := of_decide_eq_false hstop
            refine closing_ends hr.1 hr.2 (fun hk => ?_) fun hk => ?_
            · exact (if_neg hcomma).trans (if_pos hk)
            · exact (if_neg hcomma).trans (if_neg hk)
    · exact listed_error (Nat.le_refl _) h ((if_neg hclose).trans (if_neg hk))

/-- A function, of which the machine has read the keyword. -/
theorem function_ends (hexpr : Reads N n v expr) (hn : c.left ≤ n)
    (h : c.Past N v (σ.state ps (.parametersParen c.current))) :
    Ends (function expr n) c (Operand N v c.left σ ps) := by
  refine .bind_eq rfl (.expecting h (Nat.le_refl _) (fun hk => if_neg hk) ?_)
  intro hparen
  have hfirst : c.consume.Past N v (σ.state ps (.firstParameter c.current)) :=
    h.consume_read (by simp [hparen]) (Setting.step_stay (if_pos hparen))
  have hle := c.left_consume_le
  refine (parameters_ends (Nat.le_trans hle hn) hfirst).bind ?_
  intro r c₁ hr
  refine (withList_ends hr ?_).mono fun e c' he => he.mono hle
  intro xs hle₁ hbrace
  refine .expecting hbrace hle₁ (fun hk => if_neg hk) ?_
  intro hopen
  refine (hexpr.block_after (Nat.le_trans hle₁ (Nat.le_trans hle hn)) hopen hbrace).bind ?_
  rintro b c₂ ⟨hleft, hpast⟩
  exact .pure ⟨Nat.le_trans hleft hle₁, hpast⟩

/-- What the machine makes of the first token of an operand. -/
def Beginning.begun (t : Token) (ps : List Pending) :
    Beginning → List SyntaxError × List Pending × Goal
  | .identifier => ([], ps, .operator (.ident (.ofToken t)))
  | .integer => ((Parser.integer t).1, ps, .operator (Parser.integer t).2)
  | .boolean => ([], ps, .operator (.boolean t (decide (t.kind = .kwTrue))))
  | .unary => ([], .unary t :: ps, .operand)
  | .group => ([], .group :: ps, .operand)
  | .conditional => ([], ps, .conditionParen t)
  | .function => ([], ps, .parametersParen t)

theorem begin_eq_begun {t : Token} {b : Beginning} (h : beginning? t.kind = some b) :
    begin t ps = b.begun t ps := by
  unfold beginning? at h
  split at h <;> cases h <;> simp [begin, Beginning.begun, *]

/-- An integer literal, of which the machine has read nothing. -/
theorem integer_ends (hne : c.rest ≠ []) (h : c.Before N v (σ.state ps .operand))
    (hstep : step (σ.state ps .operand) c.current =
      ((Parser.integer c.current).1, σ.state ps (.operator (Parser.integer c.current).2))) :
    Ends integer c (Operand N v c.left σ ps) := by
  refine .bind_eq rfl ?_
  cases hdigits : Integer.ofDigits? c.current.literal.toList with
  | some i =>
      refine .pure ⟨Nat.le_refl _, h.read hne (hstep.trans ?_)⟩
      simp [Parser.integer, hdigits]
  | none =>
      refine .bind_eq rfl (.pure ⟨Nat.le_refl _, h.read_report hne (hstep.trans ?_)⟩)
      simp [Parser.integer, hdigits]

/-- **An operand ends, and is the machine's.** -/
theorem operand_ends (hexpr : Reads N n v expr) (hne : c.rest ≠ []) (hn : c.left ≤ n)
    {b : Beginning} (hb : beginning? c.current.kind = some b)
    (h : c.Before N v (σ.state ps .operand)) :
    Ends (operand expr n b) c (Operand N v c.left σ ps) := by
  have heof : c.current.kind ≠ .eof := fun hk => hne (Cursor.kind_current_eq_eof_iff.1 hk)
  have hstep : step (σ.state ps .operand) c.current = _ := Setting.step_operand heof
  rw [begin_eq_begun hb] at hstep
  cases b with
  | identifier => exact .of_eq rfl ⟨Nat.le_refl _, h.read hne hstep⟩
  | integer => exact integer_ends hne h hstep
  | boolean => exact .of_eq rfl ⟨Nat.le_refl _, h.read hne hstep⟩
  | unary => exact unary_ends hexpr hne hn (h.read hne hstep)
  | group => exact group_ends hexpr hne hn (h.read hne hstep)
  | conditional => exact conditional_ends hexpr hn (h.read hne hstep)
  | function => exact function_ends hexpr hn (h.read hne hstep)

/-! ### Operations -/

/-- A binary operation, of which the machine has read the operator. -/
theorem binary_ends (hexpr : Reads N n v expr) (hne : c.rest ≠ []) (hn : c.left ≤ n) {l : Expr}
    (h : c.Past N v (σ.state (.binary l c.current :: ps) .operand)) :
    Ends (binary expr l) c (Operand N v c.left σ ps) := by
  refine .bind_eq rfl (.bind_eq rfl ((hexpr.after hne hn h).bind ?_))
  rintro e c₁ ⟨hleft, hpast⟩
  exact .pure (operand_of_closer rfl (Nat.le_of_lt hleft) hpast)

/-- The arguments that have been read, the last of which the machine has not closed. -/
def Arguments (N : Nat) (v : List SyntaxError × Program) (m : Nat) (σ : Setting) (ps : List Pending)
    (token : Token) (callee : Expr) (es : List Expr) (c : Cursor) : Prop :=
  ∃ before e, es = before ++ [e] ∧ c.left ≤ m ∧
    c.Past N v (σ.state (.argument token callee before :: ps) (.closer e))

/-- Another argument, before which the machine has read none of its comma. -/
theorem argumentAfter_ends (hexpr : Reads N n v expr) (hm : m ≤ n) {token : Token} {callee : Expr}
    {es : List Expr} (hcomma : c.peek.kind = .comma)
    (h : Arguments N v m σ ps token callee es c) :
    Ends (argumentAfter expr es) c fun es' c' =>
      c'.left < c.left ∧ Arguments N v m σ ps token callee es' c' := by
  obtain ⟨before, e, rfl, hle, hpast⟩ := h
  have hlt := Cursor.left_consume_lt (c := c) (Cursor.rest_ne_nil (by simp [hcomma]))
  have hargument : c.consume.Past N v
      (σ.state (.argument token callee (before ++ [e]) :: ps) .operand) :=
    hpast.consume_read (by simp [hcomma]) (Setting.step_stay (close_accepted rfl (if_pos hcomma)))
  refine .bind_eq rfl (.bind_eq rfl ((hexpr.after (Cursor.rest_consume_ne_nil (by simp [hcomma]))
    (Nat.le_trans c.left_consume_le (Nat.le_trans hle hm)) hargument).bind ?_))
  rintro e' c₁ ⟨hleft, hpast'⟩
  have hless := Nat.lt_trans hleft hlt
  exact .pure ⟨hless, _, e', rfl, Nat.le_trans (Nat.le_of_lt hless) hle, hpast'⟩

/-- The arguments of a call, of which the machine has read the parenthesis. -/
theorem arguments_ends (hexpr : Reads N n v expr) (hne : c.rest ≠ []) (hn : c.left ≤ n)
    {token : Token} {callee : Expr} (h : c.Past N v (σ.state ps (.arguments token callee))) :
    Ends (arguments expr n) c
      (Listed N v c.left σ ps fun es => .operator (.call token callee es)) := by
  refine .bind_eq rfl ?_
  by_cases hclose : c.peek.kind = .parenRight
  · rw [if_pos hclose]
    refine .bind_eq rfl (.pure ⟨c.left_consume_le, ?_⟩)
    exact h.consume_read (by simp [hclose]) (Setting.step_stay (if_pos hclose))
  · rw [if_neg hclose]
    have hfirst : c.Past N v (σ.state (.argument token callee [] :: ps) .operand) :=
      h.congr (Setting.step_congr (if_neg hclose))
    refine .bind_eq rfl ((hexpr.after hne hn hfirst).bind ?_)
    rintro e c₁ ⟨hleft, hpast⟩
    refine .bind (.iterate (Arguments N v c.left σ ps token callee) ?_
      (Nat.lt_of_lt_of_le hleft hn) ⟨[], e, rfl, Nat.le_of_lt hleft, hpast⟩) ?_
    · intro es c₂ hes hgoes
      refine (argumentAfter_ends hexpr hn (of_decide_eq_true hgoes) hes).mono ?_
      rintro es' c₃ ⟨hless, before, e', hes', hle, hpast'⟩
      exact ⟨hless, before, e', hes', hle, hpast'.turned .arguments hless⟩
    · rintro es c₂ ⟨⟨before, e', rfl, hle, hpast'⟩, hstop⟩
      have hcomma : c₂.peek.kind ≠ .comma := of_decide_eq_false hstop
      refine closing_ends hle hpast' (fun hk => ?_) fun hk => ?_
      · exact close_accepted rfl ((if_neg hcomma).trans (if_pos hk))
      · exact close_unaccepted rfl ((if_neg hcomma).trans (if_neg hk))

/-- A call, of which the machine has read the parenthesis. -/
theorem call_ends (hexpr : Reads N n v expr) (hne : c.rest ≠ []) (hn : c.left ≤ n) {callee : Expr}
    (h : c.Past N v (σ.state ps (.arguments c.current callee))) :
    Ends (call expr n callee) c (Operand N v c.left σ ps) := by
  refine .bind_eq rfl ((arguments_ends hexpr hne hn h).bind ?_)
  intro r c₁ hr
  exact withList_ends hr fun es hle hpast => .pure ⟨hle, hpast⟩

/-- **An operation ends, and is the machine's**, if the next token continues the expression. -/
theorem continued_ends (hexpr : Reads N n v expr) (hn : c.left ≤ n + 1) {l : Expr}
    (hcontinues : continues (strictness ps) c = true)
    (h : c.Past N v (σ.state ps (.operator l))) :
    Ends (continued expr n l) c fun l' c' => c'.left < c.left ∧ Operand N v c.left σ ps l' c' := by
  obtain ⟨htighter, hsome⟩ := Bool.and_eq_true_iff.1 hcontinues
  obtain ⟨-, hlt⟩ := of_decide_eq_true htighter
  have heof : c.peek.kind ≠ .eof := by
    intro hk
    simp [hk, TokenKind.precedence] at hlt
  have hne := Cursor.rest_consume_ne_nil heof
  have hless := Cursor.left_consume_lt (Cursor.rest_ne_nil heof)
  have hle : c.consume.left ≤ n := Nat.le_of_lt_succ (Nat.lt_of_lt_of_le hless hn)
  have hpost {e : Expr} {c' : Cursor} (he : Operand N v c.consume.left σ ps e c') :
      c'.left < c.left ∧ Operand N v c.left σ ps e c' :=
    ⟨Nat.lt_of_le_of_lt he.1 hless, he.mono (Nat.le_of_lt hless)⟩
  refine .bind_eq rfl (.bind_eq rfl ?_)
  rw [Cursor.current_consume]
  cases hcase : continuation? c.peek.kind with
  | none => simp [hcase] at hsome
  | some k =>
      cases k with
      | binary =>
          have hparen : c.peek.kind ≠ .parenLeft := by
            intro hk
            simp [hk, continuation?] at hcase
          have hshift : advance c.peek ps (.operator l) =
              ([], .stay (.binary l c.peek :: ps) .operand) :=
            (close_of_lt hlt).trans (congrArg _ (if_neg hparen))
          refine (binary_ends hexpr hne hle ?_).mono fun _ _ => hpost
          exact h.consume_read heof (Setting.step_stay hshift)
      | call =>
          have hparen : c.peek.kind = .parenLeft := by
            unfold continuation? at hcase
            split at hcase <;> simp_all
          have hshift : advance c.peek ps (.operator l) = ([], .stay ps (.arguments c.peek l)) :=
            (close_of_lt hlt).trans (congrArg _ (if_pos hparen))
          refine (call_ends hexpr hne hle ?_).mono fun _ _ => hpost
          exact h.consume_read heof (Setting.step_stay hshift)

/-- Where an expression is not continued, no operator takes it. -/
theorem closer_of_not_continues {l : Expr} (hcontinues : continues (strictness ps) c = false)
    (h : c.Past N v (σ.state ps (.operator l))) : c.Past N v (σ.state ps (.closer l)) := by
  refine h.congr (Setting.step_congr (close_of_not_lt fun hlt => ?_))
  rcases Bool.and_eq_false_iff.1 hcontinues with hstop | hstop
  · refine of_decide_eq_false hstop ⟨fun hk => ?_, hlt⟩
    simp [hk, TokenKind.precedence] at hlt
  · cases hk : c.peek.kind <;> simp_all [continuation?, TokenKind.precedence]

/-! ### Expressions and programs -/

/-- The machine passes a token that begins no operand, unless it is the end token. -/
theorem closer_of_no_beginning (hb : beginning? c.current.kind = none)
    (h : c.Before N v (σ.state ps .operand)) :
    (c.report (.noOperand c.current)).Past N v
      (σ.state ps (.closer (SyntaxError.noOperand c.current).node)) := by
  by_cases hnil : c.rest = []
  · have hpeek : c.peek = c.current := by simp [Cursor.peek, Cursor.current, hnil]
    have heof : c.peek.kind = .eof := hpeek ▸ Cursor.kind_current_eq_eof_iff.2 hnil
    have hoperator : (c.report (.noOperand c.peek)).Past N v
        (σ.state ps (.operator (SyntaxError.noOperand c.peek).node)) :=
      (h.past_end hnil).report _ (Setting.step_giveUp (if_pos heof))
    rw [← hpeek]
    refine hoperator.congr (Setting.step_congr (close_of_not_lt ?_))
    change ¬ strictness ps < c.peek.kind.precedence
    simp [heof, TokenKind.precedence]
  · have heof : c.current.kind ≠ .eof := fun hk => hnil (Cursor.kind_current_eq_eof_iff.1 hk)
    refine h.read_report hnil ?_
    rw [Setting.step_operand heof]
    cases hk : c.current.kind <;> simp_all [begin, beginning?]

/-- **Expressions end, and are the machine's**, where the bound exceeds the tokens left. -/
theorem expression_reads (N : Nat) (v : List SyntaxError × Program) (n : Nat) :
    Reads N n v (expression n) := by
  -- the bound is less by one for what an expression contains, and a token has been passed before it
  induction n with
  | zero => exact fun c σ ps hn => absurd hn (Nat.not_lt_zero _)
  | succ n ih =>
      intro c σ ps hn hfresh h
      have hentered := h.enter hfresh
      refine .bind_eq rfl (.bind_eq rfl ?_)
      cases hb : beginning? (c.enter .expression).current.kind with
      | none =>
          exact .bind_eq rfl (.pure ⟨Nat.le_refl _, closer_of_no_beginning hb hentered⟩)
      | some b =>
          have hne : (c.enter .expression).rest ≠ [] := by
            intro hnil
            rw [Cursor.kind_current_eq_eof_iff.2 hnil] at hb
            cases hb
          have hle := Nat.le_of_lt_succ hn
          refine (operand_ends ih hne hle hb hentered).bind ?_
          intro l c₁ hl
          refine Ends.mono (.iterate (Operand N v c.left σ ps) ?_
            (Nat.lt_of_le_of_lt hl.1 hn) hl) ?_
          · -- each operation takes what has been read as its left operand
            intro l' c₂ hl' hgoes
            have hn₂ : c₂.left ≤ n + 1 := Nat.le_trans hl'.1 (Nat.le_of_lt hn)
            refine (continued_ends ih hn₂ hgoes hl'.2).mono ?_
            rintro l'' c₃ ⟨hless, hl''⟩
            exact ⟨hless, Nat.le_trans hl''.1 hl'.1, hl''.2.turned .operators hless⟩
          · rintro e c₂ ⟨he, hstop⟩
            exact ⟨he.1, closer_of_not_continues hstop he.2⟩

/-- **A program ends, and is the machine's**, at the end of the text. -/
theorem program_ends {bound : Nat} (hbound : c.left < bound)
    (h : Between N v [] [] c) :
    Ends (program bound) c fun p c' =>
      (c'.errors, p) = v ∧ c'.rest = [] ∧ c'.Onward N := by
  refine .bind (.iterate (fun sts c' => c'.left ≤ c.left ∧ Between N v [] sts c') ?_ hbound
    ⟨Nat.le_refl _, h⟩) ?_
  · rintro sts c₁ ⟨hle, hbetween⟩ hgoes
    have heof : c₁.current.kind ≠ .eof := of_decide_eq_true hgoes
    have hne : c₁.rest ≠ [] := fun hnil => heof (Cursor.kind_current_eq_eof_iff.2 hnil)
    refine (statementAfter_ends (expression_reads N v bound) hne (Nat.lt_of_le_of_lt hle hbound)
      (fun _ => rfl) hbetween).mono ?_
    rintro sts' c₂ ⟨hless, hbetween'⟩
    exact ⟨hless, Nat.le_trans (Nat.le_of_lt hless) hle, hbetween'.turned .program hless⟩
  · rintro sts c₁ ⟨⟨-, hready, -⟩, hstop⟩
    have hnil : c₁.rest = [] := by
      refine Cursor.kind_current_eq_eof_iff.1 (Decidable.byContradiction fun hk => ?_)
      exact of_decide_eq_false hstop hk
    refine .pure ⟨?_, hnil, hready.onward⟩
    rw [← hready.verdict, Cursor.verdict, hnil, Parser.complete_nil_ready c₁.kind_eof]
    simp

/-- **The parser comes to an end on every text, and never goes back.**  It reads the program that
the text spells, records the same errors, and stops at the end token with no tokens left.  No
function has been entered twice at one token; a token is counted by how many are left from it on,
the end token as `0`.  And each turn of a loop has passed a token. -/
theorem program_onward (source : String) {bound : Nat}
    (hbound : (Tokens.ofString source).body.length < bound) :
    ∃ c : Cursor,
      program bound (.ofString source) = some ((Parsed.ofString source).program, c) ∧
      c.errors = (Parsed.ofString source).errors ∧
      c.rest = [] ∧ c.current.kind = .eof ∧
      (∀ r, (c.entered r).Pairwise (· < ·) ∧
        ∀ k ∈ c.entered r, k ≤ (Tokens.ofString source).body.length) ∧
      ∀ t ∈ c.turns, t.after < t.before := by
  have hstart : Between (Cursor.ofString source).left
      ((Parsed.ofString source).errors, (Parsed.ofString source).program) [] []
      (.ofString source) := by
    refine ⟨⟨⟨Nat.le_refl _, ?_, ?_, ?_⟩, rfl⟩, ?_⟩
    · exact fun r => List.Pairwise.nil
    · exact fun r k hk => absurd hk List.not_mem_nil
    · exact fun t ht => absurd ht List.not_mem_nil
    · exact fun _ r k hk => absurd hk List.not_mem_nil
  obtain ⟨p, c, hrun, hverdict, hnil, honward⟩ := program_ends hbound hstart
  obtain ⟨herrors, rfl⟩ := Prod.ext_iff.1 hverdict
  exact ⟨c, hrun, herrors, hnil, Cursor.kind_current_eq_eof_iff.2 hnil,
    fun r => ⟨honward.pairwise r, fun k hk => (honward.entered r k hk).2⟩, honward.turns⟩

/-- The parser comes to the end of a text of which hardly anything is correct, and begins
expressions at seven of its tokens, the last of them the end token. -/
theorem program_onward_malformed :
    (Tokens.ofString "let = (fn(x y + f(1,").body.length < 13 ∧
      ∃ p c, program 13 (.ofString "let = (fn(x y + f(1,") = some (p, c) ∧ c.errors.length = 6 ∧
        c.rest = [] ∧ c.entered .expression = [0, 2, 4, 6, 9, 10, 11] ∧
        (c.entered .expression).Pairwise (· < ·) := by
  have hlength : (Tokens.ofString "let = (fn(x y + f(1,").body.length < 13 := by decide +kernel
  have herrors : (Parsed.ofString "let = (fn(x y + f(1,").errors.length = 6 := by decide +kernel
  have hbegun : (program 13 (.ofString "let = (fn(x y + f(1,")).map (·.2.entered .expression) =
      some [0, 2, 4, 6, 9, 10, 11] := by decide +kernel
  obtain ⟨c, hrun, hc, hnil, -, hentered, -⟩ := program_onward "let = (fn(x y + f(1," hlength
  rw [hrun] at hbegun
  exact ⟨hlength, _, c, hrun, hc ▸ herrors, hnil, Option.some.inj hbegun, (hentered .expression).1⟩

end Descent

end LetFn
