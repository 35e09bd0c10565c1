/-
**Precedence is kept.**

Reading a chain, the parser keeps the right edge of the tree as operations that wait for their right
operands, the innermost first, each binding more strictly than the one around it.  An operator
completes those that bind at least as strictly as it does, and takes what comes of them as its left
operand.  So whatever ranked tree a chain is spelled by, this is the tree that the parser comes to:
and then there is one such tree alone.

Main definitions:

* `LetFn.Parser.Completes` — what pending operations make of their last operand;
* `LetFn.Expr.ReadFrom` — **the parser comes to the tree when it reads the tokens**.

Main results:

* `LetFn.Parser.close_completes` — a token that binds no more strictly completes pending operations;
* `LetFn.Expr.readFrom` — **a ranked tree is read from the chain that it spells**;
* `LetFn.Parsed.ofTokens_chain` — **a chain is read as the one ranked tree that spells it**.
-/

import LetFn.Proofs.Render.Reread
import LetFn.Proofs.Syntax.Chain

set_option relaxedAutoImplicit false
set_option autoImplicit false

namespace LetFn

open LetFn.Parser

/-! ### Pending operations -/

namespace Parser

/-- **The pending operations, innermost first, make the expression `whole` of the operand `e`.** -/
inductive Completes : List Pending → Expr → Expr → Prop
  | nil (e : Expr) : Completes [] e e
  | cons {p : Pending} {ps : List Pending} {e e' whole : Expr} :
      p.operation? e = some e' → Completes ps e' whole → Completes (p :: ps) e whole

/-- One operation completes its operand. -/
theorem Completes.single {p : Pending} {e e' : Expr} (h : p.operation? e = some e') :
    Completes [p] e e' :=
  .cons h (.nil e')

theorem Completes.append {ps qs : List Pending} {e e' whole : Expr} (h : Completes ps e e')
    (h' : Completes qs e' whole) : Completes (ps ++ qs) e whole := by
  induction h with
  | nil => exact h'
  | cons hp _ ih => exact .cons hp (ih h')

/-- **A token that binds no more strictly completes pending operations.** -/
theorem close_completes {t : Token} {ps : List Pending} {e whole : Expr}
    (h : Completes ps e whole) (hps : ∀ p ∈ ps, t.kind.precedence ≤ p.strictness)
    (qs : List Pending) : close t true (ps ++ qs) e = close t true qs whole := by
  induction h with
  | nil => rfl
  | @cons p ps e e' whole hp _ ih =>
      obtain ⟨hle, hps⟩ := List.forall_mem_cons.1 hps
      have hnot : ¬ strictness (p :: (ps ++ qs)) < t.kind.precedence := Nat.not_lt.2 hle
      rw [List.cons_append, close, if_neg (fun h => hnot h.2), hp]
      exact ih hps

/-- An operator that binds more strictly than what waits for the expression takes it. -/
theorem close_binaryOperator {t : Token} (ht : t.kind ∈ Grammar.binaryOperators) {ps : List Pending}
    (hps : strictness ps < t.kind.precedence) (e : Expr) :
    close t true ps e = ([], .stay (.binary e t :: ps) .operand) := by
  obtain ⟨-, hparen⟩ := (Grammar.mem_binaryOperators_iff _).1 ht
  cases ps with
  | nil => simp [close, hps, shift, hparen]
  | cons p ps => simp [close, hps, shift, hparen]

end Parser

/-- No binary operator binds as strictly as a unary one. -/
theorem Grammar.precedence_lt {k : TokenKind} (h : k ∈ binaryOperators) :
    k.precedence < unaryPrecedence := by
  revert h
  cases k <;> decide

/-! ### Reading a tree -/

/-- How strictly the outermost operator of an expression binds; what is no operation binds stricter
than all of them. -/
def Expr.rank : Expr → Nat
  | .binary _ op _ => op.kind.precedence
  | .unary _ _ => unaryPrecedence
  | _ => 6

/-- An expression binds at least as strictly as its operator does, if it is an operation on two
operands. -/
theorem Expr.le_rank {e : Expr} {n : Nat} (hn : n ≤ unaryPrecedence)
    (h : ∀ op ∈ e.infixOperator?, n ≤ op.kind.precedence) : n ≤ e.rank := by
  cases e with
  | binary l op r => exact h op rfl
  | unary => exact hn
  | ident | integer | boolean | ifElse | function | call | error =>
      exact hn.trans (show unaryPrecedence ≤ 6 by decide)

/-- **Where an operand is wanted, the parser reads the tokens without an error, and then what waits
for the last operand makes up the expression.**  No operation that waits there binds less strictly
than the expression, and what waited before waits on. -/
def Expr.ReadFrom (e : Expr) (ts : List Token) : Prop :=
  ∀ (outer : List OpenBlock) (before : List Stmt) (head : Head) (ps : List Pending),
    strictness ps < 6 → (∀ op ∈ e.infixOperator?, strictness ps < op.kind.precedence) →
    ∃ ops last, Completes ops last e ∧ (∀ p ∈ ops, e.rank ≤ p.strictness ∧ p.strictness < 6) ∧
      run ⟨outer, before, .inside head ps .operand⟩ ts =
        ([], ⟨outer, before, .inside head (ops ++ ps) (.operator last)⟩)

/-- Nothing waits for an expression that is no operation. -/
theorem Expr.ReadFrom.of_run {e : Expr} {ts : List Token}
    (h : ∀ (outer : List OpenBlock) (before : List Stmt) (head : Head) (ps : List Pending),
      strictness ps < 6 → run ⟨outer, before, .inside head ps .operand⟩ ts =
        ([], ⟨outer, before, .inside head ps (.operator e)⟩)) : e.ReadFrom ts :=
  fun outer before head ps hps _ =>
    ⟨[], e, .nil e, fun _ hp => absurd hp List.not_mem_nil, h outer before head ps hps⟩

/-- What is called or stands by itself is read as a whole. -/
theorem Expr.ReadFrom.run_eq {e : Expr} {ts : List Token} (h : e.ReadFrom ts)
    (hbinary : e.infixOperator? = none) (hunary : e.prefixOperator? = none)
    (outer : List OpenBlock) (before : List Stmt) (head : Head) {ps : List Pending}
    (hps : strictness ps < 6) : run ⟨outer, before, .inside head ps .operand⟩ ts =
      ([], ⟨outer, before, .inside head ps (.operator e)⟩) := by
  obtain ⟨ops, last, hops, hrank, hrun⟩ := h outer before head ps hps (by simp [hbinary])
  have hsix : e.rank = 6 := by
    cases e with
    | unary => cases hunary
    | binary => cases hbinary
    | ident | integer | boolean | ifElse | function | call | error => rfl
  cases hops with
  | nil => exact hrun
  | @cons p ps e e' whole hp hops =>
      obtain ⟨hle, hlt⟩ := hrank p List.mem_cons_self
      omega

theorem Expr.readFrom_ident {x : Ident} (hkind : x.token.kind = .identifier)
    (hx : x = .ofToken x.token) : (Expr.ident x).ReadFrom [x.token] := by
  refine .of_run fun outer before head ps _ => ?_
  rw [run_singleton, step_inside]
  simp [advance, operand, begin, hkind, carry, ← hx]

theorem Expr.readFrom_integer {t : Token} {n : Int64} (hkind : t.kind = .integer)
    (hn : Integer.ofDigits? t.literal.toList = some n) : (Expr.integer t n).ReadFrom [t] := by
  refine .of_run fun outer before head ps _ => ?_
  rw [run_singleton, step_inside]
  simp [advance, operand, begin, hkind, carry, Parser.integer, hn]

theorem Expr.readFrom_boolean {t : Token} {b : Bool} (hkind : t.kind = boolKind b) :
    (Expr.boolean t b).ReadFrom [t] := by
  refine .of_run fun outer before head ps _ => ?_
  rw [run_singleton, step_inside]
  cases b <;> simp [advance, operand, begin, hkind, boolKind, carry]

theorem Expr.ReadFrom.unary {e : Expr} {ts : List Token} (he : e.ReadFrom ts)
    (hranked : e.infixOperator? = none) {op : Token} (hop : op.kind ∈ Grammar.unaryOperators) :
    (Expr.unary op e).ReadFrom (op :: ts) := by
  intro outer before head ps hps _
  have hkinds : op.kind = .bang ∨ op.kind = .minus := by
    simpa [Grammar.unaryOperators] using hop
  have hoperator : step ⟨outer, before, .inside head ps .operand⟩ op =
      ([], ⟨outer, before, .inside head (.unary op :: ps) .operand⟩) := by
    rw [step_inside]
    rcases hkinds with hkind | hkind <;> simp [advance, operand, begin, hkind, carry]
  have hlt : unaryPrecedence < 6 := by decide
  obtain ⟨ops, last, hops, hrank, hrun⟩ := he outer before head (.unary op :: ps) hlt
    (by simp [hranked])
  have hle : unaryPrecedence ≤ e.rank := Expr.le_rank le_rfl (by simp [hranked])
  refine ⟨ops ++ [.unary op], last, hops.append (.single rfl), ?_, ?_⟩
  · exact List.forall_mem_append.2 ⟨fun p hp => ⟨hle.trans (hrank p hp).1, (hrank p hp).2⟩,
      List.forall_mem_singleton.2 ⟨le_rfl, hlt⟩⟩
  · rw [run_cons_of_step hoperator, hrun, List.append_assoc]
    rfl

theorem Expr.ReadFrom.binary {l r : Expr} {ts us : List Token} (hl : l.ReadFrom ts)
    (hr : r.ReadFrom us) {op : Token} (hop : op.kind ∈ Grammar.binaryOperators)
    (hleft : ∀ p ∈ l.infixOperator?, op.kind.precedence ≤ p.kind.precedence)
    (hright : ∀ p ∈ r.infixOperator?, op.kind.precedence < p.kind.precedence) :
    (Expr.binary l op r).ReadFrom (ts ++ op :: us) := by
  intro outer before head ps hps hstrict
  have hlt : strictness ps < op.kind.precedence := hstrict op rfl
  have hunary : op.kind.precedence < unaryPrecedence := Grammar.precedence_lt hop
  have hsix : op.kind.precedence < 6 := hunary.trans (by decide)
  have hl_rank : op.kind.precedence ≤ l.rank := Expr.le_rank hunary.le hleft
  have hr_rank : op.kind.precedence ≤ r.rank := Expr.le_rank hunary.le fun p hp => (hright p hp).le
  obtain ⟨ops, last, hops, hrank, hrun⟩ := hl outer before head ps hps
    fun p hp => hlt.trans_le (hleft p hp)
  obtain ⟨ops', last', hops', hrank', hrun'⟩ := hr outer before head (.binary l op :: ps) hsix hright
  -- the operator completes all of the left operand, and then takes it
  have hoperator : step ⟨outer, before, .inside head (ops ++ ps) (.operator last)⟩ op =
      ([], ⟨outer, before, .inside head (.binary l op :: ps) .operand⟩) := by
    rw [step_inside, advance, close_completes hops fun p hp => hl_rank.trans (hrank p hp).1,
      close_binaryOperator hop hlt, carry]
  refine ⟨ops' ++ [.binary l op], last', hops'.append (.single rfl), ?_, ?_⟩
  · exact List.forall_mem_append.2
      ⟨fun p hp => ⟨hr_rank.trans (hrank' p hp).1, (hrank' p hp).2⟩,
        List.forall_mem_singleton.2 ⟨le_rfl, hsix⟩⟩
  · rw [run_append_of_run hrun, run_cons_of_step hoperator, hrun', List.append_assoc]
    rfl

/-! ### Calls -/

/-- The parenthesis that opens a call. -/
theorem Parser.step_call {t : Token} (ht : t.kind = .parenLeft) (outer : List OpenBlock)
    (before : List Stmt) (head : Head) {ps : List Pending} (hps : strictness ps < 6) (f : Expr) :
    step ⟨outer, before, .inside head ps (.operator f)⟩ t =
      ([], ⟨outer, before, .inside head ps (.arguments t f)⟩) := by
  rw [step_inside, advance, close_parenLeft ht hps, carry]

theorem Expr.ReadFrom.callEmpty {f : Expr} {ts : List Token} (hf : f.ReadFrom ts)
    (hbinary : f.infixOperator? = none) (hunary : f.prefixOperator? = none) {t close : Token}
    (ht : t.kind = .parenLeft) (hclose : close.kind = .parenRight) :
    (Expr.call t f []).ReadFrom (ts ++ [t, close]) := by
  refine .of_run fun outer before head ps hps => ?_
  rw [run_append_of_run (hf.run_eq hbinary hunary outer before head hps),
    run_cons_of_step (step_call ht outer before head hps f), run_singleton, step_inside]
  simp [advance, hclose, carry]

/-- A token that binds nothing completes all pending operations. -/
theorem Parser.step_completes {t : Token} (ht : t.kind.precedence = 0) {ops : List Pending}
    {last e : Expr} (h : Completes ops last e) (outer : List OpenBlock) (before : List Stmt)
    (head : Head) (ps : List Pending) :
    step ⟨outer, before, .inside head (ops ++ ps) (.operator last)⟩ t =
      carry t outer before head (close t true ps e) := by
  rw [step_inside, advance, close_completes h fun p _ => ht ▸ Nat.zero_le _]

/-- The operators of a tree that spells a chain bind more strictly than nothing. -/
theorem Expr.precedence_pos_of_spells {e : Expr} {ts : List Token} (h : e.Spells ts) :
    ∀ op ∈ e.infixOperator?, 0 < op.kind.precedence := by
  cases e with
  | binary l p r =>
      intro op hop
      obtain rfl := Option.some.inj hop
      exact ((Grammar.mem_binaryOperators_iff _).1 h.1).1
  | ident | integer | boolean | unary | ifElse | function | call | error =>
      exact fun _ hop => by cases hop

/-- **The arguments of a call after the first one**, and the parenthesis that closes it. -/
theorem Expr.run_more {es : List Expr}
    (hes : ∀ x ∈ es, ∀ us, x.Spells us → x.ReadFrom us) {rest : List Token}
    (hrest : Expr.SpellsMore es rest) {close : Token} (hclose : close.kind = .parenRight)
    (outer : List OpenBlock) (before : List Stmt) (head : Head) (ps : List Pending) (tok : Token)
    (f : Expr) (done : List Expr) {ops : List Pending} {last e : Expr} (h : Completes ops last e) :
    run ⟨outer, before, .inside head (ops ++ .argument tok f done :: ps) (.operator last)⟩
        (rest ++ [close]) =
      ([], ⟨outer, before, .inside head ps (.operator (.call tok f (done ++ e :: es)))⟩) := by
  induction es generalizing rest done ops last e with
  | nil =>
      obtain rfl := hrest
      rw [List.nil_append, run_singleton, step_completes (by rw [hclose]; rfl) h]
      simp [Parser.close, strictness, Pending.strictness, TokenKind.precedence, Pending.operation?,
        Pending.accept?, hclose, carry]
  | cons x es ih =>
      obtain ⟨comma, us, more, hcomma, hx, hmore, rfl⟩ := hrest
      obtain ⟨hread, hes⟩ := List.forall_mem_cons.1 hes
      have hstep : step ⟨outer, before,
          .inside head (ops ++ .argument tok f done :: ps) (.operator last)⟩ comma =
          ([], ⟨outer, before, .inside head (.argument tok f (done ++ [e]) :: ps) .operand⟩) := by
        rw [step_completes (by rw [hcomma]; rfl) h]
        simp [Parser.close, strictness, Pending.strictness, TokenKind.precedence, Pending.operation?,
          Pending.accept?, hcomma, carry]
      obtain ⟨ops', last', hops', -, hrun⟩ := hread us hx outer before head
        (.argument tok f (done ++ [e]) :: ps) (show 0 < 6 by decide)
        (Expr.precedence_pos_of_spells hx)
      rw [List.cons_append, List.append_assoc, run_cons_of_step hstep, run_append_of_run hrun,
        ih hes hmore (done ++ [e]) hops', List.append_assoc, List.singleton_append]

theorem Expr.ReadFrom.call {f e : Expr} {es : List Expr} {ts vs rest : List Token}
    (hf : f.ReadFrom ts) (hbinary : f.infixOperator? = none) (hunary : f.prefixOperator? = none)
    (he : e.ReadFrom vs) (hspells : e.Spells vs)
    (hes : ∀ x ∈ es, ∀ us, x.Spells us → x.ReadFrom us) (hrest : Expr.SpellsMore es rest)
    {t close : Token} (ht : t.kind = .parenLeft) (hclose : close.kind = .parenRight) :
    (Expr.call t f (e :: es)).ReadFrom (ts ++ t :: (vs ++ rest) ++ [close]) := by
  refine .of_run fun outer before head ps hps => ?_
  obtain ⟨u, us, hu, hopening⟩ := Expr.exists_cons_of_spells e hspells
  obtain ⟨ops, last, hops, -, hrun⟩ := he outer before head (.argument t f [] :: ps)
    (show 0 < 6 by decide) (Expr.precedence_pos_of_spells hspells)
  -- where arguments may begin, the first one begins
  have hfirst : run ⟨outer, before, .inside head ps (.arguments t f)⟩ (vs ++ (rest ++ [close])) =
      run ⟨outer, before, .inside head (.argument t f [] :: ps) .operand⟩
        (vs ++ (rest ++ [close])) := by
    rw [hu, List.cons_append, run_arguments hopening]
  rw [List.append_assoc, run_append_of_run (hf.run_eq hbinary hunary outer before head hps),
    List.cons_append, run_cons_of_step (step_call ht outer before head hps f), List.append_assoc,
    hfirst, run_append_of_run hrun,
    Expr.run_more hes hrest hclose outer before head ps t f [] hops, List.nil_append]

/-! ### Every chain -/

mutual

/-- **A ranked tree is read from the chain that it spells.** -/
theorem Expr.readFrom : (e : Expr) → {ts : List Token} → e.Spells ts → e.Every Node.Ranked →
    e.ReadFrom ts
  | .ident x, _ => by
    rintro ⟨hkind, hx, rfl⟩ _
    exact Expr.readFrom_ident hkind hx
  | .integer t n, _ => by
    rintro ⟨hkind, hn, rfl⟩ _
    exact Expr.readFrom_integer hkind hn
  | .boolean t b, _ => by
    rintro ⟨hkind, rfl⟩ _
    exact Expr.readFrom_boolean hkind
  | .unary op e, _ => by
    rintro ⟨hop, us, he, rfl⟩ h
    obtain ⟨hranked, hall⟩ := Expr.every_unary.1 h
    exact (Expr.readFrom e he hall).unary hranked hop
  | .binary l op r, _ => by
    rintro ⟨hop, us, vs, hl, hr, rfl⟩ h
    obtain ⟨⟨hleft, hright⟩, hlall, hrall⟩ := Expr.every_binary.1 h
    exact (Expr.readFrom l hl hlall).binary (Expr.readFrom r hr hrall) hop hleft hright
  | .call t f [], _ => by
    rintro ⟨ht, us, close, hf, hclose, rfl⟩ h
    obtain ⟨⟨hbinary, hunary⟩, hfall, -⟩ := Expr.every_call.1 h
    exact (Expr.readFrom f hf hfall).callEmpty hbinary hunary ht hclose
  | .call t f (e :: es), _ => by
    rintro ⟨ht, us, vs, rest, close, hf, he, hrest, hclose, rfl⟩ h
    obtain ⟨⟨hbinary, hunary⟩, hfall, hes⟩ := Expr.every_call.1 h
    obtain ⟨heall, hes⟩ := List.forall_mem_cons.1 hes
    exact (Expr.readFrom f hf hfall).call hbinary hunary (Expr.readFrom e he heall) he
      (Expr.readFromAll es hes) hrest ht hclose
  | .ifElse _ _ _ _, _ => False.elim
  | .function _ _ _, _ => False.elim
  | .error _ _ _, _ => False.elim

/-- So is each of several trees. -/
theorem Expr.readFromAll : (es : List Expr) → (∀ e ∈ es, e.Every Node.Ranked) →
    ∀ x ∈ es, ∀ ts, x.Spells ts → x.ReadFrom ts
  | [], _ => by simp
  | e :: es, h => by
    obtain ⟨he, hes⟩ := List.forall_mem_cons.1 h
    exact List.forall_mem_cons.2
      ⟨fun ts hts => Expr.readFrom e hts he, Expr.readFromAll es hes⟩

end

namespace Parsed

/-- **A ranked tree is what a parser makes of the chain that the tree spells.** -/
theorem ofTokens_of_spells {e : Expr} {ts : Tokens} (heof : ts.eof.kind = .eof)
    (hspells : e.Spells ts.body) (hranked : e.Every Node.Ranked) :
    ∃ t, ts.body.head? = some t ∧ ofTokens ts = ⟨⟨[.expr t e]⟩, []⟩ := by
  obtain ⟨body, eof⟩ := ts
  change eof.kind = .eof at heof
  obtain ⟨t, us, rfl, hopening⟩ := Expr.exists_cons_of_spells e hspells
  obtain ⟨ops, last, hops, -, hrun⟩ := Expr.readFrom e hspells hranked [] [] (.expr t) []
    (show 0 < 6 by decide) (Expr.precedence_pos_of_spells hspells)
  refine ⟨t, rfl, ?_⟩
  -- the end token completes the expression, and with it the only statement
  have hend : step ⟨[], [], .inside (.expr t) (ops ++ []) (.operator last)⟩ eof =
      ([], ⟨[], [.expr t e], .ready⟩) := by
    rw [step_completes (by rw [heof]; rfl) hops]
    simp [close, strictness, heof, TokenKind.precedence, carry, start, Head.complete]
  have hbody : run .initial ((t :: us) ++ [eof]) = ([], ⟨[], [.expr t e], .ready⟩) := by
    rw [State.initial, List.cons_append, run_expression hopening, ← List.cons_append,
      run_append_of_run hrun, run_singleton, hend]
  simp only [ofTokens, hbody, finish, List.reverse_singleton, List.append_nil]

/-- **A chain is read as the one ranked tree that spells it.**  The tree is the only statement, and
no error is recorded; its operands and operators stand in the order of the text, and every node of
it is as precedence asks.  No other tree that spells the chain is. -/
theorem ofTokens_chain (ts : Tokens) (heof : ts.eof.kind = .eof) (h : Chain .chain ts.body) :
    ∃ t e, ts.body.head? = some t ∧ ofTokens ts = ⟨⟨[.expr t e]⟩, []⟩ ∧
      e.reading = ts.body.filter (fun u => u.kind ∉ [.parenLeft, .parenRight, .comma]) ∧
      (∀ n ∈ e.nodes, n.Ranked) ∧ e.Spells ts.body ∧
      ∀ e' : Expr, e'.Spells ts.body → (∀ n ∈ e'.nodes, n.Ranked) → e' = e := by
  obtain ⟨e, hspells, hranked⟩ := h.exists_ranked
  obtain ⟨t, ht, hparsed⟩ := ofTokens_of_spells heof hspells hranked
  refine ⟨t, e, ht, hparsed, Expr.reading_of_spells e hspells, hranked, hspells, ?_⟩
  intro e' hspells' hranked'
  obtain ⟨t', -, hparsed'⟩ := ofTokens_of_spells heof hspells' hranked'
  rw [hparsed] at hparsed'
  injection hparsed' with hprogram
  injection hprogram with hstatements
  injection hstatements with hstatement
  injection hstatement with _ he
  exact he.symm

/-- The token of the name `x`. -/
def nameToken (x : String) : Token :=
  ⟨.identifier, x, .start⟩

/-- The name `x` as an expression. -/
def name (x : String) : Expr :=
  .ident (.ofToken (nameToken x))

/-- The tokens of `a - b - f() * !c`. -/
def differences : Tokens :=
  ⟨[nameToken "a"] ++ TokenKind.minus.token :: [nameToken "b"] ++
      TokenKind.minus.token :: ([nameToken "f"] ++
        [TokenKind.parenLeft.token, TokenKind.parenRight.token]) ++
      TokenKind.star.token :: TokenKind.bang.token :: [nameToken "c"],
    ⟨.eof, "", .start⟩⟩

/-- The tree of `(a - b) - (f() * (!c))`. -/
def differencesTree : Expr :=
  .binary (.binary (name "a") TokenKind.minus.token (name "b")) TokenKind.minus.token
    (.binary (.call TokenKind.parenLeft.token (name "f") []) TokenKind.star.token
      (.unary TokenKind.bang.token (name "c")))

/-- In `a - b - f() * !c` the first difference is taken first, and the product before the second. -/
theorem ofTokens_chain_differences :
    differences.eof.kind = .eof ∧ Chain .chain differences.body ∧
    ofTokens differences = ⟨⟨[.expr (nameToken "a") differencesTree]⟩, []⟩ := by
  have hname (x : String) : Chain .primary [nameToken x] := .atom (.inl rfl)
  have hcall : Chain .primary ([nameToken "f"] ++
      [TokenKind.parenLeft.token, TokenKind.parenRight.token]) := .callEmpty (hname "f") rfl rfl
  have hdifference : Chain .chain ([nameToken "a"] ++ TokenKind.minus.token :: [nameToken "b"]) :=
    .binary (.operand (.primary (hname "a"))) (by decide) (.primary (hname "b"))
  have hchain : Chain .chain differences.body :=
    .binary (.binary hdifference (by decide) (.primary hcall)) (by decide)
      (.unary (by decide) (.primary (hname "c")))
  have hspelled (x : String) : (name x).Spells [nameToken x] := ⟨rfl, rfl, rfl⟩
  have hspells : differencesTree.Spells differences.body := by
    refine ⟨by decide, _, _, ⟨by decide, _, _, hspelled "a", hspelled "b", rfl⟩, ?_, rfl⟩
    refine ⟨by decide, _, _, ⟨rfl, _, _, hspelled "f", rfl, rfl⟩, ?_, rfl⟩
    exact ⟨by decide, _, hspelled "c", rfl⟩
  have hranked : differencesTree.Every Node.Ranked := by
    simp [differencesTree, name, Node.Ranked, Expr.infixOperator?, Expr.prefixOperator?,
      TokenKind.token, TokenKind.precedence]
  obtain ⟨t, e, ht, hparsed, -, -, -, hunique⟩ := ofTokens_chain differences rfl hchain
  obtain rfl := Option.some.inj ht
  exact ⟨rfl, hchain, hunique differencesTree hspells hranked ▸ hparsed⟩

end Parsed

end LetFn
