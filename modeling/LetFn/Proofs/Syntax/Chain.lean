/-
**Chains of operators.**

A chain is a list of operands with binary operators between them and no parentheses around any part:
its operands are names, literals and calls, with unary operators before them, and the arguments of
the calls are chains again.  Nothing in the tokens of a chain says what is to be an operand of what;
the precedence of the operators does.

A tree is *ranked* if it keeps to the precedence everywhere.  Every chain is spelled by a ranked
tree: a new operator with its operand goes down the right edge of the tree, past all operations that
bind less strictly than it does.

Main definitions:

* `LetFn.Chain` — **the lists of tokens that are chains**;
* `LetFn.Node.Ranked` — **what precedence asks of a node**;
* `LetFn.Expr.Spells` — the chain that a tree spells;
* `LetFn.Expr.extend` — a tree that goes on with an operator and an operand.

Main results:

* `LetFn.Expr.reading_of_spells` — a tree that spells a chain has its operands and operators in
  their order;
* `LetFn.Chain.exists_ranked` — **every chain is spelled by a ranked tree**.
-/

import LetFn.Proofs.Parser.Grammar
import LetFn.Proofs.Parser.Origin
import LetFn.Proofs.Parser.Outline
import LetFn.Proofs.Syntax.Nodes
import LetFn.Proofs.Syntax.Reading

set_option relaxedAutoImplicit false
set_option autoImplicit false

namespace LetFn

/-! ### Chains -/

/-- The token is an operand by itself: a name, a truth value, or an integer of 64 bits. -/
def Token.Atom (t : Token) : Prop :=
  t.kind = .identifier ∨ (∃ b, t.kind = boolKind b) ∨
    t.kind = .integer ∧ (Integer.ofDigits? t.literal.toList).isSome

/-- The parts of a chain. -/
inductive Chain.Level
  /-- Operands with binary operators between them. -/
  | chain
  /-- What stands between binary operators. -/
  | operand
  /-- What stands after unary operators. -/
  | primary
  /-- At least one argument, and commas between them. -/
  | arguments

/-- **The lists of tokens that are chains**, and parts of chains. -/
inductive Chain : Chain.Level → List Token → Prop
  | atom {t : Token} : t.Atom → Chain .primary [t]
  | callEmpty {ts : List Token} {t close : Token} :
      Chain .primary ts → t.kind = .parenLeft → close.kind = .parenRight →
      Chain .primary (ts ++ [t, close])
  | call {ts us : List Token} {t close : Token} :
      Chain .primary ts → t.kind = .parenLeft → Chain .arguments us → close.kind = .parenRight →
      Chain .primary (ts ++ t :: us ++ [close])
  | primary {ts : List Token} : Chain .primary ts → Chain .operand ts
  | unary {op : Token} {ts : List Token} :
      op.kind ∈ Grammar.unaryOperators → Chain .operand ts → Chain .operand (op :: ts)
  | operand {ts : List Token} : Chain .operand ts → Chain .chain ts
  | binary {op : Token} {ts us : List Token} :
      Chain .chain ts → op.kind ∈ Grammar.binaryOperators → Chain .operand us →
      Chain .chain (ts ++ op :: us)
  | argument {ts : List Token} : Chain .chain ts → Chain .arguments ts
  | moreArguments {comma : Token} {ts us : List Token} :
      Chain .chain ts → comma.kind = .comma → Chain .arguments us →
      Chain .arguments (ts ++ comma :: us)

/-! ### Precedence in a tree -/

/-- The operator of an operation on two operands. -/
def Expr.infixOperator? : Expr → Option Token
  | .binary _ op _ => some op
  | _ => none

/-- The operator of an operation on one operand. -/
def Expr.prefixOperator? : Expr → Option Token
  | .unary op _ => some op
  | _ => none

/-- **What precedence asks of a node**: no operation on two operands is the operand of a unary
operator; if it is the left operand of a binary operator it binds at least as strictly as that, and
more strictly if it is the right one; and no operation is called. -/
def Node.Ranked : Node → Prop
  | .expr (.unary _ e) => e.infixOperator? = none
  | .expr (.binary l op r) =>
    (∀ p ∈ l.infixOperator?, op.kind.precedence ≤ p.kind.precedence) ∧
      ∀ p ∈ r.infixOperator?, op.kind.precedence < p.kind.precedence
  | .expr (.call _ f _) => f.infixOperator? = none ∧ f.prefixOperator? = none
  | _ => True

/-! ### What a tree spells -/

mutual

/-- **The tree spells the chain**: its operands and operators stand there in the order of the text,
and there are no brackets and commas but those of its calls. -/
def Expr.Spells : Expr → List Token → Prop
  | .ident x => fun ts => x.token.kind = .identifier ∧ x = .ofToken x.token ∧ ts = [x.token]
  | .integer t n => fun ts =>
    t.kind = .integer ∧ Integer.ofDigits? t.literal.toList = some n ∧ ts = [t]
  | .boolean t b => fun ts => t.kind = boolKind b ∧ ts = [t]
  | .unary op e => fun ts =>
    op.kind ∈ Grammar.unaryOperators ∧ ∃ us, e.Spells us ∧ ts = op :: us
  | .binary l op r => fun ts =>
    op.kind ∈ Grammar.binaryOperators ∧ ∃ us vs, l.Spells us ∧ r.Spells vs ∧ ts = us ++ op :: vs
  | .call t f [] => fun ts =>
    t.kind = .parenLeft ∧ ∃ us close, f.Spells us ∧ close.kind = .parenRight ∧
      ts = us ++ [t, close]
  | .call t f (e :: es) => fun ts =>
    t.kind = .parenLeft ∧ ∃ us vs rest close, f.Spells us ∧ e.Spells vs ∧
      Expr.SpellsMore es rest ∧ close.kind = .parenRight ∧ ts = us ++ t :: (vs ++ rest) ++ [close]
  | .ifElse _ _ _ _ => fun _ => False
  | .function _ _ _ => fun _ => False
  | .error _ _ _ => fun _ => False

/-- The trees spell further arguments, each after a comma. -/
def Expr.SpellsMore : List Expr → List Token → Prop
  | [] => fun ts => ts = []
  | e :: es => fun ts => ∃ comma us rest, comma.kind = .comma ∧ e.Spells us ∧
      Expr.SpellsMore es rest ∧ ts = comma :: (us ++ rest)

end

/-! ### Reading -/

/-- The tokens of a call that are no operands: its brackets and commas. -/
def Chain.brackets : List TokenKind :=
  [.parenLeft, .parenRight, .comma]

/-- The operands and operators of a chain. -/
def Chain.bare (ts : List Token) : List Token :=
  ts.filter fun t => t.kind ∉ Chain.brackets

theorem Chain.bare_append (ts us : List Token) :
    Chain.bare (ts ++ us) = Chain.bare ts ++ Chain.bare us :=
  List.filter_append ..

theorem Chain.bare_cons_of_notMem {t : Token} (ht : t.kind ∉ Chain.brackets) (ts : List Token) :
    Chain.bare (t :: ts) = t :: Chain.bare ts :=
  List.filter_cons_of_pos (by simpa using ht)

theorem Chain.bare_cons_of_bracket {t : Token} {k : TokenKind} {ts : List Token} (ht : t.kind = k)
    (hk : k ∈ Chain.brackets := by decide) : Chain.bare (t :: ts) = Chain.bare ts :=
  List.filter_cons_of_neg (by simpa [ht] using hk)

/-- No operator is a bracket or a comma. -/
theorem Chain.notMem_brackets_of_operator {k : TokenKind}
    (h : k ∈ Grammar.unaryOperators ∨ k ∈ Grammar.binaryOperators) : k ∉ Chain.brackets := by
  revert h
  cases k <;> decide

/-- A token by itself that is no bracket. -/
theorem Chain.bare_singleton {t : Token} (ht : t.kind ∉ Chain.brackets) : Chain.bare [t] = [t] :=
  Chain.bare_cons_of_notMem ht []

mutual

/-- **A tree that spells a chain has its operands and operators in their order.** -/
theorem Expr.reading_of_spells :
    (e : Expr) → {ts : List Token} → e.Spells ts → e.reading = Chain.bare ts
  | .ident x, _ => by
    rintro ⟨hkind, -, rfl⟩
    exact (Chain.bare_singleton (by rw [hkind]; decide)).symm
  | .integer t _, _ => by
    rintro ⟨hkind, -, rfl⟩
    exact (Chain.bare_singleton (by rw [hkind]; decide)).symm
  | .boolean t b, _ => by
    rintro ⟨hkind, rfl⟩
    exact (Chain.bare_singleton (by rw [hkind]; cases b <;> decide)).symm
  | .unary op e, _ => by
    rintro ⟨hop, us, he, rfl⟩
    rw [Expr.reading, Chain.bare_cons_of_notMem (Chain.notMem_brackets_of_operator (.inl hop)),
      Expr.reading_of_spells e he]
  | .binary l op r, _ => by
    rintro ⟨hop, us, vs, hl, hr, rfl⟩
    rw [Expr.reading, Chain.bare_append,
      Chain.bare_cons_of_notMem (Chain.notMem_brackets_of_operator (.inr hop)),
      Expr.reading_of_spells l hl, Expr.reading_of_spells r hr]
  | .call t f [], _ => by
    rintro ⟨ht, us, close, hf, hclose, rfl⟩
    rw [Expr.reading, Expr.readingAll, List.append_nil, Chain.bare_append,
      Chain.bare_cons_of_bracket ht, Chain.bare_cons_of_bracket hclose, Expr.reading_of_spells f hf]
    exact (List.append_nil _).symm
  | .call t f (e :: es), _ => by
    rintro ⟨ht, us, vs, rest, close, hf, he, hes, hclose, rfl⟩
    rw [Expr.reading, Expr.readingAll, Chain.bare_append, Chain.bare_append,
      Chain.bare_cons_of_bracket ht, Chain.bare_cons_of_bracket hclose, Chain.bare_append,
      Expr.reading_of_spells f hf, Expr.reading_of_spells e he, Expr.reading_of_spellsMore es hes]
    exact (List.append_nil _).symm
  | .ifElse _ _ _ _, _ => False.elim
  | .function _ _ _, _ => False.elim
  | .error _ _ _, _ => False.elim

theorem Expr.reading_of_spellsMore :
    (es : List Expr) → {ts : List Token} → Expr.SpellsMore es ts →
      Expr.readingAll es = Chain.bare ts
  | [], _ => by
    rintro rfl
    rfl
  | e :: es, _ => by
    rintro ⟨comma, us, rest, hcomma, he, hes, rfl⟩
    rw [Expr.readingAll, Chain.bare_cons_of_bracket hcomma, Chain.bare_append,
      Expr.reading_of_spells e he, Expr.reading_of_spellsMore es hes]

end

/-- A chain begins with a token that begins an operand. -/
theorem Expr.exists_cons_of_spells : (e : Expr) → {ts : List Token} → e.Spells ts →
    ∃ t us, ts = t :: us ∧ (Parser.Outline.opening t.kind).isSome
  | .ident x, _ => by
    rintro ⟨hkind, -, rfl⟩
    exact ⟨x.token, [], rfl, by rw [hkind]; rfl⟩
  | .integer t _, _ => by
    rintro ⟨hkind, -, rfl⟩
    exact ⟨t, [], rfl, by rw [hkind]; rfl⟩
  | .boolean t b, _ => by
    rintro ⟨hkind, rfl⟩
    exact ⟨t, [], rfl, by rw [hkind]; cases b <;> rfl⟩
  | .unary op e, _ => by
    rintro ⟨hop, us, -, rfl⟩
    refine ⟨op, us, rfl, ?_⟩
    revert hop
    generalize op.kind = k
    cases k <;> decide
  | .binary l op r, _ => by
    rintro ⟨-, us, vs, hl, -, rfl⟩
    obtain ⟨t, us, rfl, ht⟩ := Expr.exists_cons_of_spells l hl
    exact ⟨t, us ++ op :: vs, rfl, ht⟩
  | .call t f [], _ => by
    rintro ⟨-, us, close, hf, -, rfl⟩
    obtain ⟨u, us, rfl, hu⟩ := Expr.exists_cons_of_spells f hf
    exact ⟨u, us ++ [t, close], rfl, hu⟩
  | .call t f (e :: es), _ => by
    rintro ⟨-, us, vs, rest, close, hf, -, -, -, rfl⟩
    obtain ⟨u, us, rfl, hu⟩ := Expr.exists_cons_of_spells f hf
    exact ⟨u, us ++ t :: (vs ++ rest) ++ [close], rfl, hu⟩
  | .ifElse _ _ _ _, _ => False.elim
  | .function _ _ _, _ => False.elim
  | .error _ _ _, _ => False.elim

/-! ### Going on with an operator -/

/-- **The expression goes on with the operator `op` and the operand `x`**: these go down its right
edge, past the operations that bind less strictly. -/
def Expr.extend : Expr → Token → Expr → Expr
  | .binary l p r, op, x =>
    if p.kind.precedence < op.kind.precedence then
      .binary l p (r.extend op x)
    else
      .binary (.binary l p r) op x
  | e, op, x => .binary e op x

/-- Induction along the right edge of a tree. -/
@[elab_as_elim]
theorem Expr.right_edge_induction {motive : Expr → Prop}
    (operand : ∀ e : Expr, e.infixOperator? = none → motive e)
    (binary : ∀ l op r, motive r → motive (.binary l op r)) : (e : Expr) → motive e
  | .binary l op r => binary l op r (Expr.right_edge_induction operand binary r)
  | .ident _ => operand _ rfl
  | .integer _ _ => operand _ rfl
  | .boolean _ _ => operand _ rfl
  | .unary _ _ => operand _ rfl
  | .ifElse _ _ _ _ => operand _ rfl
  | .function _ _ _ => operand _ rfl
  | .call _ _ _ => operand _ rfl
  | .error _ _ _ => operand _ rfl

section Extend

variable {op : Token} {x : Expr}

/-- An expression that is no operation on two operands becomes the left operand. -/
theorem Expr.extend_eq {e : Expr} (h : e.infixOperator? = none) (op : Token) (x : Expr) :
    e.extend op x = .binary e op x := by
  cases e with
  | binary => cases h
  | ident | integer | boolean | unary | ifElse | function | call | error => rfl

theorem Expr.spells_extend (hop : op.kind ∈ Grammar.binaryOperators) {vs : List Token}
    (hx : x.Spells vs) (e : Expr) {us : List Token} (he : e.Spells us) :
    (e.extend op x).Spells (us ++ op :: vs) := by
  induction e using Expr.right_edge_induction generalizing us with
  | operand e hoperand =>
      rw [Expr.extend_eq hoperand]
      exact ⟨hop, us, vs, he, hx, rfl⟩
  | binary l p r ih =>
      rw [Expr.extend]
      split
      · obtain ⟨hp, us, ws, hl, hr, rfl⟩ := he
        refine ⟨hp, us, ws ++ op :: vs, hl, ih hr, ?_⟩
        rw [List.append_assoc, List.cons_append]
      · exact ⟨hop, us, vs, he, hx, rfl⟩

/-- The outermost operator of an expression that goes on is the new one, or one that binds less
strictly than the new one. -/
theorem Expr.infixOperator?_extend (e : Expr) {q : Token} (hq : q ∈ (e.extend op x).infixOperator?) :
    q = op ∨ q ∈ e.infixOperator? := by
  cases e using Expr.right_edge_induction with
  | operand e hoperand =>
      rw [Expr.extend_eq hoperand] at hq
      exact .inl (Option.some.inj hq).symm
  | binary l p r =>
      rw [Expr.extend] at hq
      split at hq
      · exact .inr hq
      · exact .inl (Option.some.inj hq).symm

/-- **A ranked tree that goes on with an operand is ranked.** -/
theorem Expr.ranked_extend (hx : x.Every Node.Ranked) (hoperand : x.infixOperator? = none)
    (e : Expr) (he : e.Every Node.Ranked) : (e.extend op x).Every Node.Ranked := by
  have hright : ∀ q ∈ x.infixOperator?, op.kind.precedence < q.kind.precedence := by
    simp [hoperand]
  induction e using Expr.right_edge_induction with
  | operand e hnone =>
      rw [Expr.extend_eq hnone]
      exact Expr.every_binary.2 ⟨⟨by simp [hnone], hright⟩, he, hx⟩
  | binary l p r ih =>
      obtain ⟨⟨hl, hr⟩, hleft, hranked⟩ := Expr.every_binary.1 he
      rw [Expr.extend]
      split
      · refine Expr.every_binary.2 ⟨⟨hl, fun q hq => ?_⟩, hleft, ih hranked⟩
        rcases Expr.infixOperator?_extend r hq with rfl | hq
        · assumption
        · exact hr q hq
      · refine Expr.every_binary.2 ⟨⟨fun q hq => ?_, hright⟩, he, hx⟩
        obtain rfl := Option.some.inj hq
        omega

end Extend

/-! ### A ranked tree for every chain -/

/-- The tokens are spelled by a ranked tree, or by several trees if they are arguments. -/
def Chain.Spelled : Chain.Level → List Token → Prop
  | .chain, ts => ∃ e : Expr, e.Spells ts ∧ e.Every Node.Ranked
  | .operand, ts => ∃ e : Expr, e.Spells ts ∧ e.Every Node.Ranked ∧ e.infixOperator? = none
  | .primary, ts => ∃ e : Expr, e.Spells ts ∧ e.Every Node.Ranked ∧ e.infixOperator? = none ∧
      e.prefixOperator? = none
  | .arguments, ts => ∃ (e : Expr) (es : List Expr) (us rest : List Token), e.Spells us ∧
      Expr.SpellsMore es rest ∧ (∀ x ∈ e :: es, x.Every Node.Ranked) ∧ ts = us ++ rest

/-- A token that is an operand by itself is spelled by a tree without operators. -/
theorem Token.Atom.spelled {t : Token} (h : t.Atom) : Chain.Spelled .primary [t] := by
  rcases h with hkind | ⟨b, hkind⟩ | ⟨hkind, hdigits⟩
  · exact ⟨.ident (.ofToken t), ⟨hkind, rfl, rfl⟩, Expr.every_ident.2 trivial, rfl, rfl⟩
  · exact ⟨.boolean t b, ⟨hkind, rfl⟩, Expr.every_boolean.2 trivial, rfl, rfl⟩
  · obtain ⟨n, hn⟩ := Option.isSome_iff_exists.1 hdigits
    exact ⟨.integer t n, ⟨hkind, hn, rfl⟩, Expr.every_integer.2 trivial, rfl, rfl⟩

/-- **Every chain is spelled by a ranked tree.** -/
theorem Chain.exists_ranked {level : Chain.Level} {ts : List Token} (h : Chain level ts) :
    Chain.Spelled level ts := by
  induction h with
  | atom h => exact h.spelled
  | @callEmpty ts t close _ ht hclose ih =>
      obtain ⟨f, hf, hranked, hbinary, hunary⟩ := ih
      refine ⟨.call t f [], ⟨ht, ts, close, hf, hclose, rfl⟩, ?_, rfl, rfl⟩
      exact Expr.every_call.2 ⟨⟨hbinary, hunary⟩, hranked, by simp⟩
  | @call ts us t close _ ht _ hclose ihf ihes =>
      obtain ⟨f, hf, hranked, hbinary, hunary⟩ := ihf
      obtain ⟨e, es, vs, rest, he, hes, hall, rfl⟩ := ihes
      refine ⟨.call t f (e :: es), ⟨ht, ts, vs, rest, close, hf, he, hes, hclose, rfl⟩, ?_, rfl, rfl⟩
      exact Expr.every_call.2 ⟨⟨hbinary, hunary⟩, hranked, hall⟩
  | primary _ ih =>
      obtain ⟨e, he, hranked, hbinary, -⟩ := ih
      exact ⟨e, he, hranked, hbinary⟩
  | @unary op ts hop _ ih =>
      obtain ⟨e, he, hranked, hbinary⟩ := ih
      exact ⟨.unary op e, ⟨hop, ts, he, rfl⟩, Expr.every_unary.2 ⟨hbinary, hranked⟩, rfl⟩
  | operand _ ih =>
      obtain ⟨e, he, hranked, -⟩ := ih
      exact ⟨e, he, hranked⟩
  | @binary op ts us _ hop _ ihl ihr =>
      obtain ⟨l, hl, hleft⟩ := ihl
      obtain ⟨x, hx, hright, hbinary⟩ := ihr
      exact ⟨l.extend op x, Expr.spells_extend hop hx l hl, Expr.ranked_extend hright hbinary l hleft⟩
  | @argument ts _ ih =>
      obtain ⟨e, he, hranked⟩ := ih
      exact ⟨e, [], ts, [], he, rfl, by simpa using hranked, by rw [List.append_nil]⟩
  | @moreArguments comma ts us _ hcomma _ ih ihes =>
      obtain ⟨e, he, hranked⟩ := ih
      obtain ⟨x, es, vs, rest, hx, hes, hall, rfl⟩ := ihes
      exact ⟨e, x :: es, ts, comma :: (vs ++ rest), he, ⟨comma, vs, rest, hcomma, hx, hes, rfl⟩,
        List.forall_mem_cons.2 ⟨hranked, hall⟩, rfl⟩

end LetFn
