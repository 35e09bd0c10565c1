/-
**The trees that a parser builds are regular.**

A syntax tree may be any tree, with any tokens in it.  The trees that are read from a text are made
with more care: names are words, integers are not negative, operators are operators, and keywords
are written as they have to be.  Such a tree is called *regular*.  A tree that stems from the tokens
of a text is regular because these are genuine.

Main definitions:

* `LetFn.Node.Regular` — what is required of each node of a tree that is read from a text.

Main results:

* `LetFn.Node.StemsFrom.regular` — a node that stems from genuine tokens is regular;
* `LetFn.Parsed.regular_ofString` — **the tree of every text is regular**.
-/

import LetFn.Proofs.Parser.Origin
import LetFn.Proofs.Token.Lexemes

set_option relaxedAutoImplicit false
set_option autoImplicit false

namespace LetFn

open LetFn.Parser Grammar

/-! ### Regular trees -/

/-- The token is the keyword or sign of its kind. -/
def Token.Spelled (t : Token) (k : TokenKind) : Prop :=
  t.unplaced = k.token

/-- The name is a word of a text, and no keyword. -/
def Ident.Regular (x : Ident) : Prop :=
  x.token.Genuine ∧ x.token.kind = .identifier ∧ x.name = x.token.literal

/-- What is required of each node of a tree that is read from a text. -/
def Node.Regular : Node → Prop
  | .expr (.ident x) => x.Regular
  | .expr (.integer t n) => t.kind = .integer ∧ 0 ≤ n.toInt
  | .expr (.boolean t b) => t.Spelled (boolKind b)
  | .expr (.unary op _) => op.kind ∈ unaryOperators ∧ op.Spelled op.kind
  | .expr (.binary _ op _) => op.kind ∈ binaryOperators ∧ op.Spelled op.kind
  | .expr (.ifElse t _ _ _) => t.Spelled .kwIf
  | .expr (.function t xs _) => t.Spelled .kwFn ∧ ∀ x ∈ xs, x.Regular
  | .expr (.call t _ _) => t.Spelled .parenLeft
  | .expr (.error _ expected message) => expected ≠ none ∨ message ≠ none
  | .stmt (.bind t x _) => t.Spelled .kwLet ∧ x.Regular
  | .stmt (.returns t _) => t.Spelled .kwReturn
  | .stmt (.expr _ _) => True
  | .stmt (.block _) => False
  | .stmt (.error _) => True
  | .block b => b.brace.Spelled .braceLeft
  | .program _ => True

/-- Every node of an expression is regular. -/
abbrev Expr.Regular (e : Expr) : Prop :=
  e.Every Node.Regular

/-- Every node of a statement is regular. -/
abbrev Stmt.Regular (s : Stmt) : Prop :=
  s.Every Node.Regular

/-- Every node of a block is regular. -/
abbrev Block.Regular (b : Block) : Prop :=
  b.Every Node.Regular

theorem SyntaxError.regular_node (error : SyntaxError) : error.node.Regular := by
  cases error <;> simp [SyntaxError.node, Node.Regular]

/-! ### Genuine tokens -/

/-- Every operator has one spelling. -/
theorem isSome_spelling? {k : TokenKind} (hk : k ∈ unaryOperators ∨ k ∈ binaryOperators) :
    k.spelling?.isSome := by
  revert hk
  cases k <;> decide

/-- The end token apart, the tokens of the origin are genuine. -/
def Parser.Origin.Genuine (o : Origin) : Prop :=
  ∀ t, o.token t → t.kind ≠ .eof → t.Genuine

section Genuine

variable {o : Origin} (ho : o.Genuine) {t : Token}

include ho

theorem Parser.Origin.Genuine.spelled {k : TokenKind} (ht : o.Has k t)
    (hs : k.spelling?.isSome) : t.Spelled k := by
  obtain ⟨ht, hk⟩ := ht
  have heof : t.kind ≠ .eof := by
    rintro heof
    rw [← hk, heof] at hs
    cases hs
  exact (ho t ht heof).unplaced_eq_token hk hs

theorem Ident.StemsFrom.regular {x : Ident} (hx : x.StemsFrom o) : x.Regular := by
  obtain ⟨⟨ht, hk⟩, hname⟩ := hx
  exact ⟨ho _ ht (by simp [hk]), hk, congrArg Ident.name hname⟩

/-- **A node that stems from genuine tokens is regular.** -/
theorem Node.StemsFrom.regular {n : Node} (h : n.StemsFrom o) : n.Regular := by
  cases n with
  | program p => trivial
  | block b => exact ho.spelled h rfl
  | stmt s =>
      cases s with
      | bind t x e => exact ⟨ho.spelled h.1 rfl, h.2.regular ho⟩
      | returns t e => exact ho.spelled h rfl
      | expr t e => trivial
      | block b => exact h
      | error t => trivial
  | expr e =>
      cases e with
      | ident x => exact Ident.StemsFrom.regular ho h
      | integer t n =>
          -- the sign of an integer is an operator, and no part of the literal
          refine ⟨h.1.2, ?_⟩
          rw [Integer.toInt_of_ofDigits? h.2]
          omega
      | boolean t b => exact ho.spelled h (by cases b <;> rfl)
      | unary op e =>
          exact ⟨h.2, ho.spelled ⟨h.1, rfl⟩ (isSome_spelling? (.inl h.2))⟩
      | binary l op r =>
          exact ⟨h.2, ho.spelled ⟨h.1, rfl⟩ (isSome_spelling? (.inr h.2))⟩
      | ifElse t c yes no => exact ho.spelled h rfl
      | function t xs body => exact ⟨ho.spelled h.1 rfl, fun x hx => (h.2 x hx).regular ho⟩
      | call t f es => exact ho.spelled h rfl
      | error t k m =>
          obtain ⟨error, -, herror⟩ := h
          have hnode := error.regular_node
          rw [herror] at hnode
          exact Expr.every_error.1 hnode

end Genuine

/-! ### Whole texts -/

theorem Parsed.genuine_origin (source : String) : (Parsed.origin (.ofString source)).Genuine := by
  intro t ht heof
  rcases List.mem_append.1 ht with ht | ht
  · exact Token.genuine_of_mem_tokens ht
  · rw [List.mem_singleton.1 ht] at heof
    exact absurd (Lexer.kind_tokens_eof _) heof

/-- **Every node of a tree that is read from a text is regular.** -/
theorem Parsed.regular_ofString (source : String) :
    ∀ r ∈ (Parsed.ofString source).program.statements, r.Regular := fun r hr n hn =>
  (Parsed.stemsFrom_ofTokens _ r hr n hn).regular (Parsed.genuine_origin source)

end LetFn
