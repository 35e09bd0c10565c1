/-
**Integer literals are read exactly.**

A run of digits is one token of a text, however long it is and however many zeros it begins with, as
long as no digit stands before or behind it.  Whatever has been read before, a parser takes the
token for an operand: no construct waits for it, so what cannot be complete without another token is
broken off, and if no operand was due a statement begins.  What becomes of the literal depends on
the decimal value of its digits alone.  A word of 64 bits is the value of an integer node; for any
other value there is a broken node and one error on record.

So the errors of this kind name the literals of a text that are too large, each of them once, in the
order of the text.  And a word that is not negative is read back from its text.

Main definitions:

* `LetFn.Integer.decimal` — **the decimal value of a run of digits**, by the weights of its digits;
* `LetFn.Token.ofDigits` — the token that is a run of digits;
* `LetFn.Token.ReadExactly` — **what is to become of a literal**;
* `LetFn.Token.TooLarge`, `LetFn.SyntaxError.OfLiteral` — literals that are too large, and the errors
  about them.

Main results:

* `LetFn.Integer.valueOfDigits_eq_decimal` — digits are accumulated to their decimal value;
* `LetFn.Lexer.tokens_digits` — **a run of digits is one token**;
* `LetFn.Parser.integer_readExactly` — the value of its digits decides what becomes of a literal;
* `LetFn.Parser.step_integer` — **a literal is an operand wherever it stands**;
* `LetFn.Parsed.errors_ofLiteral` — the errors about the literals of a text;
* `LetFn.Parsed.exists_integer` — the literals of a correct text have nodes in its tree;
* `LetFn.Parsed.ofString_text` — an integer that is not negative is read back from its text;
* `LetFn.Parsed.literals_exact` — **integer literals are read exactly**.
-/

import Mathlib.Data.List.Induction
import Mathlib.Data.Nat.Digits.Defs
import LetFn.Proofs.Parser.Fault
import LetFn.Proofs.Parser.Lossless
import LetFn.Proofs.Parser.Origin
import LetFn.Proofs.Parser.Recovery
import LetFn.Proofs.Render.Words
import LetFn.Proofs.Token.Division

set_option relaxedAutoImplicit false
set_option autoImplicit false

namespace LetFn

/-! ### Decimal values -/

namespace Integer

/-- **The decimal value of a run of digits**: the last digit counts once, and each digit before it
ten times as much as the one behind. -/
def decimal (digits : List Char) : Nat :=
  Nat.ofDigits 10 (digits.reverse.map fun d => d.toNat - '0'.toNat)

/-- One more digit makes all the others count ten times as much. -/
theorem decimal_append_singleton (digits : List Char) (d : Char) :
    decimal (digits ++ [d]) = 10 * decimal digits + (d.toNat - '0'.toNat) := by
  rw [decimal, List.reverse_append, List.reverse_singleton, List.singleton_append, List.map_cons,
    Nat.ofDigits_cons, Nat.add_comm]
  rfl

/-- Digits are accumulated to their decimal value. -/
theorem valueOfDigits_eq_decimal (digits : List Char) : valueOfDigits digits = decimal digits := by
  induction digits using List.reverseRecOn with
  | nil => rfl
  | append_singleton digits d ih =>
      rw [decimal_append_singleton, ← ih, valueOfDigits, Nat.ofDigitChars_append,
        Nat.ofDigitChars_cons]
      rfl

/-- The word that a run of digits denotes has their decimal value. -/
theorem toInt_eq_decimal {digits : List Char} {n : Int64} (h : ofDigits? digits = some n) :
    n.toInt = decimal digits := by
  rw [← valueOfDigits_eq_decimal]
  exact toInt_of_ofDigits? h

end Integer

/-! ### Runs of digits -/

/-- The token at `p` that is a run of digits. -/
def Token.ofDigits (ds : List Char) (p : Pos) : Token :=
  ⟨.integer, String.ofList ds, p⟩

namespace Lexer

variable {ds : List Char} (hne : ds ≠ []) (hds : ∀ d ∈ ds, isDigit d = true)

include hne hds

/-- **A run of digits is one token.** -/
theorem tokens_digits (p : Pos) :
    (⟨p, ds⟩ : Lexer).tokens.body = [.ofDigits ds p] := by
  obtain ⟨c, cs, rfl⟩ := List.exists_cons_of_ne_nil hne
  obtain ⟨hc, hcs⟩ := List.forall_mem_cons.1 hds
  have hlexeme : lexeme c cs = (.integer, cs) := by
    rw [lexeme_of_digit hc, List.takeWhile_eq_self_iff.2 hcs]
  obtain ⟨more, hmore, htokens⟩ := tokens_cons (isBlank_eq_false (.inl hc)) p cs
  rw [hlexeme, List.drop_length, tokens_nil] at hmore
  rw [htokens, hlexeme, hmore]
  rfl

omit hne in
/-- No token extends from other characters into a run of digits. -/
theorem apart_digits_right {as : List Char} (has : ∀ a ∈ as.getLast?, isDigit a = false) :
    Apart as ds := by
  intro a ha d hd
  have hdigit := hds d (List.mem_of_mem_head? hd)
  have hequals : (d == '=') = false := by
    rw [beq_eq_false_iff_ne]
    rintro rfl
    exact absurd hdigit (by decide)
  rw [joins, has a ha, isLetter_of_isDigit hdigit, hequals]
  simp

omit hne in
/-- No token extends from a run of digits into other characters. -/
theorem apart_digits_left {bs : List Char} (hbs : ∀ b ∈ bs.head?, isDigit b = false) :
    Apart ds bs := by
  intro d hd b hb
  have hdigit := hds d (List.mem_of_getLast? hd)
  have hsign : signEquals? d = none := by
    cases h : signEquals? d with
    | none => rfl
    | some kind =>
        rw [(signEquals?_eq_some h).1] at hdigit
        cases hdigit
  rw [joins, hbs b hb, isLetter_of_isDigit hdigit, hsign]
  simp

/-- **A run of digits is one token of any text**, if no digit stands before or behind it. -/
theorem tokens_around_digits {as bs : List Char} (has : ∀ a ∈ as.getLast?, isDigit a = false)
    (hbs : ∀ b ∈ bs.head?, isDigit b = false) (p : Pos) :
    (⟨p, as ++ ds ++ bs⟩ : Lexer).tokens.body = (⟨p, as⟩ : Lexer).tokens.body ++
      .ofDigits ds (p.after as) :: (⟨(p.after as).after ds, bs⟩ : Lexer).tokens.body := by
  have hright : Apart as (ds ++ bs) := by
    intro a ha d hd
    rw [List.head?_append_of_ne_nil _ hne] at hd
    exact apart_digits_right hds has a ha d hd
  rw [List.append_assoc, tokens_append hright, tokens_append (apart_digits_left hds hbs),
    tokens_digits hne hds, List.singleton_append]

end Lexer

/-! ### How a literal is read -/

/-- **What is to become of a literal** with the value `v`: a node with that value if it is a word,
and one error and a broken node if not. -/
structure Token.ReadExactly (t : Token) (v : Nat) (errors : List SyntaxError) (e : Expr) :
    Prop where
  fits : v ≤ 9223372036854775807 →
    errors = [] ∧ ∃ n : Int64, n.toInt = v ∧ e = .integer t n
  tooLarge : 9223372036854775807 < v →
    errors = [.tooLarge t] ∧ e = .error t none (some SyntaxError.tooLargeReason)

namespace Parser

variable {t : Token}

/-- A literal is read by the decimal value of its digits. -/
theorem integer_readExactly (t : Token) :
    t.ReadExactly (Integer.decimal t.literal.toList) (integer t).1 (integer t).2 := by
  have hnone := Integer.ofDigits?_eq_none_iff t.literal.toList
  rw [Integer.valueOfDigits_eq_decimal] at hnone
  constructor
  · intro hle
    obtain ⟨n, hn⟩ := Option.ne_none_iff_exists'.1 (mt hnone.1 (by omega))
    rw [integer, hn]
    exact ⟨rfl, n, Integer.toInt_eq_decimal hn, rfl⟩
  · intro hlt
    rw [integer, hnone.2 hlt]
    exact ⟨rfl, rfl⟩

/-- The expression is complete before the token, and no more than other tokens were missing. -/
def FinishedBefore (t : Token) (r : List SyntaxError × Move) : Prop :=
  (∃ e, r.2 = .finished e) ∧ ∀ error ∈ r.1, ∃ k, error = .unexpected k t

/-- **A token that cannot go on with an expression ends it.** -/
theorem close_finishedBefore (ht : ¬ t.kind.Continues) (free : Bool) (ps : List Pending)
    (e : Expr) : FinishedBefore t (close t free ps e) := by
  constructor
  · induction ps generalizing free e with
    | nil => exact ⟨e, by simp [close, precedence_of_not_continues ht]⟩
    | cons p ps ih =>
        cases hp : p.operation? e with
        | some e' =>
            rw [close_operation ht free p ps hp]
            exact ih true e'
        | none =>
            rw [close_broken ht free ps hp]
            exact ih true _
  · intro error herror
    exact ⟨.parenRight, close_errors herror⟩

/-- A token that cannot go on with an expression ends it where another is expected. -/
theorem expect_finishedBefore (ht : ¬ t.kind.Continues) {k : TokenKind} (hk : t.kind ≠ k)
    (ps : List Pending) (move : Move) : FinishedBefore t (expect k t ps move) := by
  constructor
  · rw [expect, if_neg hk]
    exact (close_finishedBefore ht true ps _).1
  · intro error herror
    exact expect_errors herror

section Literal

variable (ht : t.kind = .integer)

include ht

theorem not_continues_of_integer : ¬ t.kind.Continues := by
  rw [ht]
  decide

theorem begin_integer (ps : List Pending) :
    begin t ps = ((integer t).1, ps, .operator (integer t).2) := by
  simp only [begin, ht]

theorem operand_integer (ps : List Pending) :
    operand t ps = ((integer t).1, .stay ps (.operator (integer t).2)) := by
  have heof : t.kind ≠ .eof := by
    rw [ht]
    decide
  rw [operand, if_neg heof, begin_integer ht]

theorem start_integer (outer : List OpenBlock) (before : List Stmt) :
    start t outer before =
      ((integer t).1, ⟨outer, before, .inside (.expr t) [] (.operator (integer t).2)⟩) := by
  simp only [start, ht, startExpr, begin_integer ht]

/-- Inside an expression a literal is an operand, or the expression is complete before it. -/
theorem advance_integer (ps : List Pending) (goal : Goal) :
    (∃ qs, advance t ps goal = ((integer t).1, .stay qs (.operator (integer t).2))) ∨
      FinishedBefore t (advance t ps goal) := by
  have hends := not_continues_of_integer ht
  have hother {k : TokenKind} (hk : k ≠ .integer) : t.kind ≠ k := ht ▸ hk.symm
  cases goal with
  | operand => exact .inl ⟨ps, operand_integer ht ps⟩
  | operator e | closer e => exact .inr (close_finishedBefore hends _ ps e)
  | conditionParen tok | brace owner | parametersParen tok | parameter tok xs =>
      exact .inr (expect_finishedBefore hends (hother (by decide)) ps _)
  | otherwise tok c yes =>
      rw [advance, if_neg (hother (by decide))]
      exact .inr (close_finishedBefore hends true ps _)
  | firstParameter tok | parametersEnd tok xs =>
      rw [advance, if_neg (hother (by decide))]
      exact .inr (expect_finishedBefore hends (hother (by decide)) ps _)
  | arguments tok f =>
      rw [advance, if_neg (hother (by decide))]
      exact .inl ⟨_, operand_integer ht _⟩

/-- **A literal is an operand wherever it stands.**  After the errors for tokens that are missing
before it there are those about the literal, and what has been read last is its node. -/
theorem step_integer (s : State) :
    ∃ missing head ps, (step s t).1 = missing ++ (integer t).1 ∧
      (step s t).2.phase = .inside head ps (.operator (integer t).2) ∧
      ∀ error ∈ missing, ∃ k, error = .unexpected k t := by
  obtain ⟨outer, before, phase⟩ := s
  have hother {k : TokenKind} (hk : k ≠ .integer) : t.kind ≠ k := ht ▸ hk.symm
  cases phase with
  | ready =>
      rw [step, start_integer ht]
      exact ⟨[], .expr t, [], rfl, rfl, List.forall_mem_nil _⟩
  | bindName tok =>
      have hk : t.kind ≠ .identifier := hother (by decide)
      simp only [step, if_neg hk, abandon, start_integer ht]
      refine ⟨[.unexpected .identifier t], .expr t, [], rfl, rfl, ?_⟩
      exact List.forall_mem_singleton.2 ⟨.identifier, rfl⟩
  | bindAssign tok x =>
      have hk : t.kind ≠ .assign := hother (by decide)
      simp only [step, if_neg hk, abandon, start_integer ht]
      refine ⟨[.unexpected .assign t], .expr t, [], rfl, rfl, ?_⟩
      exact List.forall_mem_singleton.2 ⟨.assign, rfl⟩
  | inside head ps goal =>
      rw [step_inside]
      rcases advance_integer ht ps goal with ⟨qs, hstay⟩ | ⟨⟨e, hfinished⟩, hmissing⟩
      · rw [hstay]
        exact ⟨[], head, qs, rfl, rfl, List.forall_mem_nil _⟩
      · -- the statement is complete, and another begins with the literal
        rcases hmove : advance t ps goal with ⟨missing, move⟩
        rw [hmove] at hfinished hmissing
        obtain rfl : move = .finished e := hfinished
        rw [carry, start_integer ht]
        exact ⟨missing, .expr t, [], rfl, rfl, hmissing⟩

end Literal

end Parser

/-! ### Literals that are too large -/

/-- The token is a literal whose value is no word. -/
def Token.TooLarge (t : Token) : Prop :=
  t.kind = .integer ∧ 9223372036854775807 < Integer.decimal t.literal.toList

instance : DecidablePred Token.TooLarge := fun _ => inferInstanceAs (Decidable (_ ∧ _))

/-- The error is about a literal. -/
def SyntaxError.OfLiteral : SyntaxError → Bool
  | .unexpected _ _ => false
  | .noOperand _ => false
  | .tooLarge _ => true

/-- Only a literal is at fault for an error about a literal. -/
theorem Token.AtFault.not_ofLiteral {t : Token} {error : SyntaxError} (h : t.AtFault error)
    (ht : t.kind ≠ .integer) : ¬ error.OfLiteral = true := by
  cases h with
  | unexpected k => exact Bool.false_ne_true
  | noOperand => exact Bool.false_ne_true
  | tooLarge hk _ => exact absurd hk ht

namespace Parser

variable {t : Token}

/-- The errors about a token as a literal. -/
def literalErrors (t : Token) : List SyntaxError :=
  if t.TooLarge then [.tooLarge t] else []

theorem literalErrors_of_kind_ne (ht : t.kind ≠ .integer) : literalErrors t = [] :=
  if_neg fun hlarge => ht hlarge.1

theorem integer_errors (ht : t.kind = .integer) : (integer t).1 = literalErrors t := by
  have hexact := integer_readExactly t
  unfold literalErrors
  split
  case isTrue hlarge => exact (hexact.tooLarge hlarge.2).1
  case isFalse hfits =>
    refine (hexact.fits ?_).1
    by_contra hlt
    exact hfits ⟨ht, by omega⟩

/-- **A step records an error about a literal if the token is one that is too large.** -/
theorem step_ofLiteral (s : State) (t : Token) :
    (step s t).1.filter SyntaxError.OfLiteral = literalErrors t := by
  by_cases ht : t.kind = .integer
  · obtain ⟨missing, -, -, herrors, -, hmissing⟩ := step_integer ht s
    have hnone : missing.filter SyntaxError.OfLiteral = [] := by
      rw [List.filter_eq_nil_iff]
      intro error herror
      obtain ⟨k, rfl⟩ := hmissing error herror
      simp [SyntaxError.OfLiteral]
    rw [herrors, List.filter_append, hnone, List.nil_append, integer_errors ht]
    unfold literalErrors
    split <;> rfl
  · rw [literalErrors_of_kind_ne ht, List.filter_eq_nil_iff]
    intro error herror
    exact (step_atFault herror).not_ofLiteral ht

theorem run_ofLiteral (s : State) (ts : List Token) :
    (run s ts).1.filter SyntaxError.OfLiteral = ts.flatMap literalErrors := by
  induction ts generalizing s with
  | nil => rfl
  | cons t ts ih =>
      rw [run_cons, List.filter_append, step_ofLiteral, ih, List.flatMap_cons]

theorem finish_ofLiteral {eof : Token} (heof : eof.kind ≠ .integer) (outer : List OpenBlock)
    (before : List Stmt) : (finish eof outer before).1.filter SyntaxError.OfLiteral = [] := by
  rw [List.filter_eq_nil_iff]
  intro error herror
  exact (finish_atFault herror).not_ofLiteral heof

end Parser

namespace Parsed

open LetFn.Parser

/-- **The errors about the literals of a text** name those that are too large, each of them once, in
the order of the text. -/
theorem errors_ofLiteral {ts : Tokens} (heof : ts.eof.kind = .eof) :
    (ofTokens ts).errors.filter SyntaxError.OfLiteral =
      (ts.body.filter fun t => t.TooLarge).map .tooLarge := by
  have hend : ts.eof.kind ≠ .integer := by
    rw [heof]
    decide
  rw [ofTokens, List.filter_append, run_ofLiteral, finish_ofLiteral hend, List.append_nil,
    List.flatMap_append, List.flatMap_singleton, literalErrors_of_kind_ne hend, List.append_nil]
  induction ts.body with
  | nil => rfl
  | cons t body ih =>
      rw [List.flatMap_cons, ih, literalErrors, List.filter_cons]
      by_cases hlarge : t.TooLarge <;> simp [hlarge]

end Parsed

/-! ### Literals in a tree -/

section Tree

variable {t : Token}

open LetFn.Parser in
/-- Of the nodes that are not broken only an integer has a literal for its token. -/
theorem Node.eq_integer {o : Origin} {n : Node} (hn : n.StemsFrom o) (hwhole : n.Whole)
    (ht : t ∈ n.own) (hk : t.kind = .integer) :
    ∃ m, n = .expr (.integer t m) ∧ Integer.ofDigits? t.literal.toList = some m := by
  -- the tokens of all other nodes are of other kinds
  have hother {k : TokenKind} {u : Token} (hu : o.Has k u) (hne : k ≠ .integer) : t ≠ u := by
    rintro rfl
    exact hne (hu.2.symm.trans hk)
  have hnames {xs : List Ident} (hxs : ∀ x ∈ xs, x.StemsFrom o) : t ∉ xs.map Ident.token := by
    intro hmem
    obtain ⟨x, hx, hxt⟩ := List.mem_map.1 hmem
    exact hother (hxs x hx).1 (by decide) hxt.symm
  have hoperator {u : Token} {ks : List TokenKind} (hu : u.kind ∈ ks) (hne : .integer ∉ ks) :
      t ≠ u := by
    rintro rfl
    exact hne (hk ▸ hu)
  cases n with
  | expr e =>
      cases e with
      | integer u m =>
          obtain rfl := List.mem_singleton.1 ht
          exact ⟨m, rfl, hn.2⟩
      | ident x => exact absurd (List.mem_singleton.1 ht) (hother hn.1 (by decide))
      | boolean u b =>
          exact absurd (List.mem_singleton.1 ht) (hother hn (by cases b <;> decide))
      | unary op e | binary l op r =>
          exact absurd (List.mem_singleton.1 ht) (hoperator hn.2 (by decide))
      | ifElse u c yes no? => exact absurd (List.mem_singleton.1 ht) (hother hn (by decide))
      | function u xs body =>
          rcases List.mem_cons.1 ht with hu | hxs
          · exact absurd hu (hother hn.1 (by decide))
          · exact absurd hxs (hnames hn.2)
      | call u f es => cases ht
      | error u expected message => exact absurd trivial hwhole
  | stmt s =>
      cases s with
      | bind u x e =>
          rcases List.mem_cons.1 ht with hu | hx
          · exact absurd hu (hother hn.1 (by decide))
          · exact absurd (List.mem_singleton.1 hx) (hother hn.2.1 (by decide))
      | returns u e => exact absurd (List.mem_singleton.1 ht) (hother hn (by decide))
      | expr u e | block b => cases ht
      | error u => exact absurd trivial hwhole
  | block b => exact absurd (List.mem_singleton.1 ht) (hother hn (by decide))
  | program p => cases ht

/-- **The literals of a correct text have nodes in its tree**, with the values of their digits. -/
theorem Parsed.exists_integer {ts : Tokens} (heof : ts.eof.kind = .eof)
    (h : (ofTokens ts).errors = []) (ht : t ∈ ts.body) (hk : t.kind = .integer) :
    ∃ n : Int64, n.toInt = Integer.decimal t.literal.toList ∧
      .expr (.integer t n) ∈ (ofTokens ts).program.nodes := by
  have hreading : t ∈ (ofTokens ts).program.reading := by
    rw [reading_ofTokens heof h, Parser.kept, List.mem_filter, hk]
    exact ⟨ht, by decide⟩
  obtain ⟨n, hn, hown⟩ := (Program.mem_reading _).1 hreading
  obtain ⟨s, hs, hns⟩ := Stmt.mem_nodesAll.1 hn
  have hstems := stemsFrom_ofTokens ts s hs n hns
  have hwhole := whole_of_errors_eq_nil h s hs n hns
  obtain ⟨m, rfl, hm⟩ := Node.eq_integer hstems hwhole hown hk
  exact ⟨m, Integer.toInt_eq_decimal hm, hn⟩

end Tree

/-! ### Whole texts -/

namespace Parsed

open LetFn.Parser

/-- The only token of a text is a literal. -/
theorem ofTokens_integer {t eof : Token} (ht : t.kind = .integer) (heof : eof.kind = .eof) :
    ofTokens ⟨[t], eof⟩ = ⟨⟨[.expr t (integer t).2]⟩, (integer t).1⟩ := by
  have hfirst : step .initial t =
      ((integer t).1, ⟨[], [], .inside (.expr t) [] (.operator (integer t).2)⟩) :=
    start_integer ht [] []
  have hlast (e : Expr) : step ⟨[], [], .inside (.expr t) [] (.operator e)⟩ eof =
      ([], ⟨[], [.expr t e], .ready⟩) := by
    have hclose : close eof true [] e = ([], .finished e) := by
      simp [close, heof, TokenKind.precedence]
    simp [step_inside, advance, hclose, carry, start, heof, Head.complete]
  rw [ofTokens, List.singleton_append, run_cons, hfirst, run_cons, hlast]
  simp [finish]

/-- A text that is a run of digits. -/
theorem ofString_digits {ds : List Char} (hne : ds ≠ [])
    (hds : ∀ d ∈ ds, Lexer.isDigit d = true) :
    ofString (String.ofList ds) =
      ⟨⟨[.expr (.ofDigits ds .start) (integer (.ofDigits ds .start)).2]⟩,
        (integer (.ofDigits ds .start)).1⟩ := by
  have hbody := Lexer.tokens_digits hne hds .start
  have heof := Lexer.kind_tokens_eof ⟨.start, ds⟩
  rw [ofString, Tokens.ofString, Lexer.ofString, String.toList_ofList]
  rcases htokens : (⟨.start, ds⟩ : Lexer).tokens with ⟨body, eof⟩
  rw [htokens] at hbody heof
  obtain rfl := hbody
  exact ofTokens_integer rfl heof

/-- **An integer that is not negative is read back from its text.** -/
theorem ofString_text (u : Token) {n : Int64} (hn : 0 ≤ n.toInt) :
    ofString (Expr.integer u n).render =
      ⟨⟨[.expr ⟨.integer, Integer.text n, .start⟩
          (.integer ⟨.integer, Integer.text n, .start⟩ n)]⟩, []⟩ := by
  obtain ⟨c, cs, htext, hc, hcs⟩ := exists_text hn
  have hds : ∀ d ∈ c :: cs, Lexer.isDigit d = true := List.forall_mem_cons.2 ⟨hc, hcs⟩
  have hinteger : integer (.ofDigits (c :: cs) .start) =
      ([], .integer (.ofDigits (c :: cs) .start) n) := by
    rw [integer, Token.ofDigits, ← htext, Integer.ofDigits?_text n hn]
  rw [Expr.render, htext, ofString_digits (List.cons_ne_nil c cs) hds, hinteger]
  rfl

/-- **Integer literals are read exactly.**

Let a text have a run of digits in it, with no digit before or behind.  The run is one token.  In
whatever state a parser is it takes the token for an operand, after errors for tokens that should
have come before: if the decimal value of the digits is at most `2 ^ 63 - 1` it has no error for the
literal and an integer node with that value, and if not it has one error and a broken node.  So the
errors about literals are one for each that is too large, in the order of the text; a text without
errors has the node in its tree; and the run by itself is a text with that node or that error alone.
And whatever is at most `2 ^ 63 - 1` is read back from the text of its node. -/
theorem literals_exact {as ds bs : List Char} (hne : ds ≠ [])
    (hds : ∀ d ∈ ds, Lexer.isDigit d = true) (has : ∀ a ∈ as.getLast?, Lexer.isDigit a = false)
    (hbs : ∀ b ∈ bs.head?, Lexer.isDigit b = false) :
    let source := String.ofList (as ++ ds ++ bs)
    let t := Token.ofDigits ds (Pos.start.after as)
    (Tokens.ofString source).body = (⟨.start, as⟩ : Lexer).tokens.body ++
      t :: (⟨(Pos.start.after as).after ds, bs⟩ : Lexer).tokens.body ∧
    (∀ s : State, ∃ missing errors head ps e, (step s t).1 = missing ++ errors ∧
      (∀ error ∈ missing, ∃ k, error = .unexpected k t) ∧
      (step s t).2.phase = .inside head ps (.operator e) ∧
      t.ReadExactly (Integer.decimal ds) errors e) ∧
    (ofString source).errors.filter SyntaxError.OfLiteral =
      ((Tokens.ofString source).body.filter fun u => u.TooLarge).map .tooLarge ∧
    ((ofString source).errors = [] → ∃ n : Int64, n.toInt = Integer.decimal ds ∧
      .expr (.integer t n) ∈ (ofString source).program.nodes) ∧
    (∃ e errors, ofString (String.ofList ds) = ⟨⟨[.expr (.ofDigits ds .start) e]⟩, errors⟩ ∧
      (Token.ofDigits ds .start).ReadExactly (Integer.decimal ds) errors e) ∧
    ∀ v : Nat, v ≤ 9223372036854775807 → ∃ n : Int64, n.toInt = v ∧ ∀ u,
      ofString (Expr.integer u n).render =
        ⟨⟨[.expr ⟨.integer, Integer.text n, .start⟩
            (.integer ⟨.integer, Integer.text n, .start⟩ n)]⟩, []⟩ := by
  intro source t
  have hexact (p : Pos) : (Token.ofDigits ds p).ReadExactly (Integer.decimal ds)
      (integer (.ofDigits ds p)).1 (integer (.ofDigits ds p)).2 := by
    have hread := integer_readExactly (.ofDigits ds p)
    rwa [Token.ofDigits, String.toList_ofList] at hread
  have htokens : (Tokens.ofString source).body = (⟨.start, as⟩ : Lexer).tokens.body ++
      t :: (⟨(Pos.start.after as).after ds, bs⟩ : Lexer).tokens.body := by
    rw [Tokens.ofString, Lexer.ofString, String.toList_ofList]
    exact Lexer.tokens_around_digits hne hds has hbs .start
  have heof : (Tokens.ofString source).eof.kind = .eof := Lexer.kind_tokens_eof _
  refine ⟨htokens, ?_, errors_ofLiteral heof, ?_, ?_, ?_⟩
  · intro s
    obtain ⟨missing, head, ps, herrors, hphase, hmissing⟩ := step_integer (t := t) rfl s
    exact ⟨missing, _, head, ps, _, herrors, hmissing, hphase, hexact _⟩
  · intro hcorrect
    have ht : t ∈ (Tokens.ofString source).body := by
      rw [htokens]
      exact List.mem_append_right _ (List.mem_cons_self ..)
    obtain ⟨n, hvalue, hnode⟩ := exists_integer heof hcorrect ht rfl
    rw [show t.literal.toList = ds from String.toList_ofList] at hvalue
    exact ⟨n, hvalue, hnode⟩
  · exact ⟨_, _, ofString_digits hne hds, hexact .start⟩
  · intro v hv
    have hvalue : (Int64.ofNat v).toInt = v := Int64.toInt_ofNat_of_lt (by omega)
    have hn : 0 ≤ (Int64.ofNat v).toInt := by omega
    exact ⟨.ofNat v, hvalue, fun u => ofString_text u hn⟩

/-- The largest integer, behind zeros, is the argument of a call. -/
theorem literals_exact_largest :
    (∀ d ∈ "0009223372036854775807".toList, Lexer.isDigit d = true) ∧
    (∀ a ∈ "f(".toList.getLast?, Lexer.isDigit a = false) ∧
    (∀ b ∈ ") - x".toList.head?, Lexer.isDigit b = false) ∧
    (ofString "f(0009223372036854775807) - x").errors = [] ∧
    ∃ n : Int64, n.toInt = 9223372036854775807 ∧
      .expr (.integer ⟨.integer, "0009223372036854775807", ⟨1, 3⟩⟩ n) ∈
        (ofString "f(0009223372036854775807) - x").program.nodes := by
  have hds : ∀ d ∈ "0009223372036854775807".toList, Lexer.isDigit d = true := by
    simp [Lexer.isDigit]
  have has : ∀ a ∈ "f(".toList.getLast?, Lexer.isDigit a = false := by simp [Lexer.isDigit]
  have hbs : ∀ b ∈ ") - x".toList.head?, Lexer.isDigit b = false := by simp [Lexer.isDigit]
  have hcorrect : (ofString "f(0009223372036854775807) - x").errors = [] := by decide +kernel
  refine ⟨hds, has, hbs, hcorrect, ?_⟩
  obtain ⟨-, -, -, hnode, -, -⟩ := literals_exact (by decide) hds has hbs
  obtain ⟨n, hvalue, hmem⟩ := hnode hcorrect
  exact ⟨n, hvalue.trans (by decide +kernel), hmem⟩

end Parsed

end LetFn
