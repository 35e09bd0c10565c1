/-
**The text of a tree, word by word.**

The text of a tree is cut into tokens again by the lexer, and here it is said which: the *words* of
the tree.  They are put together from the words of its parts in the way in which the text is put
together from the texts of its parts, and no token ever extends from one part into another, because
blanks, brackets, commas and semicolons stand between them.  Only a unary operator stands directly
before its operand, whose text does not begin with an equals sign.

A node that could not be read is written as a remark, whose words are whatever the lexer makes of
it.

Main definitions:

* `LetFn.Expr.words`, `LetFn.Stmt.words`, `LetFn.Block.words`, `LetFn.Program.words` — the words of a
  tree;
* `LetFn.Lexes` — a text has these words, whatever follows it.

Main results:

* `LetFn.lexemes_piece` — the words of a piece between the parts of a text, whatever follows it;
* `LetFn.Lexes.intercalate` — the words of several texts with a separator between them;
* `LetFn.Program.lexemes_render` — **the lexemes of the text of a regular tree are its words**.
-/

import LetFn.Proofs.Parser.Regular
import LetFn.Syntax.Render

set_option relaxedAutoImplicit false
set_option autoImplicit false

namespace LetFn

open Lexer

/-! ### The words of a tree -/

mutual

/-- The words of an expression. -/
def Expr.words : Expr → List Token
  | .ident x => [⟨.identifier, x.name, .start⟩]
  | .integer _ n => [⟨.integer, Integer.text n, .start⟩]
  | .boolean _ b => [(boolKind b).token]
  | .unary op e =>
    TokenKind.parenLeft.token :: op.kind.token :: (e.words ++ [TokenKind.parenRight.token])
  | .binary l op r =>
    TokenKind.parenLeft.token ::
      (l.words ++ op.kind.token :: (r.words ++ [TokenKind.parenRight.token]))
  | .ifElse _ c yes none =>
    TokenKind.kwIf.token :: TokenKind.parenLeft.token ::
      (c.words ++ TokenKind.parenRight.token :: yes.words)
  | .ifElse _ c yes (some no) =>
    TokenKind.kwIf.token :: TokenKind.parenLeft.token ::
      (c.words ++ TokenKind.parenRight.token :: (yes.words ++ TokenKind.kwElse.token :: no.words))
  | .function _ xs body =>
    TokenKind.kwFn.token :: TokenKind.parenLeft.token ::
      ([TokenKind.comma.token].intercalate (xs.map fun x => [⟨.identifier, x.name, .start⟩]) ++
        TokenKind.parenRight.token :: body.words)
  | .call _ f es =>
    f.words ++ TokenKind.parenLeft.token ::
      ([TokenKind.comma.token].intercalate (Expr.wordsAll es) ++ [TokenKind.parenRight.token])
  | .error t expected message => lexemes (brokenText t expected message).toList

/-- The words of several expressions. -/
def Expr.wordsAll : List Expr → List (List Token)
  | [] => []
  | e :: es => e.words :: Expr.wordsAll es

/-- The words of a statement. -/
def Stmt.words : Stmt → List Token
  | .bind _ x e =>
    TokenKind.kwLet.token :: ⟨.identifier, x.name, .start⟩ :: TokenKind.assign.token :: e.words
  | .returns _ e => TokenKind.kwReturn.token :: e.words
  | .expr _ e => e.words
  | .block b => b.words
  | .error t => lexemes (brokenText t none none).toList

/-- The words of several statements. -/
def Stmt.wordsAll : List Stmt → List (List Token)
  | [] => []
  | s :: ss => s.words :: Stmt.wordsAll ss

/-- The words of a block. -/
def Block.words : Block → List Token
  | ⟨_, ss⟩ =>
    TokenKind.braceLeft.token ::
      ([TokenKind.semicolon.token].intercalate (Stmt.wordsAll ss) ++ [TokenKind.braceRight.token])

end

/-- The words of a program. -/
def Program.words (p : Program) : List Token :=
  [TokenKind.semicolon.token].intercalate (Stmt.wordsAll p.statements)

@[simp] theorem Expr.wordsAll_eq_map (es : List Expr) : Expr.wordsAll es = es.map Expr.words := by
  induction es with
  | nil => rfl
  | cons e es ih => simp [Expr.wordsAll, ih]

@[simp] theorem Stmt.wordsAll_eq_map (ss : List Stmt) : Stmt.wordsAll ss = ss.map Stmt.words := by
  induction ss with
  | nil => rfl
  | cons s ss ih => simp [Stmt.wordsAll, ih]

/-! ### The lexemes of a piece -/

/-- A text has the words `ws`, whatever follows it. -/
def Lexes (text : String) (ws : List Token) : Prop :=
  ∀ rest, Stops rest → lexemes (text.toList ++ rest) = ws ++ lexemes rest

/-- The first character of the text is a blank, or a sign that belongs to no token before it. -/
def beginsToken (text : String) : Bool :=
  text.toList.head?.any fun b => !isDigit b && !isLetter b && b != '='

theorem stops_piece {text : String} (rest : List Char)
    (h : beginsToken text = true := by decide) : Stops (text.toList ++ rest) := by
  unfold beginsToken at h
  cases htext : text.toList with
  | nil => simp [htext] at h
  | cons a as =>
      intro b hb
      obtain rfl := Option.some.inj hb
      simpa [htext, and_assoc] using h

/-- The last character of the text is a blank, or a token by itself with which no other begins. -/
def endsToken (text : String) : Bool :=
  text.toList.getLast?.all fun a => !isDigit a && !isLetter a && (signEquals? a).isNone

/-- The pieces of text that stand between the parts of a node, and the kinds of their words. -/
def pieces : List (String × List TokenKind) :=
  [("(", [.parenLeft]), (")", [.parenRight]), (") ", [.parenRight]), (", ", [.comma]),
    ("; ", [.semicolon]), (" ", []), ("if (", [.kwIf, .parenLeft]), (" else ", [.kwElse]),
    ("fn(", [.kwFn, .parenLeft]), ("let ", [.kwLet]), (" = ", [.assign]), ("return ", [.kwReturn]),
    ("\x7b ", [.braceLeft]), (" \x7d", [.braceRight]), ("\x7b \x7d", [.braceLeft, .braceRight])]

theorem lexemes_of_mem_pieces : ∀ p ∈ pieces,
    endsToken p.1 = true ∧ lexemes p.1.toList = p.2.map TokenKind.token := by
  decide +kernel

/-- **A piece between the parts of a text**, and what follows it. -/
theorem lexemes_piece (text : String) (ks : List TokenKind) {rest : List Char}
    (h : (text, ks) ∈ pieces := by simp [pieces]) :
    lexemes (text.toList ++ rest) = ks.map TokenKind.token ++ lexemes rest := by
  obtain ⟨hends, hks⟩ := lexemes_of_mem_pieces _ h
  rw [lexemes_append, hks]
  intro a ha b _
  rw [endsToken, Option.mem_def.1 ha] at hends
  simp only [Option.all_some, Bool.and_eq_true, Bool.not_eq_true', Option.isNone_iff_eq_none]
    at hends
  obtain ⟨⟨hdigit, hletter⟩, hsign⟩ := hends
  simp [joins, hdigit, hletter, hsign]

/-- A genuine token by itself. -/
theorem Token.Genuine.lexes {t : Token} (ht : t.Genuine) : Lexes t.literal [t.unplaced] :=
  fun _ hrest => ht.lexemes_append (hrest.apart _)

/-- **The words of several texts with a separator between them.** -/
theorem Lexes.intercalate {α : Type} (separator : String) (k : TokenKind) {text : α → String}
    {words : α → List Token} {xs : List α} (h : ∀ x ∈ xs, Lexes (text x) (words x))
    (hpiece : (separator, [k]) ∈ pieces := by simp [pieces])
    (hbegins : beginsToken separator = true := by decide) :
    Lexes (separator.intercalate (xs.map text)) ([k.token].intercalate (xs.map words)) := by
  intro rest hrest
  induction xs with
  | nil => simp
  | cons x xs ih =>
      obtain ⟨hx, hxs⟩ := List.forall_mem_cons.1 h
      cases xs with
      | nil => simpa using hx rest hrest
      | cons y xs =>
          have htail := ih hxs
          simp only [List.map_cons] at htail ⊢
          rw [String.intercalate_cons_cons, List.intercalate_cons_cons, String.toList_append,
            String.toList_append, List.append_assoc, List.append_assoc,
            hx _ (stops_piece _ hbegins), lexemes_piece separator [k] hpiece, htail]
          simp

/-- Statements between braces: an empty block has one blank in it. -/
theorem lexemes_bracedText (texts : List String) (rest : List Char) :
    lexemes ((bracedText texts).toList ++ rest) =
      TokenKind.braceLeft.token ::
        lexemes (("; ".intercalate texts).toList ++ (" \x7d".toList ++ rest)) := by
  cases texts with
  | nil =>
      rw [bracedText, lexemes_piece "\x7b \x7d" [.braceLeft, .braceRight],
        String.intercalate_nil, String.toList_empty, List.nil_append,
        lexemes_piece " \x7d" [.braceRight]]
      rfl
  | cons text texts =>
      simp only [bracedText, String.toList_append, List.append_assoc]
      rw [lexemes_piece "\x7b " [.braceLeft]]
      rfl

/-! ### Names, integers and operators -/

/-- The name of a regular identifier is its only word. -/
theorem Ident.Regular.lexes {x : Ident} (hx : x.Regular) :
    Lexes x.name [⟨.identifier, x.name, .start⟩] := by
  obtain ⟨hgenuine, hkind, hname⟩ := hx
  have hunplaced : x.token.unplaced = ⟨.identifier, x.name, .start⟩ := by
    simp [Token.unplaced, hkind, hname]
  rw [← hunplaced, hname]
  exact hgenuine.lexes

/-- The text of an integer that is not negative is a run of digits. -/
theorem exists_text {n : Int64} (hn : 0 ≤ n.toInt) :
    ∃ c cs, Integer.text n = String.ofList (c :: cs) ∧ isDigit c = true ∧
      ∀ d ∈ cs, isDigit d = true := by
  have htext : Integer.text n = String.ofList (Integer.digits n.toInt.natAbs) := by
    rw [Integer.text, Integer.textOfInt, if_neg (by omega)]
  have hdigits : ∀ c ∈ Integer.digits n.toInt.natAbs, isDigit c = true := fun c hc =>
    Nat.isDigit_of_mem_toDigits (by decide) (by decide) hc
  obtain ⟨c, cs, hcs⟩ := List.exists_cons_of_ne_nil
    (show Integer.digits n.toInt.natAbs ≠ [] from Nat.toDigits_ne_nil)
  rw [hcs, List.forall_mem_cons] at hdigits
  exact ⟨c, cs, by rw [htext, hcs], hdigits⟩

/-- The digits of an integer that is not negative are its only word. -/
theorem lexes_text {n : Int64} (hn : 0 ≤ n.toInt) :
    Lexes (Integer.text n) [⟨.integer, Integer.text n, .start⟩] := by
  obtain ⟨c, cs, htext, hc, hcs⟩ := exists_text hn
  have hlexeme : lexeme c cs = (.integer, cs) := by
    simp [lexeme, hc, List.takeWhile_eq_self_iff.2 hcs]
  have hblank : isBlank c = false := by
    by_contra hblank
    simp only [Bool.not_eq_false, isBlank, Bool.or_eq_true, beq_iff_eq] at hblank
    rcases hblank with ((rfl | rfl) | rfl) | rfl <;> exact absurd hc (by decide)
  have hgenuine : (⟨.integer, Integer.text n, .start⟩ : Token).Genuine :=
    ⟨c, cs, hblank, by rw [hlexeme], by rw [hlexeme, htext]⟩
  exact hgenuine.lexes

/-- The keyword of a truth value is its only word. -/
theorem lexes_boolText (b : Bool) : Lexes (boolText b) [(boolKind b).token] := by
  have htokens : ∀ b, lexemes (boolText b).toList = [(boolKind b).token] := by decide +kernel
  intro rest hrest
  rw [lexemes_append (hrest.apart _), htokens]

theorem Token.Spelled.literal_eq {t : Token} {k : TokenKind} (h : t.Spelled k) :
    t.literal = k.token.literal := by
  rw [← Token.unplaced_literal t, show t.unplaced = k.token from h]

/-- The spelling of an operator is cut into the operator. -/
theorem lexemes_operator : ∀ k ∈ Grammar.binaryOperators ++ Grammar.unaryOperators,
    lexemes k.token.literal.toList = [k.token] := by
  decide +kernel

/-- A binary operator is the only word of its literal. -/
theorem lexes_binaryOperator {op : Token} (hop : op.kind ∈ Grammar.binaryOperators)
    (hspelled : op.Spelled op.kind) : Lexes op.literal [op.kind.token] := by
  intro rest hrest
  rw [hspelled.literal_eq, lexemes_append (hrest.apart _),
    lexemes_operator _ (List.mem_append_left _ hop)]

/-- The literal of a unary operator is its only word, unless an equals sign follows. -/
theorem lexemes_unaryOperator {op : Token} (hop : op.kind ∈ Grammar.unaryOperators)
    (hspelled : op.Spelled op.kind) {rest : List Char} (hrest : ∀ b ∈ rest.head?, b ≠ '=') :
    lexemes (op.literal.toList ++ rest) = op.kind.token :: lexemes rest := by
  have hchar : ∃ c, op.kind.token.literal.toList = [c] ∧ isDigit c = false ∧
      isLetter c = false := by
    rcases (show op.kind = .bang ∨ op.kind = .minus by simpa [Grammar.unaryOperators] using hop)
      with hkind | hkind
    · exact ⟨'!', by rw [hkind]; rfl, rfl, rfl⟩
    · exact ⟨'-', by rw [hkind]; rfl, rfl, rfl⟩
  obtain ⟨c, hliteral, hdigit, hletter⟩ := hchar
  rw [hspelled.literal_eq, lexemes_append, lexemes_operator _ (List.mem_append_right _ hop),
    List.singleton_append]
  intro a ha b hb
  obtain rfl : c = a := by simpa [hliteral] using ha
  simp [joins, hdigit, hletter, hrest b hb]

/-! ### The lexemes of the text of a tree -/

theorem head?_append_ne {as : List Char} (has : as.head?.any (· != '=') = true)
    (rest : List Char) : ∀ b ∈ (as ++ rest).head?, b ≠ '=' := by
  cases as with
  | nil => cases has
  | cons a as => simpa using has

/-- A remark about what could not be read begins with an angle bracket. -/
theorem exists_brokenText (t : Token) (k : Option TokenKind) (m : Option String) :
    ∃ cs, (brokenText t k m).toList = '<' :: cs := by
  unfold brokenText
  split <;> exact ⟨_, by simp only [String.toList_append, List.append_assoc]; rfl⟩

/-- The text of an expression does not begin with an equals sign. -/
theorem Expr.head?_render_ne : (e : Expr) → e.Regular → (rest : List Char) →
    ∀ b ∈ (e.render.toList ++ rest).head?, b ≠ '='
  | .ident x, h, rest => by
    obtain ⟨⟨c, cs, -, hkind, hliteral⟩, hident, hname⟩ := Expr.every_ident.1 h
    have hc : c ≠ '=' := by
      -- an equals sign begins an operator and no name
      rintro rfl
      rw [hident] at hkind
      revert hkind
      cases cs with
      | nil => decide
      | cons d ds =>
          by_cases hd : d = '=' <;> simp [lexeme, isDigit, isLetter, hd, sign, signEquals?]
    rw [Expr.render, hname, hliteral, String.toList_ofList]
    exact head?_append_ne (by simpa using hc) rest
  | .integer _ n, h, rest => by
    obtain ⟨c, cs, htext, hdigit, -⟩ := exists_text (Expr.every_integer.1 h).2
    have hc : c ≠ '=' := by
      rintro rfl
      exact absurd hdigit (by decide)
    rw [Expr.render, htext, String.toList_ofList]
    exact head?_append_ne (by simpa using hc) rest
  | .boolean _ b, _, rest => by
    have hb : (boolText b).toList.head?.any (· != '=') = true := by cases b <;> decide
    exact head?_append_ne hb rest
  | .unary _ _, _, rest | .binary _ _ _, _, rest | .ifElse _ _ _ none, _, rest
  | .ifElse _ _ _ (some _), _, rest | .function _ _ _, _, rest => by
    simp only [Expr.render, String.toList_append, List.append_assoc]
    exact head?_append_ne (by decide) _
  | .call _ f _, h, rest => by
    simp only [Expr.render, String.toList_append, List.append_assoc]
    exact Expr.head?_render_ne f (Expr.every_call.1 h).2.1 _
  | .error t k m, _, rest => by
    obtain ⟨cs, hcs⟩ := exists_brokenText t k m
    rw [Expr.render, hcs]
    exact head?_append_ne rfl rest

/-- The remark about what could not be read ends with an angle bracket. -/
theorem lexes_brokenText (t : Token) (k : Option TokenKind) (m : Option String) :
    Lexes (brokenText t k m) (lexemes (brokenText t k m).toList) :=
  fun _ hrest => lexemes_append (hrest.apart _)

mutual

/-- The text of a regular expression has the words of the expression. -/
theorem Expr.lexes_render : (e : Expr) → e.Regular → Lexes e.render e.words
  | .ident x, h => (Expr.every_ident.1 h).lexes
  | .integer _ n, h => lexes_text (Expr.every_integer.1 h).2
  | .boolean _ b, _ => lexes_boolText b
  | .unary op e, h => by
    obtain ⟨⟨hop, hspelled⟩, he⟩ := Expr.every_unary.1 h
    have hlexes := Expr.lexes_render e he
    intro rest hrest
    simp only [Expr.render, Expr.words, String.toList_append, List.append_assoc]
    rw [lexemes_piece "(" [.parenLeft],
      lexemes_unaryOperator hop hspelled (e.head?_render_ne he _), hlexes _ (stops_piece _),
      lexemes_piece ")" [.parenRight]]
    simp
  | .binary l op r, h => by
    obtain ⟨⟨hop, hspelled⟩, hl, hr⟩ := Expr.every_binary.1 h
    have hlexesl := Expr.lexes_render l hl
    have hlexesr := Expr.lexes_render r hr
    intro rest hrest
    simp only [Expr.render, Expr.words, String.toList_append, List.append_assoc]
    rw [lexemes_piece "(" [.parenLeft], hlexesl _ (stops_piece _), lexemes_piece " " [],
      lexes_binaryOperator hop hspelled _ (stops_piece _), lexemes_piece " " [],
      hlexesr _ (stops_piece _), lexemes_piece ")" [.parenRight]]
    simp
  | .ifElse _ c yes none, h => by
    obtain ⟨-, hc, hyes⟩ := Expr.every_ifThen.1 h
    have hlexesc := Expr.lexes_render c hc
    have hlexes := Block.lexes_render yes hyes
    intro rest hrest
    simp only [Expr.render, Expr.words, String.toList_append, List.append_assoc]
    rw [lexemes_piece "if (" [.kwIf, .parenLeft], hlexesc _ (stops_piece _),
      lexemes_piece ") " [.parenRight], hlexes _ hrest]
    simp
  | .ifElse _ c yes (some no), h => by
    obtain ⟨-, hc, hyes, hno⟩ := Expr.every_ifElse.1 h
    have hlexesc := Expr.lexes_render c hc
    have hlexes := Block.lexes_render yes hyes
    have hlexes' := Block.lexes_render no hno
    intro rest hrest
    simp only [Expr.render, Expr.words, String.toList_append, List.append_assoc]
    rw [lexemes_piece "if (" [.kwIf, .parenLeft], hlexesc _ (stops_piece _),
      lexemes_piece ") " [.parenRight], hlexes _ (stops_piece _),
      lexemes_piece " else " [.kwElse], hlexes' _ hrest]
    simp
  | .function _ xs body, h => by
    obtain ⟨⟨-, hxs⟩, hbody⟩ := Expr.every_function.1 h
    have hlexes := Block.lexes_render body hbody
    have hparameters := Lexes.intercalate ", " .comma fun x hx => (hxs x hx).lexes
    intro rest hrest
    simp only [Expr.render, Expr.words, String.toList_append, List.append_assoc, parametersText]
    rw [lexemes_piece "fn(" [.kwFn, .parenLeft], hparameters _ (stops_piece _),
      lexemes_piece ") " [.parenRight], hlexes _ hrest]
    simp
  | .call _ f es, h => by
    obtain ⟨-, hf, hes⟩ := Expr.every_call.1 h
    have hlexes := Expr.lexes_render f hf
    have harguments := Lexes.intercalate ", " .comma (Expr.lexes_renderAll es hes)
    intro rest hrest
    simp only [Expr.render, Expr.words, String.toList_append, List.append_assoc,
      Expr.renderAll_eq_map, Expr.wordsAll_eq_map]
    rw [hlexes _ (stops_piece _), lexemes_piece "(" [.parenLeft], harguments _ (stops_piece _),
      lexemes_piece ")" [.parenRight]]
    simp
  | .error t k m, _ => lexes_brokenText t k m

theorem Expr.lexes_renderAll : (es : List Expr) → (∀ e ∈ es, e.Regular) →
    ∀ e ∈ es, Lexes e.render e.words
  | [], _ => by simp
  | e :: es, h => by
    obtain ⟨he, hes⟩ := List.forall_mem_cons.1 h
    rw [List.forall_mem_cons]
    exact ⟨Expr.lexes_render e he, Expr.lexes_renderAll es hes⟩

/-- The text of a regular statement has the words of the statement. -/
theorem Stmt.lexes_render : (s : Stmt) → s.Regular → Lexes s.render s.words
  | .bind _ x e, h => by
    obtain ⟨⟨-, hx⟩, he⟩ := Stmt.every_bind.1 h
    have hlexes := Expr.lexes_render e he
    intro rest hrest
    simp only [Stmt.render, Stmt.words, String.toList_append, List.append_assoc]
    rw [lexemes_piece "let " [.kwLet], hx.lexes _ (stops_piece _),
      lexemes_piece " = " [.assign], hlexes _ hrest]
    simp
  | .returns _ e, h => by
    have hlexes := Expr.lexes_render e (Stmt.every_returns.1 h).2
    intro rest hrest
    simp only [Stmt.render, Stmt.words, String.toList_append, List.append_assoc]
    rw [lexemes_piece "return " [.kwReturn], hlexes _ hrest]
    simp
  | .expr _ e, h => Expr.lexes_render e (Stmt.every_expr.1 h).2
  | .block b, h => Block.lexes_render b (Stmt.every_block.1 h).2
  | .error t, _ => lexes_brokenText t none none

theorem Stmt.lexes_renderAll : (ss : List Stmt) → (∀ s ∈ ss, s.Regular) →
    ∀ s ∈ ss, Lexes s.render s.words
  | [], _ => by simp
  | s :: ss, h => by
    obtain ⟨hs, hss⟩ := List.forall_mem_cons.1 h
    rw [List.forall_mem_cons]
    exact ⟨Stmt.lexes_render s hs, Stmt.lexes_renderAll ss hss⟩

/-- The text of a regular block has the words of the block. -/
theorem Block.lexes_render : (b : Block) → b.Regular → Lexes b.render b.words
  | ⟨_, ss⟩, h => by
    obtain ⟨-, hss⟩ := Block.every_mk.1 h
    have hlexes := Lexes.intercalate "; " .semicolon (Stmt.lexes_renderAll ss hss)
    intro rest hrest
    simp only [Block.render, Block.words, Stmt.renderAll_eq_map, Stmt.wordsAll_eq_map]
    rw [lexemes_bracedText, hlexes _ (stops_piece _), lexemes_piece " \x7d" [.braceRight]]
    simp

end

/-- **The lexemes of the text of a regular program are its words.** -/
theorem Program.lexemes_render {p : Program} (hp : ∀ s ∈ p.statements, s.Regular) :
    lexemes p.render.toList = p.words := by
  have hlexes := Lexes.intercalate "; " .semicolon (Stmt.lexes_renderAll p.statements hp)
  have hend : Stops [] := by simp [Stops]
  simpa [Program.render, Program.words] using hlexes [] hend

end LetFn
