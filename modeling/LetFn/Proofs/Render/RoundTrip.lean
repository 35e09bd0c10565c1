/-
**Reading the text of a program.**

The text of a program without broken nodes is read as that program, without errors.  Broken nodes
are written as remarks in angle brackets, and these can not be read: most have a character in them
that begins no token, and the one that has none stands where a statement is to begin, which never
begins with an angle bracket.  So the text of a program is read without errors exactly if nothing in
the program is broken.

It does not matter with which errors the program was read in the first place.  An unterminated
block, for one, is an error that leaves no trace in the program.

Main definitions:

* `LetFn.Parser.Spoiled` — kinds of tokens among which one is at fault wherever they are read.

Main results:

* `LetFn.Parser.Outline.Accepts.not_spoiled` — spoiled tokens are never accepted;
* `LetFn.Program.spoiled_words` — the words of a program with a broken node are spoiled;
* `LetFn.Parsed.render_roundTrip` — **the text of a program is read as that program, exactly if
  nothing in it is broken**.
-/

import LetFn.Proofs.Parser.Language
import LetFn.Proofs.Render.Reread

set_option relaxedAutoImplicit false
set_option autoImplicit false

namespace LetFn

open LetFn.Parser Lexer

namespace Parser

/-! ### Spoiled tokens -/

/-- The tokens after which a statement may begin, and cannot but begin. -/
def Separates (k : TokenKind) : Prop :=
  k = .semicolon ∨ k = .braceLeft

/-- One of the tokens begins none, or a statement begins with an angle bracket. -/
def Spoiled (ks : List TokenKind) : Prop :=
  .illegal ∈ ks ∨ ∃ k, Separates k ∧ [k, .less] <:+: ks

theorem Spoiled.of_infix {ks ls : List TokenKind} (h : Spoiled ks) (hpart : ks <:+: ls) :
    Spoiled ls := by
  rcases h with hillegal | ⟨k, hk, hless⟩
  · exact .inl (hpart.subset hillegal)
  · exact .inr ⟨k, hk, hless.trans hpart⟩

namespace Outline

/-- A semicolon after an operand ends the statement, unless a bracket is open. -/
theorem slot_of_operator_semicolon {fs : List Frame} {o : Outline}
    (h : operator .semicolon fs = some o) : o.slot = .statement := by
  cases fs with
  | nil =>
      obtain rfl := Option.some.inj h
      rfl
  | cons f fs =>
      cases f with
      | block kind =>
          obtain rfl := Option.some.inj h
          rfl
      | group | condition | argument => cases h

/-- After a semicolon or an opening brace a statement is to begin. -/
theorem slot_of_separates {k : TokenKind} (hk : Separates k) {o o' : Outline}
    (h : o.step k = some o') : o'.slot = .statement := by
  obtain ⟨slot, fs⟩ := o
  rcases hk with rfl | rfl
  · cases slot with
    | statement =>
        obtain rfl := Option.some.inj h
        rfl
    | operator | otherwise => exact slot_of_operator_semicolon h
    | _ => cases h
  · cases slot with
    | brace kind =>
        obtain rfl := Option.some.inj h
        rfl
    | operator | otherwise => exact absurd ((operator_eq_none (.inr rfl) fs).symm.trans h) nofun
    | _ => cases h

/-- **Spoiled tokens are never accepted.** -/
theorem Accepts.not_spoiled {o : Outline} {ks : List TokenKind} (h : o.Accepts ks) :
    ¬ Spoiled ks := by
  induction ks generalizing o with
  | nil => simp [Spoiled]
  | cons k ks ih =>
      obtain ⟨o', hstep, hrest⟩ := h
      have hks := ih hrest
      rintro (hillegal | ⟨k', hk', hpart⟩)
      · rcases List.mem_cons.1 hillegal with rfl | hillegal
        · exact absurd hstep (by simp [step_illegal])
        · exact hks (.inl hillegal)
      · rcases List.infix_cons_iff.1 hpart with hprefix | hpart
        · obtain ⟨rfl, hless⟩ := List.cons_prefix_cons.1 hprefix
          obtain ⟨ls, rfl⟩ := hless
          -- the angle bracket would begin a statement
          obtain ⟨o'', hstep', -⟩ := hrest
          have hslot := slot_of_separates hk' hstep
          rw [step, hslot] at hstep'
          cases hstep'
        · exact hks (.inr ⟨k', hk', hpart⟩)

end Outline

end Parser

/-! ### Remarks -/

/-- A character that begins no token is a token by itself, of the kind `illegal`. -/
theorem Lexer.illegal_mem_lexemes {c : Char} {cs : List Char} (hc : c ∈ cs)
    (hblank : isBlank c = false) (hdigit : isDigit c = false) (hletter : isLetter c = false)
    (hsign : signEquals? c = none ∧ sign c = .illegal) :
    .illegal ∈ (lexemes cs).map Token.kind := by
  obtain ⟨as, bs, rfl⟩ := List.append_of_mem hc
  -- no token before the character goes on with it
  have hstops : Stops (c :: bs) := by
    intro b hb
    obtain rfl := Option.some.inj hb
    refine ⟨hdigit, hletter, ?_⟩
    rintro rfl
    cases hsign.1
  have hlexeme : lexeme c bs = (.illegal, []) := by
    simp [lexeme, hdigit, hletter, hsign]
  rw [lexemes_append (hstops.apart as), lexemes_cons hblank, hlexeme]
  simp

/-- The remark for an expression has a colon in it. -/
theorem colon_mem_brokenText (t : Token) {k : Option TokenKind} {m : Option String}
    (h : k ≠ none ∨ m ≠ none) : ':' ∈ (brokenText t k m).toList := by
  unfold brokenText
  split
  · simp
  · simp
  · simp at h

/-- The remark for an expression is spoiled. -/
theorem spoiled_brokenText (t : Token) {k : Option TokenKind} {m : Option String}
    (h : k ≠ none ∨ m ≠ none) :
    Spoiled ((lexemes (brokenText t k m).toList).map Token.kind) :=
  .inl (illegal_mem_lexemes (colon_mem_brokenText t h) (by decide) (by decide) (by decide)
    (by decide))

/-- The remark for a statement is spoiled where it stands. -/
theorem spoiled_separates_brokenText {k : TokenKind} (hk : Separates k) (t : Token) :
    Spoiled (k :: (lexemes (brokenText t none none).toList).map Token.kind) := by
  by_cases ht : t.kind = .eof
  · -- the end of the text is named without quotes, and all characters of the remark begin tokens
    have hkinds : (lexemes (brokenText t none none).toList).map Token.kind =
        [.less, .identifier, .identifier, .identifier, .greater] := by
      have htext : brokenText t none none = "<error at EOF>" := by
        simp [brokenText, Token.quoted, ht]
      rw [htext]
      decide +kernel
    rw [hkinds]
    exact .inr ⟨k, hk, ⟨[], [.identifier, .identifier, .identifier, .greater], rfl⟩⟩
  · have hquote : Char.ofNat 96 ∈ (brokenText t none none).toList := by
      simp [brokenText, Token.quoted, ht]
    have hillegal := illegal_mem_lexemes hquote (by decide) (by decide) (by decide) (by decide)
    exact .inl (List.mem_cons_of_mem k hillegal)

/-! ### Trees with broken nodes -/

theorem not_spoiled_of_infix (ts : List Token) {us : List Token} (h : ¬ Spoiled (us.map Token.kind))
    (hpart : ts <:+: us) : ¬ Spoiled (ts.map Token.kind) :=
  fun hts => h (hts.of_infix (hpart.map Token.kind))

/-- A list is a part of any list in which it is separated from others. -/
theorem infix_intercalate {α : Type} (separator : List α) {xs : List α} {lists : List (List α)}
    (hxs : xs ∈ lists) : xs <:+: separator.intercalate lists := by
  induction lists with
  | nil => cases hxs
  | cons ys lists ih =>
      cases lists with
      | nil =>
          obtain rfl := List.mem_singleton.1 hxs
          exact ⟨[], [], by rw [List.intercalate_singleton, List.nil_append, List.append_nil]⟩
      | cons zs lists =>
          rw [List.intercalate_cons_cons]
          rcases List.mem_cons.1 hxs with rfl | hxs
          · exact ⟨[], _, by rw [List.nil_append, List.append_assoc]⟩
          · exact (ih hxs).trans (List.suffix_append _ _).isInfix

/-- Statements between which semicolons stand come each after a token that separates. -/
theorem not_spoiled_of_mem (ss : List Stmt) {k : TokenKind} (hk : Separates k)
    (h : ¬ Spoiled (k :: ([TokenKind.semicolon.token].intercalate (ss.map Stmt.words)).map
      Token.kind)) :
    ∀ s ∈ ss, ∃ k', Separates k' ∧ ¬ Spoiled (k' :: s.words.map Token.kind) := by
  induction ss generalizing k with
  | nil => simp
  | cons s ss ih =>
      rw [List.forall_mem_cons]
      cases ss with
      | nil => exact ⟨⟨k, hk, by simpa using h⟩, by simp⟩
      | cons r ss =>
          rw [List.map_cons, List.map_cons, List.intercalate_cons_cons, List.append_assoc,
            List.map_append, List.map_append] at h
          refine ⟨⟨k, hk, fun hs => h (hs.of_infix ?_)⟩,
            ih (.inl rfl) fun hrest => h (hrest.of_infix ?_)⟩
          · exact ⟨[], _, by rw [List.nil_append, List.cons_append]⟩
          · exact ⟨k :: s.words.map Token.kind, [], by rw [List.append_nil]; rfl⟩

mutual

/-- An expression whose words are not spoiled has no broken node. -/
theorem Expr.whole_of_words : (e : Expr) → e.Regular → ¬ Spoiled (e.words.map Token.kind) →
    e.Every Node.Whole
  | .ident _, _, _ => Expr.every_ident.2 id
  | .integer _ _, _, _ => Expr.every_integer.2 id
  | .boolean _ _, _, _ => Expr.every_boolean.2 id
  | .unary op e, hr, h => by
    have he := not_spoiled_of_infix e.words h
      ⟨[TokenKind.parenLeft.token, op.kind.token], [TokenKind.parenRight.token], rfl⟩
    exact Expr.every_unary.2 ⟨id, Expr.whole_of_words e (Expr.every_unary.1 hr).2 he⟩
  | .binary l op r, hr, h => by
    obtain ⟨-, hrl, hrr⟩ := Expr.every_binary.1 hr
    have hl := not_spoiled_of_infix l.words h
      ⟨[TokenKind.parenLeft.token], op.kind.token :: (r.words ++ [TokenKind.parenRight.token]), rfl⟩
    have hr := not_spoiled_of_infix r.words h
      ⟨TokenKind.parenLeft.token :: (l.words ++ [op.kind.token]), [TokenKind.parenRight.token],
        by simp [Expr.words]⟩
    exact Expr.every_binary.2 ⟨id, Expr.whole_of_words l hrl hl, Expr.whole_of_words r hrr hr⟩
  | .ifElse _ c yes none, hr, h => by
    obtain ⟨-, hrc, hry⟩ := Expr.every_ifThen.1 hr
    have hc := not_spoiled_of_infix c.words h
      ⟨[TokenKind.kwIf.token, TokenKind.parenLeft.token],
        TokenKind.parenRight.token :: yes.words, rfl⟩
    have hyes := not_spoiled_of_infix yes.words h
      ⟨TokenKind.kwIf.token :: TokenKind.parenLeft.token ::
          (c.words ++ [TokenKind.parenRight.token]),
        [], by simp [Expr.words]⟩
    exact Expr.every_ifThen.2
      ⟨id, Expr.whole_of_words c hrc hc, Block.whole_of_words yes hry hyes⟩
  | .ifElse _ c yes (some no), hr, h => by
    obtain ⟨-, hrc, hry, hrn⟩ := Expr.every_ifElse.1 hr
    have hc := not_spoiled_of_infix c.words h
      ⟨[TokenKind.kwIf.token, TokenKind.parenLeft.token],
        TokenKind.parenRight.token :: (yes.words ++ TokenKind.kwElse.token :: no.words), rfl⟩
    have hyes := not_spoiled_of_infix yes.words h
      ⟨TokenKind.kwIf.token :: TokenKind.parenLeft.token ::
          (c.words ++ [TokenKind.parenRight.token]),
        TokenKind.kwElse.token :: no.words, by simp [Expr.words]⟩
    have hno := not_spoiled_of_infix no.words h
      ⟨TokenKind.kwIf.token :: TokenKind.parenLeft.token ::
          (c.words ++ TokenKind.parenRight.token :: (yes.words ++ [TokenKind.kwElse.token])),
        [], by simp [Expr.words]⟩
    exact Expr.every_ifElse.2 ⟨id, Expr.whole_of_words c hrc hc,
      Block.whole_of_words yes hry hyes, Block.whole_of_words no hrn hno⟩
  | .function _ xs body, hr, h => by
    have hbody := not_spoiled_of_infix body.words h
      ⟨TokenKind.kwFn.token :: TokenKind.parenLeft.token ::
          ([TokenKind.comma.token].intercalate (xs.map fun x => [⟨.identifier, x.name, .start⟩]) ++
            [TokenKind.parenRight.token]), [], by simp [Expr.words]⟩
    exact Expr.every_function.2
      ⟨id, Block.whole_of_words body (Expr.every_function.1 hr).2 hbody⟩
  | .call _ f es, hr, h => by
    obtain ⟨-, hrf, hres⟩ := Expr.every_call.1 hr
    have hf := not_spoiled_of_infix f.words h (List.prefix_append _ _).isInfix
    have hargs : ¬ Spoiled
        (([TokenKind.comma.token].intercalate (Expr.wordsAll es)).map Token.kind) :=
      not_spoiled_of_infix _ h
        ⟨f.words ++ [TokenKind.parenLeft.token], [TokenKind.parenRight.token], by simp [Expr.words]⟩
    have hes : ∀ e ∈ es, ¬ Spoiled (e.words.map Token.kind) := fun e he =>
      not_spoiled_of_infix _ hargs
        (infix_intercalate _ (by rw [Expr.wordsAll_eq_map]; exact List.mem_map_of_mem he))
    exact Expr.every_call.2 ⟨id, Expr.whole_of_words f hrf hf, Expr.whole_of_wordsAll es hres hes⟩
  | .error t _ _, hr, h => absurd (spoiled_brokenText t (Expr.every_error.1 hr)) h

theorem Expr.whole_of_wordsAll : (es : List Expr) → (∀ e ∈ es, e.Regular) →
    (∀ e ∈ es, ¬ Spoiled (e.words.map Token.kind)) → ∀ e ∈ es, e.Every Node.Whole
  | [], _, _ => by simp
  | e :: es, hr, h => by
    obtain ⟨hre, hres⟩ := List.forall_mem_cons.1 hr
    obtain ⟨he, hes⟩ := List.forall_mem_cons.1 h
    rw [List.forall_mem_cons]
    exact ⟨Expr.whole_of_words e hre he, Expr.whole_of_wordsAll es hres hes⟩

/-- A statement whose words are not spoiled where a statement may begin has no broken node. -/
theorem Stmt.whole_of_words : (s : Stmt) → s.Regular → (k : TokenKind) → Separates k →
    ¬ Spoiled (k :: s.words.map Token.kind) → s.Every Node.Whole
  | .bind _ x e, hr, k, _, h => by
    have he : ¬ Spoiled (e.words.map Token.kind) := fun he => h (he.of_infix
      ⟨[k, .kwLet, .identifier, .assign], [], by simp [Stmt.words, TokenKind.token]⟩)
    exact Stmt.every_bind.2 ⟨id, Expr.whole_of_words e (Stmt.every_bind.1 hr).2 he⟩
  | .returns _ e, hr, k, _, h => by
    have he : ¬ Spoiled (e.words.map Token.kind) := fun he => h (he.of_infix
      ⟨[k, .kwReturn], [], by simp [Stmt.words, TokenKind.token]⟩)
    exact Stmt.every_returns.2 ⟨id, Expr.whole_of_words e (Stmt.every_returns.1 hr).2 he⟩
  | .expr _ e, hr, k, _, h => by
    have he : ¬ Spoiled (e.words.map Token.kind) := fun he =>
      h (he.of_infix (List.suffix_cons k _).isInfix)
    exact Stmt.every_expr.2 ⟨id, Expr.whole_of_words e (Stmt.every_expr.1 hr).2 he⟩
  | .block _, hr, _, _, _ => absurd (Stmt.every_block.1 hr).1 id
  | .error t, _, _, hk, h => absurd (spoiled_separates_brokenText hk t) h

theorem Stmt.whole_of_wordsAll : (ss : List Stmt) → (∀ s ∈ ss, s.Regular) →
    (∀ s ∈ ss, ∃ k, Separates k ∧ ¬ Spoiled (k :: s.words.map Token.kind)) →
    ∀ s ∈ ss, s.Every Node.Whole
  | [], _, _ => by simp
  | s :: ss, hr, h => by
    obtain ⟨hrs, hrss⟩ := List.forall_mem_cons.1 hr
    obtain ⟨⟨k, hk, hs⟩, hss⟩ := List.forall_mem_cons.1 h
    rw [List.forall_mem_cons]
    exact ⟨Stmt.whole_of_words s hrs k hk hs, Stmt.whole_of_wordsAll ss hrss hss⟩

/-- A block whose words are not spoiled has no broken node. -/
theorem Block.whole_of_words : (b : Block) → b.Regular → ¬ Spoiled (b.words.map Token.kind) →
    b.Every Node.Whole
  | ⟨_, ss⟩, hr, h => by
    have hss := not_spoiled_of_mem ss (k := .braceLeft) (.inr rfl) fun hss =>
      h (hss.of_infix ⟨[], [.braceRight], by simp [Block.words, TokenKind.token]⟩)
    exact Block.every_mk.2 ⟨id, Stmt.whole_of_wordsAll ss (Block.every_mk.1 hr).2 hss⟩

end

/-- **The words of a program with a broken node are spoiled**, where a statement may begin. -/
theorem Program.spoiled_words {p : Program} (hp : ∀ s ∈ p.statements, s.Regular)
    (hbroken : ∃ n ∈ p.nodes, n.Broken) :
    Spoiled (.semicolon :: p.words.map Token.kind) := by
  by_contra h
  rw [Program.words, Stmt.wordsAll_eq_map] at h
  have hwhole := Stmt.whole_of_wordsAll p.statements hp
    (not_spoiled_of_mem p.statements (.inl rfl) h)
  obtain ⟨n, hn, hbroken⟩ := hbroken
  obtain ⟨s, hs, hn⟩ := Stmt.mem_nodesAll.1 hn
  exact hwhole s hs n hn hbroken

/-! ### The round trip -/

/-- The text of a program is cut into its words. -/
theorem Program.map_unplaced_tokens {p : Program} (hp : ∀ s ∈ p.statements, s.Regular) :
    (Tokens.ofString p.render).body.map Token.unplaced = p.words := by
  rw [Tokens.ofString, Lexer.map_unplaced_tokens, Lexer.ofString, Program.lexemes_render hp]

/-- **The text of a program is read as that program, exactly if nothing in it is broken**: up to the
places of tokens, the way in which integers were written, and the tokens of statements that are
expressions. -/
theorem Parsed.render_roundTrip (source : String) :
    ((Parsed.ofString (Parsed.ofString source).program.render).errors = [] ↔
      ∀ n ∈ (Parsed.ofString source).program.nodes, ¬ n.Broken) ∧
    ((∀ n ∈ (Parsed.ofString source).program.nodes, ¬ n.Broken) →
      (Parsed.ofString (Parsed.ofString source).program.render).program.forget =
        (Parsed.ofString source).program.forget ∧
      (Parsed.ofString (Parsed.ofString source).program.render).program.render =
        (Parsed.ofString source).program.render) := by
  have hp := Parsed.regular_ofString source
  generalize (Parsed.ofString source).program = p at hp ⊢
  have hwords := Program.map_unplaced_tokens hp
  have heof : (Tokens.ofString p.render).eof.kind = .eof := Lexer.kind_tokens_eof _
  have hbody : ∀ t ∈ (Tokens.ofString p.render).body, t.kind ≠ .eof := fun _ =>
    Lexer.kind_ne_eof_of_mem_tokens
  -- without places, what is read is the words of the program
  have hunplaced := Parsed.ofTokens_unplaced (Tokens.ofString p.render)
  rw [hwords] at hunplaced
  have hreread (hwhole : ∀ n ∈ p.nodes, ¬ n.Broken) : (Parsed.ofString p.render).errors = [] ∧
      (Parsed.ofString p.render).program.forget = p.forget := by
    have hstatements : ∀ s ∈ p.statements, s.Every Node.Whole := fun s hs n hn =>
      hwhole n (Stmt.mem_nodesAll.2 ⟨s, hs, hn⟩)
    obtain ⟨herrors, hforget⟩ := Program.ofTokens_words hp hstatements
      (show (Tokens.ofString p.render).eof.unplaced.kind = .eof from heof)
    rw [hunplaced] at herrors hforget
    refine ⟨List.map_eq_nil_iff.1 herrors, ?_⟩
    rw [← hforget]
    exact (Program.forget_unplaced _).symm
  refine ⟨⟨fun herrors => ?_, fun hwhole => (hreread hwhole).1⟩, fun hwhole => ?_⟩
  · -- spoiled words are not accepted, and a semicolon before them makes no difference
    by_contra hbroken
    have hspoiled := Program.spoiled_words hp (by simpa using hbroken)
    have hderives := ((Parsed.errors_ofTokens_eq_nil_iff hbody heof).1 herrors).2
    have hkinds : (Tokens.ofString p.render).body.map Token.kind = p.words.map Token.kind := by
      rw [← hwords, List.map_map]
      rfl
    rw [hkinds, ← Outline.accepts_initial_iff] at hderives
    have hstep : Outline.initial.step .semicolon = some .initial := rfl
    exact (Outline.accepts_of_step hstep hderives).not_spoiled hspoiled
  · obtain ⟨-, hforget⟩ := hreread hwhole
    refine ⟨hforget, ?_⟩
    rw [← Program.render_forget, hforget, Program.render_forget]

/-- An unterminated block is an error, but leaves no broken node. -/
theorem Parsed.render_roundTrip_unterminated :
    (Parsed.ofString "let f = fn(x) \x7b if (x < 07) \x7b -x * f(1, true) ").errors ≠ [] ∧
    (∀ n ∈ (Parsed.ofString "let f = fn(x) \x7b if (x < 07) \x7b -x * f(1, true) ").program.nodes,
      ¬ n.Broken) ∧
    (Parsed.ofString (Parsed.ofString
      "let f = fn(x) \x7b if (x < 07) \x7b -x * f(1, true) ").program.render).program.forget =
      (Parsed.ofString "let f = fn(x) \x7b if (x < 07) \x7b -x * f(1, true) ").program.forget := by
  have hread : (Parsed.ofString
      "let f = fn(x) \x7b if (x < 07) \x7b -x * f(1, true) ").errors ≠ [] ∧
      ∀ n ∈ (Parsed.ofString
        "let f = fn(x) \x7b if (x < 07) \x7b -x * f(1, true) ").program.nodes, ¬ n.Broken := by
    decide +kernel
  exact ⟨hread.1, hread.2, ((Parsed.render_roundTrip _).2 hread.2).1⟩

end LetFn
