/-
**The first error is recorded at the first token that is impossible.**

What a parser has read without errors can always be gone on with so that the text becomes correct:
the construct under way is completed, and then whatever is open around it is closed, innermost
first.  The token at which the first error is recorded, on the other hand, spoils the text for good:
whatever comes after it, there will be an error.  So the place of the first error is not an accident
of how the parser works, it is the end of the longest beginning that some correct text has.

Main definitions:

* `LetFn.Parser.Outline.run` — what several tokens do to an outline, if none is at fault;
* `LetFn.Parser.Outline.closing` — tokens that complete an outline.

Main results:

* `LetFn.Parser.Outline.accepts_closing` — **every outline can be completed**;
* `LetFn.Parser.run_first_error` — where the first error comes from;
* `LetFn.Parsed.exists_correct` — tokens that are not at fault begin a correct text;
* `LetFn.Parsed.first_error_impossible` — **before the token of the first error the text can be made
  correct, and after it no more**.
-/

import LetFn.Proofs.Parser.Fault
import LetFn.Proofs.Parser.Language
import LetFn.Proofs.Parser.Places

set_option relaxedAutoImplicit false
set_option autoImplicit false

namespace LetFn

namespace Parser

/-! ### Completing an outline -/

namespace Outline

/-- What several tokens do to an outline, if none of them is at fault. -/
def run (o : Outline) : List TokenKind → Option Outline
  | [] => some o
  | k :: ks => (o.step k).bind fun o' => o'.run ks

/-- A list of tokens is accepted if the first part of it leads to an outline that accepts the
rest. -/
theorem accepts_append {o : Outline} {ks ls : List TokenKind} :
    o.Accepts (ks ++ ls) ↔ ∃ o', o.run ks = some o' ∧ o'.Accepts ls := by
  induction ks generalizing o with
  | nil => simp [run]
  | cons k ks ih =>
      simp only [List.cons_append, accepts_cons, run, Option.bind_eq_some_iff, ih]
      constructor
      · rintro ⟨o', hstep, o'', hrun, hls⟩
        exact ⟨o'', ⟨o', hstep, hrun⟩, hls⟩
      · rintro ⟨o'', ⟨o', hstep, hrun⟩, hls⟩
        exact ⟨o', hstep, o'', hrun, hls⟩

end Outline

/-- What closes an open bracket or brace after an operand. -/
def Frame.closing : Frame → List TokenKind
  | .group => [.parenRight]
  | .condition => [.parenRight, .braceLeft, .braceRight]
  | .argument => [.parenRight]
  | .block _ => [.braceRight]

/-- What completes an operand. -/
def Slot.closing : Slot → List TokenKind
  | .statement => [.identifier]
  | .bindName => [.identifier, .assign, .identifier]
  | .bindAssign => [.assign, .identifier]
  | .operand => [.identifier]
  | .operator => []
  | .conditionParen => [.parenLeft, .identifier, .parenRight, .braceLeft, .braceRight]
  | .brace _ => [.braceLeft, .braceRight]
  | .otherwise => []
  | .parametersParen => [.parenLeft, .parenRight, .braceLeft, .braceRight]
  | .firstParameter => [.parenRight, .braceLeft, .braceRight]
  | .parameter => [.identifier, .parenRight, .braceLeft, .braceRight]
  | .parametersEnd => [.parenRight, .braceLeft, .braceRight]
  | .arguments => [.parenRight]

namespace Outline

/-- **Tokens that complete an outline**: an operand is completed, and then what is open is closed. -/
def closing (o : Outline) : List TokenKind :=
  o.slot.closing ++ o.frames.flatMap Frame.closing

/-- After the consequence of a conditional whatever may come after an operand may come. -/
theorem accepts_otherwise {fs : List Frame} {ks : List TokenKind} (h : Accepts ⟨.operator, fs⟩ ks) :
    Accepts ⟨.otherwise, fs⟩ ks :=
  h.mono (.otherwise (framesLe_refl fs))

/-- After a block that is closed whatever may come after an operand may come. -/
theorem accepts_after (kind : BlockKind) {fs : List Frame} {ks : List TokenKind}
    (h : Accepts ⟨.operator, fs⟩ ks) : Accepts ⟨kind.after, fs⟩ ks := by
  cases kind with
  | consequence => exact accepts_otherwise h
  | alternative | body => exact h

/-- After an operand what is open can be closed. -/
theorem accepts_closing_frames (fs : List Frame) :
    Accepts ⟨.operator, fs⟩ (fs.flatMap Frame.closing) := by
  induction fs with
  | nil => exact ⟨rfl, .inr (.inl rfl)⟩
  | cons f fs ih =>
      rw [List.flatMap_cons]
      cases f with
      | group | argument => exact accepts_of_step rfl ih
      | condition =>
          exact accepts_of_step rfl (accepts_of_step rfl (accepts_of_step rfl (accepts_otherwise ih)))
      | block kind => exact accepts_of_step rfl (accepts_after kind ih)

/-- **Every outline can be completed.** -/
theorem accepts_closing (o : Outline) : o.Accepts o.closing := by
  obtain ⟨slot, fs⟩ := o
  have hfs := accepts_closing_frames fs
  have hbrace (kind : BlockKind) :
      Accepts ⟨.brace kind, fs⟩ (.braceLeft :: .braceRight :: fs.flatMap Frame.closing) :=
    accepts_of_step rfl (accepts_of_step rfl (accepts_after kind hfs))
  cases slot with
  | statement | operand | arguments => exact accepts_of_step rfl hfs
  | bindName => exact accepts_of_step rfl (accepts_of_step rfl (accepts_of_step rfl hfs))
  | bindAssign => exact accepts_of_step rfl (accepts_of_step rfl hfs)
  | operator => exact hfs
  | otherwise => exact accepts_otherwise hfs
  | brace kind => exact hbrace kind
  | conditionParen =>
      exact accepts_of_step rfl (accepts_of_step rfl (accepts_of_step rfl (hbrace .consequence)))
  | parametersParen => exact accepts_of_step rfl (accepts_of_step rfl (hbrace .body))
  | firstParameter | parametersEnd => exact accepts_of_step rfl (hbrace .body)
  | parameter => exact accepts_of_step rfl (accepts_of_step rfl (hbrace .body))

/-- The kinds of the tokens that complete outlines. -/
def closers : List TokenKind :=
  [.identifier, .assign, .parenLeft, .parenRight, .braceLeft, .braceRight]

theorem mem_closers_of_mem_closing {o : Outline} {k : TokenKind} (hk : k ∈ o.closing) :
    k ∈ closers := by
  rcases List.mem_append.1 hk with hk | hk
  · revert hk
    cases o.slot <;> simp +contextual [Slot.closing, closers, or_imp]
  · obtain ⟨f, -, hk⟩ := List.mem_flatMap.1 hk
    revert hk
    cases f <;> simp +contextual [Frame.closing, closers]

end Outline

/-! ### The first error -/

variable {t : Token} {error : SyntaxError}

/-- All errors of a text that is read on from a state. -/
def allErrors (eof : Token) (s : State) (ts : List Token) : List SyntaxError :=
  let body := run s (ts ++ [eof])
  body.1 ++ (finish eof body.2.outer body.2.before).1

theorem allErrors_eq_nil_iff {eof : Token} (heof : eof.kind = .eof) {ts : List Token}
    (hts : ∀ t ∈ ts, t.kind ≠ .eof) {s : State} (hs : s.Whole) :
    allErrors eof s ts = [] ↔ s.outline.Accepts (ts.map Token.soundKind) := by
  rw [← run_errors_eq_nil_iff heof hts hs, allErrors, List.append_eq_nil_iff,
    finish_errors_eq_nil_iff]

/-- **The first error comes from the first token that is at fault for the outline**, or from the end
of a text that is not complete. -/
theorem run_first_error {eof : Token} (heof : eof.kind = .eof) {ts : List Token}
    (hts : ∀ t ∈ ts, t.kind ≠ .eof) {s : State} (hs : s.Whole) {rest : List SyntaxError}
    (h : allErrors eof s ts = error :: rest) :
    ∃ before after o, ts ++ [eof] = before ++ error.token :: after ∧
      s.outline.run (before.map Token.soundKind) = some o ∧
      (error.token.kind = .eof → before = ts ∧ ¬ o.Complete) ∧
      (error.token.kind ≠ .eof → o.step error.token.soundKind = none) := by
  induction ts generalizing s with
  | nil =>
      have herror : error.token = eof := by
        have hmem : error ∈ allErrors eof s [] := h ▸ List.mem_cons_self
        rcases List.mem_append.1 hmem with hstep | hfinish
        · rw [List.nil_append, run_cons, run_nil, List.append_nil] at hstep
          exact step_token hstep
        · exact finish_token hfinish
      refine ⟨[], [], s.outline, by rw [herror], rfl, fun _ => ⟨rfl, ?_⟩, ?_⟩
      · intro hcomplete
        have hnil := (allErrors_eq_nil_iff heof hts hs).2 hcomplete
        rw [h] at hnil
        cases hnil
      · exact fun hkind => absurd (herror ▸ heof) hkind
  | cons t ts ih =>
      have ht : t.kind ≠ .eof := hts t (by simp)
      have hmirrors := step_mirrors ht hs
      have hall : allErrors eof s (t :: ts) = (step s t).1 ++ allErrors eof (step s t).2 ts := by
        simp only [allErrors, List.cons_append, run_cons, List.append_assoc]
      cases ho : s.outline.step t.soundKind with
      | none =>
          have hne : (step s t).1 ≠ [] := by rw [ho] at hmirrors; exact hmirrors
          obtain ⟨first, others, hfirst⟩ := List.exists_cons_of_ne_nil hne
          obtain rfl : first = error := by
            rw [hall, hfirst] at h
            exact (List.cons.inj h).1
          have htoken : first.token = t := step_token (hfirst ▸ List.mem_cons_self)
          refine ⟨[], ts ++ [eof], s.outline, by rw [htoken, List.nil_append, List.cons_append], rfl,
            ?_, fun _ => htoken ▸ ho⟩
          exact fun hkind => absurd (htoken ▸ hkind) ht
      | some o =>
          obtain ⟨herrors, houtline, hwhole⟩ : (step s t).1 = [] ∧ (step s t).2.outline = o ∧
              (step s t).2.Whole := by rw [ho] at hmirrors; exact hmirrors
          rw [hall, herrors, List.nil_append] at h
          obtain ⟨before, after, o', hts', hrun, hend, hstep⟩ :=
            ih (fun u hu => hts u (by simp [hu])) hwhole h
          refine ⟨t :: before, after, o', by rw [List.cons_append, hts', List.cons_append], ?_, ?_, hstep⟩
          · rw [List.map_cons, Outline.run, ho, Option.bind_some, ← houtline, hrun]
          · exact fun hkind => ⟨by rw [(hend hkind).1], (hend hkind).2⟩

end Parser

/-! ### Texts -/

/-- Kinds of tokens do not depend on their places. -/
theorem Token.map_soundKind_unplaced (ts : List Token) :
    (ts.map Token.unplaced).map Token.soundKind = ts.map Token.soundKind := by
  rw [List.map_map]
  rfl

open LetFn.Parser in
/-- A text is correct if the outline of the empty text accepts its tokens. -/
theorem Parsed.errors_ofString_iff_accepts (source : String) :
    (Parsed.ofString source).errors = [] ↔
      Outline.initial.Accepts ((Tokens.ofString source).body.map Token.soundKind) :=
  allErrors_eq_nil_iff (Lexer.kind_tokens_eof _) (fun _ => Lexer.kind_ne_eof_of_mem_tokens)
    (s := .initial) (by simp [State.Whole, State.initial])

/-- Each kind of token that completes outlines can be written. -/
theorem Parser.Outline.exists_closer {k : TokenKind} (hk : k ∈ closers) :
    ∃ t : Token, t.Genuine ∧ t.soundKind = k := by
  have hsign (c : Char) (hc : Lexer.isBlank c = false) (hc' : (Lexer.lexeme c []).1 ≠ .integer) :
      ∃ t : Token, t.Genuine ∧ t.soundKind = (Lexer.lexeme c []).1 :=
    ⟨⟨(Lexer.lexeme c []).1, String.ofList (c :: (Lexer.lexeme c []).2), .start⟩,
      ⟨c, [], hc, rfl, rfl⟩, Token.soundKind_of_kind_ne hc'⟩
  simp only [closers, List.mem_cons, List.not_mem_nil, or_false] at hk
  rcases hk with rfl | rfl | rfl | rfl | rfl | rfl
  · exact hsign 'x' (by decide) (by decide)
  · exact hsign '=' (by decide) (by decide)
  · exact hsign '(' (by decide) (by decide)
  · exact hsign ')' (by decide) (by decide)
  · exact hsign '\x7b' (by decide) (by decide)
  · exact hsign '\x7d' (by decide) (by decide)

/-- Tokens that complete an outline can be written. -/
theorem Parser.Outline.exists_closing (o : Outline) :
    ∃ ts : List Token, (∀ t ∈ ts, t.Genuine) ∧ ts.map Token.soundKind = o.closing := by
  have hclosing : ∀ k ∈ o.closing, k ∈ closers := fun _ => mem_closers_of_mem_closing
  generalize o.closing = ks at hclosing ⊢
  induction ks with
  | nil => exact ⟨[], by simp, rfl⟩
  | cons k ks ih =>
      obtain ⟨hk, hks⟩ := List.forall_mem_cons.1 hclosing
      obtain ⟨t, ht, rfl⟩ := exists_closer hk
      obtain ⟨ts, hts, rfl⟩ := ih hks
      exact ⟨t :: ts, List.forall_mem_cons.2 ⟨ht, hts⟩, rfl⟩

open LetFn.Parser in
/-- Tokens that lead the outline of the empty text somewhere begin a correct text. -/
theorem Parsed.exists_correct {ts : List Token} (hts : ∀ t ∈ ts, t.Genuine) {o : Outline}
    (ho : Outline.initial.run (ts.map Token.soundKind) = some o) :
    ∃ correct, (Parsed.ofString correct).errors = [] ∧
      ts.map Token.unplaced <+: (Tokens.ofString correct).body.map Token.unplaced := by
  -- the tokens that complete the outline are written behind them
  obtain ⟨closing, hgenuine, hclosing⟩ := o.exists_closing
  obtain ⟨correct, hcorrect⟩ := Token.exists_text (List.forall_mem_append.2 ⟨hts, hgenuine⟩)
  refine ⟨correct, ?_, hcorrect ▸ ?_⟩
  · rw [errors_ofString_iff_accepts, ← Token.map_soundKind_unplaced, hcorrect,
      Token.map_soundKind_unplaced, List.map_append, Outline.accepts_append]
    exact ⟨o, ho, hclosing ▸ o.accepts_closing⟩
  · rw [List.map_append]
    exact List.prefix_append _ _

/-- Where a text begins with certain tokens, the last of them may be its end token. -/
theorem Tokens.begins_all {source : String} {ts : List Token} {t : Token}
    (h : (ts ++ [t]).map Token.unplaced <+: (Tokens.ofString source).all.map Token.unplaced) :
    (t.kind = .eof ∧
        ts.map Token.unplaced = (Tokens.ofString source).body.map Token.unplaced) ∨
      (t.kind ≠ .eof ∧
        (ts ++ [t]).map Token.unplaced <+: (Tokens.ofString source).body.map Token.unplaced) := by
  obtain ⟨others, hothers⟩ := h
  have hall : (Tokens.ofString source).all.map Token.unplaced =
      (Tokens.ofString source).body.map Token.unplaced ++
        [(Tokens.ofString source).eof.unplaced] := List.map_append
  rw [hall] at hothers
  rcases List.eq_nil_or_concat others with rfl | ⟨others, last, rfl⟩
  · rw [List.append_nil, List.map_append, List.map_singleton] at hothers
    obtain ⟨hbody, htoken⟩ := List.append_inj' hothers rfl
    exact .inl ⟨(congrArg Token.kind (List.singleton_inj.1 htoken)).trans
      (Lexer.kind_tokens_eof _), hbody⟩
  · rw [List.concat_eq_append, ← List.append_assoc] at hothers
    obtain ⟨hbody, -⟩ := List.append_inj' hothers rfl
    refine .inr ⟨?_, others, hbody⟩
    have hmem : t.unplaced ∈ (Tokens.ofString source).body.map Token.unplaced := by
      rw [← hbody]
      simp
    obtain ⟨u, hu, htoken⟩ := List.mem_map.1 hmem
    rw [← Token.unplaced_kind, ← htoken, Token.unplaced_kind]
    exact Lexer.kind_ne_eof_of_mem_tokens hu

open LetFn.Parser in
/-- **The first error is recorded at the first token that is impossible.**  Before the token of the
first error stand tokens with which some correct text begins, wherever they stand there; but no
correct text begins with these tokens and then that one, where for the end token this says that they
are no correct text by themselves. -/
theorem Parsed.first_error_impossible (source : String) {error : SyntaxError}
    {rest : List SyntaxError} (h : (Parsed.ofString source).errors = error :: rest) :
    ∃ before after, (Tokens.ofString source).all = before ++ error.token :: after ∧
      (∃ correct, (Parsed.ofString correct).errors = [] ∧
        before.map Token.unplaced <+: (Tokens.ofString correct).body.map Token.unplaced) ∧
      ∀ other, (before ++ [error.token]).map Token.unplaced <+:
          (Tokens.ofString other).all.map Token.unplaced →
        (Parsed.ofString other).errors ≠ [] := by
  have heof : (Tokens.ofString source).eof.kind = .eof := Lexer.kind_tokens_eof _
  have hbody : ∀ t ∈ (Tokens.ofString source).body, t.kind ≠ .eof := fun _ =>
    Lexer.kind_ne_eof_of_mem_tokens
  obtain ⟨before, after, o, hall, hrun, hend, hstep⟩ :=
    run_first_error heof hbody (s := .initial) (by simp [State.Whole, State.initial]) h
  refine ⟨before, after, hall, ?_, fun other hother => ?_⟩
  · refine exists_correct (fun t ht => ?_) hrun
    have hinitial : before <+: (Tokens.ofString source).body := by
      have hdrop := congrArg List.dropLast hall
      rw [List.dropLast_concat, List.dropLast_append_of_ne_nil (List.cons_ne_nil _ _)] at hdrop
      exact ⟨_, hdrop.symm⟩
    exact Token.genuine_of_mem_tokens (hinitial.subset ht)
  · rw [Ne, errors_ofString_iff_accepts, ← Token.map_soundKind_unplaced]
    rcases Tokens.begins_all hother with ⟨hkind, hbefore⟩ | ⟨hkind, others, hothers⟩
    · -- the text ends where the outline is not complete
      rw [← hbefore, Token.map_soundKind_unplaced,
        ← List.append_nil (before.map Token.soundKind), Outline.accepts_append]
      rintro ⟨o', hrun', hcomplete⟩
      obtain rfl := Option.some.inj (hrun.symm.trans hrun')
      exact (hend hkind).2 hcomplete
    · -- the token is at fault in the other text as well
      rw [← hothers, List.map_append, Token.map_soundKind_unplaced, List.map_append,
        List.append_assoc, Outline.accepts_append]
      rintro ⟨o', hrun', o'', hstep', -⟩
      obtain rfl := Option.some.inj (hrun.symm.trans hrun')
      rw [hstep hkind] at hstep'
      cases hstep'

/-- In a list of parameters that a brace breaks off, the brace is impossible. -/
theorem Parsed.first_error_impossible_brace :
    (Parsed.ofString "let f = fn(a, b \x7b").errors =
      [.unexpected .parenRight ⟨.braceLeft, "\x7b", ⟨1, 17⟩⟩,
        .noOperand ⟨.braceLeft, "\x7b", ⟨1, 17⟩⟩] ∧
    ∃ before after, (Tokens.ofString "let f = fn(a, b \x7b").all =
        before ++ ⟨.braceLeft, "\x7b", ⟨1, 17⟩⟩ :: after ∧
      ∃ correct, (Parsed.ofString correct).errors = [] ∧
        before.map Token.unplaced <+: (Tokens.ofString correct).body.map Token.unplaced := by
  have herrors : (Parsed.ofString "let f = fn(a, b \x7b").errors =
      [.unexpected .parenRight ⟨.braceLeft, "\x7b", ⟨1, 17⟩⟩,
        .noOperand ⟨.braceLeft, "\x7b", ⟨1, 17⟩⟩] := by decide +kernel
  obtain ⟨before, after, hall, hcorrect, -⟩ := Parsed.first_error_impossible _ herrors
  exact ⟨herrors, before, after, hall, hcorrect⟩

end LetFn
