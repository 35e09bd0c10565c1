/-
**Correct texts one after another.**

Correct texts with semicolons between them are one correct text, whose statements are theirs in
turn: neither a token nor an expression nor the alternative of a condition goes on from one into the
next.  Each semicolon may end a line.

Main results:

* `LetFn.Stmt.Reblamed.eq_of_whole` — where nothing is broken nobody is to blame;
* `LetFn.Parsed.ofString_semicolon` — a correct text, a semicolon and another text;
* `LetFn.Parsed.ofString_lines` — **correct texts with semicolons between them are a correct text**.
-/

import LetFn.Proofs.Parser.Recovery
import LetFn.Proofs.Parser.Regular

set_option relaxedAutoImplicit false
set_option autoImplicit false

namespace LetFn

/-! ### Nobody to blame -/

section Reblamed

variable {eof : Token} {found : List Token}

/-- In an expression in which nothing is broken no token is at fault. -/
theorem Expr.Reblamed.eq_of_whole {e e' : Expr} (h : e.Reblamed eof found e')
    (he : e.Every Node.Whole) : e' = e := by
  induction h with
  | same e => rfl
  | @error error _ _ =>
      -- the node of an error is broken, whatever the error is
      cases error <;> exact absurd trivial (Expr.every_error.1 he)
  | unary op _ ih => rw [ih (Expr.every_unary.1 he).2]
  | binary l op _ ih => rw [ih (Expr.every_binary.1 he).2.2]

/-- Nor in such a statement. -/
theorem Stmt.Reblamed.eq_of_whole {s s' : Stmt} (h : s.Reblamed eof found s')
    (hs : s.Every Node.Whole) : s' = s := by
  cases h with
  | same s => rfl
  | error _ => exact absurd trivial (Stmt.every_error.1 hs)
  | bind t x he => rw [he.eq_of_whole (Stmt.every_bind.1 hs).2]
  | returns t he => rw [he.eq_of_whole (Stmt.every_returns.1 hs).2]
  | expr t he => rw [he.eq_of_whole (Stmt.every_expr.1 hs).2]

/-- Nor in any of several statements. -/
theorem Stmt.eq_of_reblamed {ss ss' : List Stmt} (h : List.Forall₂ (Stmt.Reblamed eof found) ss ss')
    (hss : ∀ s ∈ ss, s.Every Node.Whole) : ss' = ss := by
  induction h with
  | nil => rfl
  | cons hs _ ih =>
      rw [List.forall_mem_cons] at hss
      rw [hs.eq_of_whole hss.1, ih hss.2]

end Reblamed

/-! ### Two texts -/

/-- What is read alike is read alike behind statements that are alike. -/
theorem Parsed.unplaced_append {ss ss' : List Stmt} {p p' : Parsed}
    (hss : ss.map (Stmt.relabel .unplaced) = ss'.map (Stmt.relabel .unplaced))
    (h : p.unplaced = p'.unplaced) :
    (⟨⟨ss ++ p.program.statements⟩, p.errors⟩ : Parsed).unplaced =
      (⟨⟨ss' ++ p'.program.statements⟩, p'.errors⟩ : Parsed).unplaced := by
  have hstatements := congrArg (fun p => p.program.statements) h
  have herrors := congrArg Parsed.errors h
  simp only [Parsed.unplaced, Program.relabel] at hstatements herrors
  simp only [Parsed.unplaced, Program.relabel, List.map_append, hss, hstatements, herrors]

/-- **A correct text, a semicolon and another text**: the statements of the one, and then the
statements and the errors of the other, up to places. -/
theorem Parsed.ofString_semicolon {s₁ : String} (h : (Parsed.ofString s₁).errors = [])
    (s₂ : String) :
    (Parsed.ofString (s₁ ++ ";" ++ s₂)).unplaced =
      (⟨⟨(Parsed.ofString s₁).program.statements ++ (Parsed.ofString s₂).program.statements⟩,
        (Parsed.ofString s₂).errors⟩ : Parsed).unplaced := by
  obtain ⟨semicolon, rest, hbody, hsemicolon, hrest⟩ := Tokens.ofString_semicolon s₁ s₂
  have heof₁ : (Tokens.ofString s₁).eof.kind = .eof := Lexer.kind_tokens_eof _
  have heof : (Tokens.ofString (s₁ ++ ";" ++ s₂)).eof.kind = .eof := Lexer.kind_tokens_eof _
  have hunplaced : (Tokens.ofString (s₁ ++ ";" ++ s₂)).eof.unplaced =
      (Tokens.ofString s₂).eof.unplaced := by
    rw [Tokens.ofString, Lexer.unplaced_tokens_eof, Tokens.ofString, Lexer.unplaced_tokens_eof]
  have hwhole : ∀ st ∈ (Parsed.ofString s₁).program.statements, st.Every Node.Whole :=
    Parsed.whole_of_errors_eq_nil h
  unfold ofString at h hwhole ⊢
  generalize Tokens.ofString (s₁ ++ ";" ++ s₂) = ts at hbody heof hunplaced ⊢
  obtain ⟨body, eof⟩ := ts
  obtain rfl := hbody
  obtain ⟨next, more, hnext⟩ : ∃ next more, rest ++ [eof] = next :: more :=
    List.exists_cons_of_ne_nil (by simp)
  obtain ⟨ss, errors, hss, herrors, hparsed⟩ :=
    ofTokens_semicolon (Tokens.ofString s₁) ⟨rest, eof⟩ heof₁ heof hsemicolon hnext
      (by simp [h]) (.inl h)
  rw [h] at herrors
  obtain rfl := List.forall₂_nil_left_iff.1 herrors
  -- the first text is correct, so its statements are the same in front of a semicolon
  rw [Stmt.eq_of_reblamed hss hwhole] at hparsed
  have hsecond := ofTokens_unplaced ⟨rest, eof⟩
  rw [hrest, hunplaced, ofTokens_unplaced] at hsecond
  rw [hparsed, List.nil_append]
  exact unplaced_append rfl hsecond.symm

/-! ### Several texts -/

/-- A line end in front of a text is passed over. -/
theorem Parsed.ofString_newline (source : String) :
    (Parsed.ofString ("\n" ++ source)).unplaced = (Parsed.ofString source).unplaced := by
  refine Parsed.unplaced_eq_of_lexemes ?_
  rw [String.toList_append]
  exact Lexer.lexemes_blank rfl source.toList

/-- **Correct texts with semicolons between them, each at the end of a line, are a correct text**,
and its statements are theirs in turn, up to places. -/
theorem Parsed.ofString_lines {sources : List String}
    (h : ∀ source ∈ sources, (Parsed.ofString source).errors = []) :
    (Parsed.ofString (";\n".intercalate sources)).unplaced =
      (⟨⟨sources.flatMap fun source => (Parsed.ofString source).program.statements⟩, []⟩ :
        Parsed).unplaced := by
  induction sources with
  | nil =>
      have htokens : Tokens.ofString "" = ⟨[], ⟨.eof, "", .start⟩⟩ := Lexer.tokens_nil .start
      rw [String.intercalate_nil, Parsed.ofString, htokens]
      rfl
  | cons s₁ sources ih =>
      rw [List.forall_mem_cons] at h
      cases sources with
      | nil =>
          have hcorrect : Parsed.ofString s₁ = ⟨⟨(Parsed.ofString s₁).program.statements⟩, []⟩ := by
            rw [← h.1]
          rw [String.intercalate_singleton, List.flatMap_cons, List.flatMap_nil, List.append_nil,
            ← hcorrect]
      | cons s₂ sources =>
          have htext : ";\n".intercalate (s₁ :: s₂ :: sources) =
              s₁ ++ ";" ++ ("\n" ++ ";\n".intercalate (s₂ :: sources)) := by
            have hseparator : (";\n" : String) = ";" ++ "\n" := rfl
            rw [String.intercalate_cons_cons]
            generalize ";\n".intercalate (s₂ :: sources) = rest
            rw [hseparator]
            simp only [String.append_assoc]
          rw [htext, Parsed.ofString_semicolon h.1, List.flatMap_cons]
          exact unplaced_append rfl ((ofString_newline _).trans (ih h.2))

end LetFn
