/-
**Blanks between tokens.**

Blanks separate tokens and belong to none.  So a run of blanks may be any other, and more of them
may be put wherever a text is not within a token: the tokens are written with the same characters as
before, and only their places change.

Main definitions:

* `LetFn.Tokens.written` — the kinds and the characters of the tokens of a text;
* `LetFn.Lexer.Boundary` — the places in a text that are not within a token.

Main results:

* `LetFn.Lexer.Boundary.iff_lexemes_append` — a text may be divided there and nowhere else without a
  change of its tokens;
* `LetFn.Lexer.lexemes_blanks_between` — one run of blanks is as good as another;
* `LetFn.Lexer.Boundary.lexemes_insert` — **blanks may be put at every boundary**.
-/

import LetFn.Proofs.Token.Division

set_option relaxedAutoImplicit false
set_option autoImplicit false

namespace LetFn

/-- The kinds and the characters of the tokens of a text. -/
def Tokens.written (ts : Tokens) : List (TokenKind × String) :=
  ts.body.map Token.written

/-- Texts have tokens written alike if they have the same lexemes. -/
theorem Tokens.written_eq_iff (source source' : String) :
    (Tokens.ofString source).written = (Tokens.ofString source').written ↔
      Lexer.lexemes source.toList = Lexer.lexemes source'.toList := by
  have hlexemes (source : String) : Lexer.lexemes source.toList =
      (Tokens.ofString source).written.map fun t => ⟨t.1, t.2, .start⟩ := by
    rw [← show (Lexer.ofString source).rest = source.toList from rfl, ← Lexer.map_unplaced_tokens,
      Tokens.written, List.map_map]
    rfl
  refine ⟨fun h => ?_, fun h => ?_⟩
  · rw [hlexemes, h, ← hlexemes]
  · rw [Tokens.written, Tokens.map_written_ofString, h, ← Tokens.map_written_ofString,
      Tokens.written]

namespace Lexer

/-! ### One run of blanks for another -/

/-- No token goes on with a blank. -/
theorem stops_blanks {w : List Char} (hw : ∀ c ∈ w, isBlank c = true) (hne : w ≠ [])
    (cs : List Char) : Stops (w ++ cs) := by
  obtain ⟨c, w, rfl⟩ := List.exists_cons_of_ne_nil hne
  intro b hb
  obtain rfl := Option.some.inj hb
  have hc := hw c List.mem_cons_self
  simp only [isBlank, Bool.or_eq_true, beq_iff_eq] at hc
  rcases hc with ((rfl | rfl) | rfl) | rfl <;> decide

/-- Blanks between two pieces of a text keep them apart. -/
theorem lexemes_append_blanks {w : List Char} (hw : ∀ c ∈ w, isBlank c = true) (hne : w ≠ [])
    (as bs : List Char) : lexemes (as ++ (w ++ bs)) = lexemes as ++ lexemes bs := by
  rw [lexemes_append ((stops_blanks hw hne bs).apart as), lexemes_blanks hw]

/-- **One run of blanks is as good as another.** -/
theorem lexemes_blanks_between {w w' : List Char} (hw : ∀ c ∈ w, isBlank c = true) (hne : w ≠ [])
    (hw' : ∀ c ∈ w', isBlank c = true) (hne' : w' ≠ []) (as bs : List Char) :
    lexemes (as ++ (w ++ bs)) = lexemes (as ++ (w' ++ bs)) := by
  rw [lexemes_append_blanks hw hne, lexemes_append_blanks hw' hne']

/-! ### Boundaries -/

/-- **The place behind `as` in the text `as ++ bs` is not within a token**: it is where the lexer
begins, or it is reached from there over blanks and whole tokens. -/
inductive Boundary : List Char → List Char → Prop
  | start {bs : List Char} : Boundary [] bs
  | blank {c : Char} {as bs : List Char} :
      isBlank c = true → Boundary as bs → Boundary (c :: as) bs
  | token {c : Char} {more as bs : List Char} :
      isBlank c = false → (lexeme c (more ++ (as ++ bs))).2 = more → Boundary as bs →
      Boundary (c :: (more ++ as)) bs

/-- A token that takes what it can get from a text takes no less if the text ends earlier, or goes
on with something else there. -/
theorem Greedy.of_head? {literal rest rest' : List Char} (h : Greedy literal rest)
    (hhead : ∀ d ∈ rest'.head?, d ∈ rest.head?) : Greedy literal rest' where
  number hall d hd := h.number hall d (hhead d hd)
  word hall d hd := h.word hall d (hhead d hd)
  sign c hc hsingle d hd := h.sign c hc hsingle d (hhead d hd)

/-- The first token of a text is the first token of what is in front of a place behind it. -/
theorem lexeme_of_append {c : Char} (hc : isBlank c = false) {more as bs : List Char}
    (h : (lexeme c (more ++ (as ++ bs))).2 = more) :
    lexeme c (more ++ as) = lexeme c (more ++ (as ++ bs)) := by
  have hgreedy := greedy_lexeme c (more ++ (as ++ bs))
  have hliteral := literal_lexeme hc (more ++ (as ++ bs))
  rw [h] at hgreedy hliteral
  rw [List.drop_left] at hgreedy
  have hfront : Greedy (c :: more) as := hgreedy.of_head? fun d hd => by
    cases as with
    | nil => cases hd
    | cons a as => exact hd
  have hmore := hfront.lexeme_eq hliteral
  refine Prod.ext ?_ (hmore.trans h.symm)
  rw [← ofLiteral_lexeme, ← ofLiteral_lexeme, hmore, h]

/-- A text may be divided at a boundary. -/
theorem Boundary.lexemes_append {as bs : List Char} (h : Boundary as bs) :
    lexemes (as ++ bs) = lexemes as ++ lexemes bs := by
  induction h with
  | start => rw [lexemes_nil, List.nil_append, List.nil_append]
  | blank hc _ ih => rw [List.cons_append, lexemes_blank hc, lexemes_blank hc, ih]
  | token hc hmore _ ih =>
      have hfront := lexeme_of_append hc hmore
      rw [List.cons_append, List.append_assoc, lexemes_cons hc, lexemes_cons hc, hfront, hmore,
        List.drop_left, List.drop_left, ih, List.cons_append]

/-- **A text may be divided at a boundary and nowhere else** without a change of its tokens. -/
theorem Boundary.iff_lexemes_append {as bs : List Char} :
    Boundary as bs ↔ lexemes (as ++ bs) = lexemes as ++ lexemes bs := by
  refine ⟨Boundary.lexemes_append, fun h => ?_⟩
  induction hn : as.length using Nat.strongRecOn generalizing as with
  | ind n ih =>
      cases as with
      | nil => exact .start
      | cons c as =>
          cases hc : isBlank c with
          | true =>
              rw [List.cons_append, lexemes_blank hc, lexemes_blank hc] at h
              exact .blank hc (ih _ (by simp [← hn]) h rfl)
          | false =>
              rw [List.cons_append, lexemes_cons hc, lexemes_cons hc, List.cons_append] at h
              obtain ⟨htoken, hrest⟩ := List.cons.inj h
              -- the first token is the same, so it lies in front of the place
              have hmore : (lexeme c (as ++ bs)).2 = (lexeme c as).2 := by
                have := String.ofList_injective (Token.mk.inj htoken).2.1
                exact (List.cons.inj this).2
              obtain ⟨rest, has⟩ := lexeme_isPrefix c as
              have hshorter : rest.length < n := by
                rw [← hn, List.length_cons, ← has, List.length_append]
                omega
              rw [hmore, List.drop_append_of_le_length (lexeme_isPrefix c as).length_le] at hrest
              have hdrop : as.drop (lexeme c as).2.length = rest := by
                have : ((lexeme c as).2 ++ rest).drop (lexeme c as).2.length = rest :=
                  List.drop_left
                rwa [has] at this
              rw [hdrop] at hrest
              have hboundary := ih _ hshorter hrest rfl
              generalize (lexeme c as).2 = more at hmore has
              subst has
              rw [List.append_assoc] at hmore
              exact .token hc hmore hboundary

/-- The end of a text is a boundary. -/
theorem boundary_end (as : List Char) : Boundary as [] :=
  Boundary.iff_lexemes_append.2 (by rw [List.append_nil, lexemes_nil, List.append_nil])

/-- **Blanks may be put at every boundary.** -/
theorem Boundary.lexemes_insert {as bs w : List Char} (h : Boundary as bs)
    (hw : ∀ c ∈ w, isBlank c = true) : lexemes (as ++ (w ++ bs)) = lexemes (as ++ bs) := by
  by_cases hne : w = []
  · rw [hne, List.nil_append]
  · rw [lexemes_append_blanks hw hne, h.lexemes_append]

end Lexer

end LetFn
