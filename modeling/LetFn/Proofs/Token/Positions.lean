/-
**A token stands where its position says.**

A position is moved character by character while a text is read, and it is a pair of 32-bit words.
Here it is compared with what it is to mean: the line of a place is one more than the newlines in
front of it, and the column one more than the characters between the last of these and the place.
In a text that is not too long no word ever overflows, so every token has the line and the column of
its first character, and the end token those of the end of the text.

Main definitions:

* `LetFn.Pos.IsBehind` — **the position is the place behind a text**;
* `LetFn.Pos.Before` — the order of positions by line and column.

Main results:

* `LetFn.Pos.isBehind_after` — positions are moved without overflow;
* `LetFn.Lexer.exists_place` — the text in front of each token;
* `LetFn.Lexer.pairwise_before`, `LetFn.Lexer.pairwise_before_all` — later tokens stand behind
  earlier ones, the end token behind all;
* `LetFn.Lexer.positions_exact` — **the positions of tokens are exact**.
-/

import Mathlib.Data.List.Induction
import LetFn.Proofs.Token.Layout

set_option relaxedAutoImplicit false
set_option autoImplicit false

namespace LetFn

/-! ### Positions in the unbounded integers -/

namespace Pos

/-- **The position is the place behind the text**: its line is one more than the newlines in the
text, and its column one more than the characters behind the last of these. -/
structure IsBehind (p : Pos) (cs : List Char) : Prop where
  line : p.line.toInt = 1 + cs.count '\n'
  column : p.column.toInt = 1 + (cs.reverse.takeWhile (· ≠ '\n')).length

/-- The order of positions by line and column. -/
def Before (p q : Pos) : Prop :=
  p.line < q.line ∨ p.line = q.line ∧ p.column < q.column

/-- A counter below the greatest word is counted up without overflow. -/
theorem toInt_add_one {i : Int32} (h : i.toInt < 2147483647) : (i + 1).toInt = i.toInt + 1 := by
  have hle := i.le_toInt
  rw [Int32.toInt_add, Int32.toInt_one]
  exact Int.bmod_eq_of_le (by omega) (by omega)

theorem isBehind_start : start.IsBehind [] :=
  ⟨rfl, rfl⟩

/-- The place behind a text has counters that do not exceed the length of the text. -/
theorem IsBehind.le {p : Pos} {cs : List Char} (h : p.IsBehind cs) :
    p.line.toInt ≤ 1 + cs.length ∧ p.column.toInt ≤ 1 + cs.length := by
  have hcount := List.count_le_length (a := '\n') (l := cs)
  have htake := (List.takeWhile_prefix (l := cs.reverse) fun c => decide (c ≠ '\n')).length_le
  rw [List.length_reverse] at htake
  rw [h.line, h.column]
  omega

/-- Behind one more character is the next position, if the counters have room for it. -/
theorem IsBehind.next {p : Pos} {cs : List Char} (h : p.IsBehind cs) (c : Char)
    (hline : p.line.toInt < 2147483647) (hcolumn : p.column.toInt < 2147483647) :
    (p.next c).IsBehind (cs ++ [c]) := by
  by_cases hc : c = '\n'
  · subst hc
    refine ⟨?_, ?_⟩
    · rw [Pos.next, if_pos rfl, toInt_add_one hline, h.line, List.count_append,
        List.count_singleton_self]
      omega
    · rw [Pos.next, if_pos rfl, List.reverse_append]
      rfl
  · refine ⟨?_, ?_⟩
    · rw [Pos.next, if_neg hc, h.line, List.count_append, List.count_singleton]
      simp [hc]
    · rw [Pos.next, if_neg hc, toInt_add_one hcolumn, h.column, List.reverse_append]
      simp [hc]
      omega

/-- **Positions are moved without overflow** over a text that is not too long. -/
theorem isBehind_after {cs : List Char} (h : cs.length < 2147483647) :
    (start.after cs).IsBehind cs := by
  induction cs using List.reverseRecOn with
  | nil => exact isBehind_start
  | append_singleton cs c ih =>
      rw [List.length_append, List.length_singleton] at h
      have hbehind := ih (by omega)
      obtain ⟨hline, hcolumn⟩ := hbehind.le
      rw [after_append]
      exact hbehind.next c (by omega) (by omega)

/-- What is behind more text stands later. -/
theorem IsBehind.before {p q : Pos} {cs ds : List Char} (hp : p.IsBehind cs)
    (hq : q.IsBehind (cs ++ ds)) (hds : ds ≠ []) : p.Before q := by
  rw [Before, Int32.lt_iff_toInt_lt, Int32.lt_iff_toInt_lt, ← Int32.toInt_inj, hp.line, hp.column,
    hq.line, hq.column, List.count_append, List.reverse_append]
  by_cases hnewline : '\n' ∈ ds
  · have := List.count_pos_iff.2 hnewline
    omega
  · -- no line ends between the two, so the column has grown
    have hlength := List.length_pos_iff.2 hds
    have hall : ∀ c ∈ ds.reverse, decide (c ≠ '\n') = true := by
      intro c hc
      rw [List.mem_reverse] at hc
      exact decide_eq_true fun he => hnewline (he ▸ hc)
    rw [List.count_eq_zero.2 hnewline, List.takeWhile_append_of_pos hall, List.length_append,
      List.length_reverse]
    omega

end Pos

/-! ### Tokens -/

namespace Lexer

/-- The rest of a text is cut into the tokens that are left, wherever it begins. -/
theorem cuts_tokens (l : Lexer) : Cuts l.rest (l.tokens.body.map Token.written) := by
  have hwritten : l.tokens.body.map Token.written = (lexemes l.rest).map Token.written := by
    rw [← map_unplaced_tokens, List.map_map]
    rfl
  exact hwritten ▸ cuts_lexemes l.rest

/-- The first token of a text is the first token of a piece in front that ends between tokens. -/
theorem cuts_cons {c : Char} {cs before after : List Char} {ls : List (TokenKind × String)}
    (hc : isBlank c = false) (h : cs.drop (lexeme c cs).2.length = before ++ after)
    (hbefore : Cuts before ls) :
    Cuts (c :: ((lexeme c cs).2 ++ before))
      (((lexeme c cs).1, String.ofList (c :: (lexeme c cs).2)) :: ls) := by
  -- the token takes no less of what is in front of the place
  have hgreedy : Greedy (c :: (lexeme c cs).2) before :=
    (greedy_lexeme c cs).of_head? fun d hd => by
      rw [h, List.head?_append, Option.mem_def.1 hd]
      rfl
  have hcuts := Cuts.token (List.forall_mem_nil _)
    ((String.toList_ofList (l := c :: (lexeme c cs).2)).symm ▸ literal_lexeme hc cs)
    (String.toList_ofList.symm ▸ hgreedy) hbefore
  rwa [ofLiteral_lexeme, String.toList_ofList] at hcuts

/-- **In front of each token** are the tokens before it, with blanks between them.  It has the
position behind that text, and the tokens after it are read from behind its last character. -/
theorem exists_place {pos : Pos} {cs : List Char} {ts us : List Token} {t : Token}
    (h : (⟨pos, cs⟩ : Lexer).tokens.body = ts ++ t :: us) :
    ∃ before rest, cs = before ++ t.literal.toList ++ rest ∧ Cuts before (ts.map Token.written) ∧
      t.pos = pos.after before ∧
      (⟨pos.after (before ++ t.literal.toList), rest⟩ : Lexer).tokens.body = us := by
  induction hn : cs.length using Nat.strongRecOn generalizing pos cs ts with
  | ind n ih =>
      cases cs with
      | nil =>
          rw [tokens_nil] at h
          cases ts <;> cases h
      | cons c cs =>
          cases hc : isBlank c with
          | true =>
              rw [tokens_blank hc] at h
              obtain ⟨before, rest, hrest, hbefore, hpos, hafter⟩ := ih _ (by simp [← hn]) h rfl
              exact ⟨c :: before, rest, congrArg (c :: ·) hrest, hbefore.blank_cons hc, hpos,
                hafter⟩
          | false =>
              have hshorter : (cs.drop (lexeme c cs).2.length).length < n := by
                rw [List.length_drop, ← hn, List.length_cons]
                omega
              have hsplit : (lexeme c cs).2 ++ cs.drop (lexeme c cs).2.length = cs :=
                List.prefix_iff_eq_append.1 (lexeme_isPrefix c cs)
              obtain ⟨tokens, htokens, hbody⟩ := tokens_cons hc pos cs
              rw [hbody, htokens] at h
              cases ts with
              | nil =>
                  obtain ⟨rfl, rfl⟩ := List.cons.inj h
                  refine ⟨[], cs.drop (lexeme c cs).2.length, ?_,
                    .blanks (List.forall_mem_nil _), rfl, ?_⟩
                  · rw [String.toList_ofList, List.nil_append, List.cons_append, hsplit]
                  · rw [String.toList_ofList, List.nil_append]
              | cons first ts =>
                  -- the token stands in the text behind the first one, which is shorter
                  obtain ⟨rfl, hmore⟩ := List.cons.inj h
                  obtain ⟨before, rest, hrest, hbefore, hpos, hafter⟩ := ih _ hshorter hmore rfl
                  have hcuts := cuts_cons hc (hrest.trans (List.append_assoc ..)) hbefore
                  refine ⟨_, rest, ?_, hcuts, ?_, ?_⟩
                  · rw [List.cons_append, List.cons_append, List.append_assoc, List.append_assoc,
                      ← List.append_assoc before, ← hrest, hsplit]
                  · rw [hpos, ← Pos.after_append]
                    rfl
                  · rw [← Pos.after_append] at hafter
                    rwa [List.cons_append, List.append_assoc]

/-- **Later tokens stand behind earlier ones.** -/
theorem pairwise_before (source : String) (h : source.length < 2147483647) :
    (Tokens.ofString source).body.Pairwise fun t u => t.pos.Before u.pos := by
  rw [List.pairwise_iff_getElem]
  intro i j hi hj hij
  generalize hbody : (Tokens.ofString source).body = body at *
  have hsplit : body = body.take i ++ body[i] :: body.drop (i + 1) := by simp
  have hmem : body[j] ∈ body.drop (i + 1) :=
    List.mem_drop_iff_getElem.2 ⟨j - (i + 1), by omega, by congr 1; omega⟩
  -- the later token is sought in the text behind the earlier one
  obtain ⟨us, vs, hus⟩ := List.append_of_mem hmem
  obtain ⟨before, rest, hrest, -, hpos, hafter⟩ := exists_place (hbody.trans hsplit)
  obtain ⟨between, rest', hrest', -, hpos', -⟩ := exists_place (hafter.trans hus)
  have hliteral : body[i].literal.toList ≠ [] := by
    have hmem : body[i] ∈ (Tokens.ofString source).body := by
      rw [hbody]
      exact List.getElem_mem hi
    obtain ⟨c, cs, -, -, hliteral⟩ := Token.genuine_of_mem_tokens hmem
    rw [hliteral, String.toList_ofList]
    exact List.cons_ne_nil _ _
  have hlength := congrArg List.length hrest
  rw [hrest', String.length_toList] at hlength
  simp only [List.length_append] at hlength
  rw [hpos, hpos', ← Pos.after_append, List.append_assoc]
  refine (Pos.isBehind_after (by omega)).before (Pos.isBehind_after ?_) ?_
  · simp only [List.length_append]
    omega
  · exact fun hnil => hliteral (List.append_eq_nil_iff.1 hnil).1

/-- **The end token stands behind all others**, and later tokens behind earlier ones. -/
theorem pairwise_before_all (source : String) (h : source.length < 2147483647) :
    (Tokens.ofString source).all.Pairwise fun t u => t.pos.Before u.pos := by
  rw [Tokens.all, List.pairwise_append]
  refine ⟨pairwise_before source h, List.pairwise_singleton _ _, ?_⟩
  intro t ht u hu
  obtain rfl := List.mem_singleton.1 hu
  obtain ⟨ts, us, hbody⟩ := List.append_of_mem ht
  obtain ⟨before, rest, hsource, -, hpos, -⟩ := exists_place hbody
  have hlength : source.toList.length < 2147483647 := String.length_toList ▸ h
  -- the text from the token on is not empty
  have hne : t.literal.toList ++ rest ≠ [] := by
    intro hnil
    obtain ⟨c, cs, -, -, hliteral⟩ := Token.genuine_of_mem_tokens ht
    rw [hliteral, String.toList_ofList] at hnil
    cases hnil
  have heof : (Tokens.ofString source).eof.pos = Pos.start.after source.toList := by
    rw [Tokens.ofString, tokens_eof]
    rfl
  rw [List.append_assoc] at hsource
  have hshort : before.length < 2147483647 := by
    rw [hsource, List.length_append] at hlength
    omega
  rw [hpos, heof, hsource]
  exact (Pos.isBehind_after hshort).before (Pos.isBehind_after (hsource ▸ hlength)) hne

/-- **The positions of tokens are exact.**

In a text of fewer than `2 ^ 31 - 1` characters no position overflows.  What a scanner returns are
the tokens of the text and then the end token, over and over.  Each token has the line and the
column behind the text in front of it, the end token those behind the whole text, and of two tokens
the later one has the later position. -/
theorem positions_exact (source : String) (h : source.length < 2147483647) :
    (∀ n, (Scanner.ofString source).take n =
      some ((Tokens.ofString source).body.take n ++
        List.replicate (n - (Tokens.ofString source).body.length) (Tokens.ofString source).eof)) ∧
    (∀ p c, p ++ [c] <+: source.toList →
      (Pos.start.after p).line.toInt < 2147483647 ∧
        (Pos.start.after p).column.toInt < 2147483647) ∧
    (Tokens.ofString source).eof.pos.IsBehind source.toList ∧
    (∀ ts t us, (Tokens.ofString source).body = ts ++ t :: us →
      ∃ p rest, source.toList = p ++ t.literal.toList ++ rest ∧ Cuts p (ts.map Token.written) ∧
        Cuts rest (us.map Token.written) ∧ t.pos.IsBehind p) ∧
    (Tokens.ofString source).body.Pairwise fun t u => t.pos.Before u.pos := by
  have hlist : source.toList.length < 2147483647 := String.length_toList ▸ h
  refine ⟨fun n => ?_, fun p c hp => ?_, ?_, fun ts t us hbody => ?_, pairwise_before source h⟩
  · rw [(Scanner.follows_ofString source).take_eq, take_eq]
    rfl
  · have hle := hp.length_le
    rw [List.length_append, List.length_singleton] at hle
    obtain ⟨hline, hcolumn⟩ := (@Pos.isBehind_after p (by omega)).le
    omega
  · rw [Tokens.ofString, tokens_eof]
    exact Pos.isBehind_after hlist
  · obtain ⟨before, rest, hrest, hbefore, hpos, hafter⟩ := exists_place hbody
    refine ⟨before, rest, hrest, hbefore, hafter ▸ cuts_tokens ⟨_, rest⟩, ?_⟩
    rw [hrest, List.append_assoc, List.length_append] at hlist
    rw [hpos]
    exact Pos.isBehind_after (by omega)

/-- A character of two bytes, a newline, and blanks at the end. -/
theorem positions_exact_multibyte :
    "λ=\n é == \t".length < 2147483647 ∧
    (Scanner.ofString "λ=\n é == \t").take 6 =
      some [⟨.illegal, "λ", ⟨1, 1⟩⟩, ⟨.assign, "=", ⟨1, 2⟩⟩, ⟨.illegal, "é", ⟨2, 2⟩⟩,
        ⟨.equal, "==", ⟨2, 4⟩⟩, ⟨.eof, "", ⟨2, 8⟩⟩, ⟨.eof, "", ⟨2, 8⟩⟩] ∧
    (⟨2, 8⟩ : Pos).IsBehind "λ=\n é == \t".toList := by
  have hlength : "λ=\n é == \t".length < 2147483647 := by decide
  obtain ⟨htake, -, heof, -, -⟩ := positions_exact "λ=\n é == \t" hlength
  have heofPos : (Tokens.ofString "λ=\n é == \t").eof.pos = ⟨2, 8⟩ := by decide +kernel
  exact ⟨hlength, (htake 6).trans (by decide +kernel), heofPos ▸ heof⟩

end Lexer

end LetFn
