/-
**A text is cut into tokens piece by piece.**

Where a token stands does not decide what it is, so a list of characters has *lexemes*: its tokens
without their places.  A text that is put together from pieces has the lexemes of its pieces, one
after the other, as long as no token extends from one piece into the next.  It extends only over two
digits, two letters, or a sign and an equals sign, and two such characters are said to *join*.

Every token of a text is *genuine*: its characters, read alone, are that token again.

Main definitions:

* `LetFn.Token.unplaced` — a token without its place;
* `LetFn.Tokens.all` — the tokens of a text, the end token last;
* `LetFn.Lexer.lexemes` — the tokens of a list of characters, without their places;
* `LetFn.Lexer.joins`, `LetFn.Lexer.Apart` — whether a token extends over two characters, and
  whether none does over the boundary of two pieces;
* `LetFn.Token.Genuine` — the tokens that a text can have;
* `LetFn.TokenKind.token` — the token of a kind that has only one.

Main results:

* `LetFn.Lexer.map_unplaced_tokens` — the tokens of a text are its lexemes, wherever it begins;
* `LetFn.Lexer.tokens_append` — **the tokens of a text are those of its pieces**;
* `LetFn.Lexer.lexemes_append` — the lexemes of a text are those of its pieces;
* `LetFn.Token.genuine_of_mem_tokens` — the tokens of a text are genuine;
* `LetFn.Token.Genuine.lexemes_literal` — a genuine token is the only lexeme of its characters;
* `LetFn.Token.Genuine.unplaced_eq_token` — keywords and signs are written in one way only;
* `LetFn.Token.exists_text` — genuine tokens are the tokens of some text.
-/

import Mathlib.Data.List.TakeWhile
import LetFn.Token.Lexer

set_option relaxedAutoImplicit false
set_option autoImplicit false

namespace LetFn

/-- A token without its place. -/
def Token.unplaced (t : Token) : Token :=
  { t with pos := .start }

@[simp] theorem Token.unplaced_kind (t : Token) : t.unplaced.kind = t.kind := rfl

@[simp] theorem Token.unplaced_literal (t : Token) : t.unplaced.literal = t.literal := rfl

/-- All tokens of a text, the end token last. -/
def Tokens.all (ts : Tokens) : List Token :=
  ts.body ++ [ts.eof]

namespace Lexer

/-! ### The first token of a text -/

/-- Behind a run of characters is what is left without it. -/
theorem drop_takeWhile (p : Char → Bool) (cs : List Char) :
    cs.drop (cs.takeWhile p).length = cs.dropWhile p := by
  have h : (cs.takeWhile p ++ cs.dropWhile p).drop (cs.takeWhile p).length = cs.dropWhile p :=
    List.drop_left
  rwa [List.takeWhile_append_dropWhile] at h

/-- No characters make an end token. -/
theorem kind_lexeme_ne_eof (c : Char) (cs : List Char) : (lexeme c cs).1 ≠ .eof := by
  unfold lexeme
  split
  · simp
  · split
    · unfold TokenKind.ofWord
      split <;> simp
    · split
      case h_1 kind _ hkind =>
        revert hkind
        unfold signEquals?
        split <;> simp +contextual [eq_comm]
      case h_2 => unfold sign; split <;> simp

/-- A digit begins a number. -/
theorem lexeme_of_digit {c : Char} (hc : isDigit c = true) (cs : List Char) :
    lexeme c cs = (.integer, cs.takeWhile isDigit) := by
  simp [lexeme, hc]

/-- No letter is a digit. -/
theorem isDigit_of_isLetter {c : Char} (hc : isLetter c = true) : isDigit c = false := by
  unfold isLetter Char.isAlpha Char.isUpper Char.isLower at hc
  simp only [Bool.or_eq_true, Bool.and_eq_true, decide_eq_true_eq, beq_iff_eq,
    UInt32.le_iff_toNat_le, Char.reduceVal, UInt32.reduceToNat] at hc
  simp only [isDigit, Char.isDigit, Bool.and_eq_false_iff, decide_eq_false_iff_not,
    UInt32.le_iff_toNat_le, Char.reduceVal, UInt32.reduceToNat]
  rcases hc with hc | rfl
  · omega
  · decide

/-- A letter begins a word. -/
theorem lexeme_of_letter {c : Char} (hc : isLetter c = true) (cs : List Char) :
    lexeme c cs =
      (.ofWord (String.ofList (c :: cs.takeWhile isLetter)), cs.takeWhile isLetter) := by
  simp [lexeme, isDigit_of_isLetter hc, hc]

/-- A sign that may take an equals sign with it begins no number and no word. -/
theorem signEquals?_eq_some {c : Char} {kind : TokenKind} (h : signEquals? c = some kind) :
    isDigit c = false ∧ isLetter c = false := by
  unfold signEquals? at h
  split at h
  case h_9 => cases h
  all_goals exact ⟨by decide, by decide⟩

/-- Nor does any other sign. -/
theorem sign_ne_illegal {c : Char} (h : sign c ≠ .illegal) :
    isDigit c = false ∧ isLetter c = false := by
  unfold sign at h
  split at h
  case h_16 => exact absurd rfl h
  all_goals exact ⟨by decide, by decide⟩

/-- A sign takes an equals sign with it if the two make one token. -/
theorem lexeme_of_signEquals {c : Char} {kind : TokenKind} (h : signEquals? c = some kind)
    (cs : List Char) : lexeme c ('=' :: cs) = (kind, ['=']) := by
  obtain ⟨hdigit, hletter⟩ := signEquals?_eq_some h
  simp [lexeme, hdigit, hletter, h]

/-- Any other character is a token by itself. -/
theorem lexeme_of_sign {c : Char} (hdigit : isDigit c = false) (hletter : isLetter c = false)
    {cs : List Char} (h : (signEquals? c).isSome → cs.head? ≠ some '=') :
    lexeme c cs = (sign c, []) := by
  cases hequals : signEquals? c with
  | none => simp [lexeme, hdigit, hletter, hequals]
  | some kind =>
      cases cs with
      | nil => simp [lexeme, hdigit, hletter, hequals]
      | cons d ds =>
          have hd : d ≠ '=' := by simpa [hequals] using h
          simp [lexeme, hdigit, hletter, hequals, hd]

theorem tokens_nil (p : Pos) : (⟨p, []⟩ : Lexer).tokens = ⟨[], ⟨.eof, "", p⟩⟩ := by
  rw [tokens_eq]
  rfl

/-- Blanks before a token are passed over. -/
theorem tokens_blank {c : Char} (hc : isBlank c = true) (p : Pos) (cs : List Char) :
    (⟨p, c :: cs⟩ : Lexer).tokens = (⟨p.next c, cs⟩ : Lexer).tokens := by
  have hnext : (⟨p, c :: cs⟩ : Lexer).next = (⟨p.next c, cs⟩ : Lexer).next := by
    simp only [next, List.dropWhile_cons_of_pos hc, List.takeWhile_cons_of_pos hc, Pos.after_cons]
  rw [tokens_eq, hnext, ← tokens_eq]

/-- Otherwise the first token takes as many characters as it can. -/
theorem tokens_cons {c : Char} (hc : isBlank c = false) (p : Pos) (cs : List Char) :
    ∃ more : Tokens,
      more = (⟨p.after (c :: (lexeme c cs).2), cs.drop (lexeme c cs).2.length⟩ : Lexer).tokens ∧
      (⟨p, c :: cs⟩ : Lexer).tokens =
        ⟨⟨(lexeme c cs).1, String.ofList (c :: (lexeme c cs).2), p⟩ :: more.body, more.eof⟩ := by
  have hdrop : (c :: cs).dropWhile isBlank = c :: cs :=
    List.dropWhile_cons_of_neg (by simp [hc])
  have htake : (c :: cs).takeWhile isBlank = [] := List.takeWhile_cons_of_neg (by simp [hc])
  have hkind : (⟨p, c :: cs⟩ : Lexer).next.1.kind ≠ .eof := by
    simpa [next, hdrop] using kind_lexeme_ne_eof c cs
  refine ⟨_, rfl, ?_⟩
  rw [tokens_eq, if_neg hkind]
  simp only [next, hdrop, htake, Pos.after_nil]

/-! ### Lexemes -/

/-- The tokens of a list of characters, without their places. -/
def lexemes (cs : List Char) : List Token :=
  (⟨.start, cs⟩ : Lexer).tokens.body.map Token.unplaced

/-- **Where a text begins does not matter for its lexemes.** -/
theorem map_unplaced_tokens (l : Lexer) : l.tokens.body.map Token.unplaced = lexemes l.rest := by
  obtain ⟨pos, cs⟩ := l
  unfold lexemes
  generalize Pos.start = pos'
  -- the rests after the first token begin at different places, but are the same characters
  induction hn : cs.length using Nat.strongRecOn generalizing pos pos' cs with
  | ind n ih =>
      cases cs with
      | nil => rw [tokens_nil, tokens_nil]
      | cons c cs =>
          cases hc : isBlank c with
          | true =>
              rw [tokens_blank hc, tokens_blank hc]
              exact ih _ (by simp [← hn]) _ _ _ rfl
          | false =>
              obtain ⟨more, hmore, htokens⟩ := tokens_cons hc pos cs
              obtain ⟨more', hmore', htokens'⟩ := tokens_cons hc pos' cs
              have hshorter : (cs.drop (lexeme c cs).2.length).length < n := by
                rw [List.length_drop, ← hn, List.length_cons]
                omega
              have hrest : more.body.map Token.unplaced = more'.body.map Token.unplaced := by
                rw [hmore, hmore']
                exact ih _ hshorter _ _ _ rfl
              rw [htokens, htokens', List.map_cons, List.map_cons, hrest]
              rfl

/-- All end tokens are alike. -/
theorem unplaced_tokens_eof (l : Lexer) : l.tokens.eof.unplaced = ⟨.eof, "", .start⟩ := by
  fun_induction tokens l with
  | case1 l h =>
      unfold next at h ⊢
      cases hd : l.rest.dropWhile isBlank with
      | nil => rfl
      | cons c cs => exact absurd (by simpa [hd] using h) (kind_lexeme_ne_eof c cs)
  | case2 l h more ih => exact ih

@[simp] theorem lexemes_nil : lexemes [] = [] := by
  rw [lexemes, tokens_nil]
  rfl

/-- Blanks before a token are passed over. -/
theorem lexemes_blank {c : Char} (hc : isBlank c = true) (cs : List Char) :
    lexemes (c :: cs) = lexemes cs := by
  rw [lexemes, tokens_blank hc, map_unplaced_tokens]

/-- Otherwise the first token takes as many characters as it can. -/
theorem lexemes_cons {c : Char} (hc : isBlank c = false) (cs : List Char) :
    lexemes (c :: cs) =
      ⟨(lexeme c cs).1, String.ofList (c :: (lexeme c cs).2), .start⟩ ::
        lexemes (cs.drop (lexeme c cs).2.length) := by
  obtain ⟨more, rfl, htokens⟩ := tokens_cons hc .start cs
  rw [lexemes, htokens, List.map_cons, map_unplaced_tokens]
  rfl

/-! ### Pieces of a text -/

/-- A token may extend over two characters only if they are two digits, two letters, or a sign and
an equals sign. -/
def joins (a b : Char) : Bool :=
  isDigit a && isDigit b || isLetter a && isLetter b || (signEquals? a).isSome && b == '='

/-- No token extends from the one piece into the other. -/
def Apart (as bs : List Char) : Prop :=
  ∀ a ∈ as.getLast?, ∀ b ∈ bs.head?, joins a b = false

theorem Apart.of_suffix {as as' bs : List Char} (h : Apart as bs) (hsuffix : as' <:+ as) :
    Apart as' bs := by
  obtain ⟨front, rfl⟩ := hsuffix
  intro a ha
  exact h a (by simp [List.getLast?_append, Option.mem_def.1 ha])

/-- A run of characters ends where a piece ends, if the next piece does not go on with it. -/
theorem takeWhile_append_of_last {p : Char → Bool} {c : Char} {as bs : List Char} (hc : p c = true)
    (h : ∀ a ∈ (c :: as).getLast?, p a = true → ∀ b ∈ bs.head?, p b = false) :
    (as ++ bs).takeWhile p = as.takeWhile p := by
  rw [List.takeWhile_append]
  split
  case isFalse => rfl
  case isTrue hlength =>
    -- all of the piece belongs to the run, and so does its last character
    have has : as.takeWhile p = as := (List.takeWhile_prefix p).eq_of_length hlength
    have hall : ∀ a ∈ c :: as, p a = true := by
      rw [List.forall_mem_cons]
      exact ⟨hc, fun a ha => List.all_eq_true.1 (List.all_takeWhile (l := as)) a (has.symm ▸ ha)⟩
    have hbs : bs.takeWhile p = [] := by
      cases bs with
      | nil => rfl
      | cons b bs =>
          have ha := List.getLast?_eq_some_getLast (List.cons_ne_nil c as)
          have hb := h _ ha (hall _ (List.getLast_mem _)) b rfl
          exact List.takeWhile_cons_of_neg (by simp [hb])
    rw [hbs, has, List.append_nil]

/-- The first token of a text lies in the first piece of it. -/
theorem lexeme_append {c : Char} {as bs : List Char} (h : Apart (c :: as) bs) :
    lexeme c (as ++ bs) = lexeme c as := by
  unfold lexeme
  split
  -- a number
  case isTrue hc =>
    rw [takeWhile_append_of_last hc]
    intro a ha hp b hb
    have := h a ha b hb
    simp_all [joins]
  case isFalse =>
    split
    -- a word
    case isTrue hc =>
      rw [takeWhile_append_of_last hc]
      intro a ha hp b hb
      have := h a ha b hb
      simp_all [joins]
    -- a sign, which may take an equals sign along
    case isFalse =>
      cases as with
      | cons a as =>
          cases signEquals? c with
          | none => rfl
          | some kind => by_cases ha : a = '=' <;> simp [ha]
      | nil =>
          cases bs with
          | nil => rfl
          | cons b bs =>
              have hjoins : joins c b = false := h c rfl b rfl
              cases hsign : signEquals? c with
              | none => rfl
              | some kind =>
                  have hb : b ≠ '=' := by
                    rintro rfl
                    simp [joins, hsign] at hjoins
                  simp [hb]

/-- **The tokens of a text are those of its pieces**, each piece beginning where the one before it
ends. -/
theorem tokens_append {as bs : List Char} (h : Apart as bs) (p : Pos) :
    (⟨p, as ++ bs⟩ : Lexer).tokens =
      ⟨(⟨p, as⟩ : Lexer).tokens.body ++ (⟨p.after as, bs⟩ : Lexer).tokens.body,
        (⟨p.after as, bs⟩ : Lexer).tokens.eof⟩ := by
  induction hn : as.length using Nat.strongRecOn generalizing p as with
  | ind n ih =>
      cases as with
      | nil => rw [tokens_nil]; rfl
      | cons c as =>
          cases hc : isBlank c with
          | true =>
              rw [List.cons_append, tokens_blank hc, tokens_blank hc, Pos.after_cons]
              exact ih _ (by simp [← hn]) (h.of_suffix (List.suffix_cons c as)) _ rfl
          | false =>
              have hprefix := (lexeme_isPrefix c as).length_le
              have hshorter : (as.drop (lexeme c as).2.length).length < n := by
                rw [List.length_drop, ← hn, List.length_cons]
                omega
              obtain ⟨more, rfl, htokens⟩ := tokens_cons hc p as
              obtain ⟨all, rfl, hall⟩ := tokens_cons hc p (as ++ bs)
              -- the first token ends within the first piece, and the rest of that piece is shorter
              have hrest := ih _ hshorter
                (h.of_suffix ((List.drop_suffix _ as).trans (List.suffix_cons c as)))
                (p.after (c :: (lexeme c as).2)) rfl
              have hplace : (p.after (c :: (lexeme c as).2)).after
                  (as.drop (lexeme c as).2.length) = p.after (c :: as) := by
                rw [← Pos.after_append, List.cons_append,
                  List.prefix_iff_eq_append.1 (lexeme_isPrefix c as)]
              rw [hplace] at hrest
              rw [List.cons_append, hall, lexeme_append h, List.drop_append_of_le_length hprefix,
                hrest, htokens, List.cons_append]

/-- The lexemes of a text are those of its pieces. -/
theorem lexemes_append {as bs : List Char} (h : Apart as bs) :
    lexemes (as ++ bs) = lexemes as ++ lexemes bs := by
  rw [lexemes, tokens_append h, List.map_append, map_unplaced_tokens, map_unplaced_tokens]

/-- A piece that goes on with no token. -/
def Stops (bs : List Char) : Prop :=
  ∀ b ∈ bs.head?, isDigit b = false ∧ isLetter b = false ∧ b ≠ '='

theorem Stops.apart {bs : List Char} (h : Stops bs) (as : List Char) : Apart as bs := by
  intro a _ b hb
  obtain ⟨hdigit, hletter, hequals⟩ := h b hb
  simp [joins, hdigit, hletter, hequals]

/-- A token takes no more characters from its own than it took from the text. -/
theorem lexeme_self (c : Char) (cs : List Char) : lexeme c (lexeme c cs).2 = lexeme c cs := by
  by_cases hdigit : isDigit c = true
  · simp [lexeme, hdigit, List.takeWhile_idem]
  · by_cases hletter : isLetter c = true
    · simp [lexeme, hdigit, hletter, List.takeWhile_idem]
    · cases cs with
      | nil => cases hsign : signEquals? c <;> simp [lexeme, hdigit, hletter, hsign]
      | cons d ds =>
          by_cases hd : d = '=' <;> cases hsign : signEquals? c <;>
            simp [lexeme, hdigit, hletter, hd, hsign]

end Lexer

/-! ### Genuine tokens -/

open Lexer

/-- The tokens that a text can have. -/
def Token.Genuine (t : Token) : Prop :=
  ∃ c cs, isBlank c = false ∧ t.kind = (lexeme c cs).1 ∧
    t.literal = String.ofList (c :: (lexeme c cs).2)

/-- **The tokens of a text are genuine.** -/
theorem Token.genuine_of_mem_tokens {l : Lexer} {t : Token} (ht : t ∈ l.tokens.body) :
    t.Genuine := by
  fun_induction tokens l with
  | case1 l h => simp at ht
  | case2 l h more ih =>
      rcases List.mem_cons.1 ht with rfl | ht
      · unfold next at h ⊢
        cases hd : l.rest.dropWhile isBlank with
        | nil => simp [hd] at h
        | cons c cs =>
            -- the blanks have been dropped, so the first character left is none
            have hc : isBlank c = false := by
              have := List.head?_dropWhile_not isBlank l.rest
              simpa [hd] using this
            exact ⟨c, cs, hc, rfl, rfl⟩
      · exact ih ht

/-- A genuine token is the only lexeme of its characters. -/
theorem Token.Genuine.lexemes_literal {t : Token} (ht : t.Genuine) :
    lexemes t.literal.toList = [t.unplaced] := by
  obtain ⟨c, cs, hc, hkind, hliteral⟩ := ht
  rw [hliteral, String.toList_ofList, lexemes_cons hc, lexeme_self, List.drop_length, lexemes_nil]
  simp [Token.unplaced, hkind, hliteral]

/-- A genuine token and what follows it. -/
theorem Token.Genuine.lexemes_append {t : Token} (ht : t.Genuine) {bs : List Char}
    (h : Apart t.literal.toList bs) :
    lexemes (t.literal.toList ++ bs) = t.unplaced :: lexemes bs := by
  rw [Lexer.lexemes_append h, ht.lexemes_literal, List.singleton_append]

/-- The characters of a keyword or a sign. -/
def TokenKind.spelling? : TokenKind → Option String
  | .illegal | .eof | .identifier | .integer => none
  | .kwFn => some "fn"
  | .kwLet => some "let"
  | .kwReturn => some "return"
  | .kwTrue => some "true"
  | .kwFalse => some "false"
  | .kwIf => some "if"
  | .kwElse => some "else"
  | k => some k.text

/-- The keyword or sign of a kind. -/
def TokenKind.token (k : TokenKind) : Token :=
  ⟨k, k.spelling?.getD "", .start⟩

/-- Keywords and signs are written in one way only. -/
theorem Token.Genuine.literal_eq {t : Token} (ht : t.Genuine) {s : String}
    (hs : t.kind.spelling? = some s) : t.literal = s := by
  obtain ⟨c, cs, -, hkind, hliteral⟩ := ht
  rw [hkind] at hs
  rw [hliteral]
  unfold lexeme at hs ⊢
  by_cases hdigit : isDigit c = true
  · -- a number is no keyword and no sign
    simp [hdigit, TokenKind.spelling?] at hs
  · by_cases hletter : isLetter c = true
    · simp only [hdigit, hletter, if_true, if_false, Bool.false_eq_true] at hs ⊢
      revert hs
      unfold TokenKind.ofWord
      split <;> simp_all [TokenKind.spelling?]
    · simp only [hdigit, hletter, if_false, Bool.false_eq_true] at hs ⊢
      revert hs
      split
      case h_1 kind _ hsign =>
          revert hsign
          unfold signEquals?
          split <;> simp +contextual [← eq_comm, TokenKind.spelling?, TokenKind.text]
      case h_2 =>
          unfold sign
          split <;> simp [TokenKind.spelling?, TokenKind.text]

/-- A genuine keyword or sign is that of its kind. -/
theorem Token.Genuine.unplaced_eq_token {t : Token} (ht : t.Genuine) {k : TokenKind}
    (hk : t.kind = k) (hs : k.spelling?.isSome) : t.unplaced = k.token := by
  obtain ⟨s, hs⟩ := Option.isSome_iff_exists.1 hs
  simp [Token.unplaced, TokenKind.token, ht.literal_eq (hk ▸ hs), hk, hs]

/-! ### Texts for tokens -/

/-- **Genuine tokens are the tokens of some text**: of the one in which a space follows each. -/
theorem Token.exists_text {ts : List Token} (hts : ∀ t ∈ ts, t.Genuine) :
    ∃ source, (Tokens.ofString source).body.map Token.unplaced = ts.map Token.unplaced := by
  refine ⟨String.ofList (ts.flatMap fun t => t.literal.toList ++ [' ']), ?_⟩
  rw [Tokens.ofString, map_unplaced_tokens, Lexer.ofString, String.toList_ofList]
  induction ts with
  | nil => simp
  | cons t ts ih =>
      obtain ⟨ht, hts⟩ := List.forall_mem_cons.1 hts
      have hspace (cs : List Char) : Stops (' ' :: cs) := by
        intro b hb
        obtain rfl := Option.some.inj hb
        decide
      rw [List.flatMap_cons, List.append_assoc, List.singleton_append,
        ht.lexemes_append ((hspace _).apart _), lexemes_blank rfl, ih hts, List.map_cons]

end LetFn
