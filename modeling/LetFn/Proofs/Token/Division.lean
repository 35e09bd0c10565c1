/-
**There is one way to cut a text into tokens.**

A text is made up of tokens and of blanks before, between and after them.  What a token may be
written with is told here apart from how it is found: it is a run of letters, a run of digits, a
sign from a list, or any other single character, and its characters alone decide its kind.  A token
takes what it can get, so what follows a number is no digit, what follows a word is no letter, and
what follows a sign that could take an equals sign with it is none.

Every text can be cut in this way, and in no other than that of the lexer.  So no character is lost
or read twice, whatever text it stands in.

Main definitions:

* `LetFn.TokenKind.ofLiteral` — the kind of a token by its characters;
* `LetFn.Lexer.Literal` — what a token may be written with;
* `LetFn.Lexer.Greedy` — what follows a token could not have belonged to it;
* `LetFn.Lexer.Cuts` — a way to cut a text into tokens;
* `LetFn.Token.written` — the kind and the characters of a token.

Main results:

* `LetFn.Lexer.ofLiteral_lexeme` — the kind of a token is that of its characters;
* `LetFn.Lexer.cuts_iff` — **a text is cut into tokens as the lexer cuts it, and in no other way**;
* `LetFn.Lexer.take_eq` — after the tokens of a text there is the end token, over and over;
* `LetFn.Lexer.lossless_greedy` — **nothing is lost in cutting a text, and tokens are as long as
  they can be**.
-/

import LetFn.Proofs.Token.Scanner

set_option relaxedAutoImplicit false
set_option autoImplicit false

namespace LetFn

/-! ### Kinds and characters -/

/-- The signs, which are their own names. -/
def TokenKind.signs : List TokenKind :=
  [.assign, .plus, .minus, .bang, .star, .slash, .percent, .less, .greater, .lessEqual,
    .greaterEqual, .equal, .notEqual, .plusAssign, .minusAssign, .starAssign, .slashAssign,
    .comma, .semicolon, .parenLeft, .parenRight, .braceLeft, .braceRight]

/-- **The kind of a token by its characters**: a word is a keyword or an identifier, digits are an
integer, and a character that is no sign is illegal. -/
def TokenKind.ofLiteral (literal : String) : TokenKind :=
  if literal.toList.all Lexer.isLetter then
    .ofWord literal
  else if literal.toList.all Lexer.isDigit then
    .integer
  else
    (signs.find? fun k => k.text == literal).getD .illegal

/-- The kind and the characters of a token. -/
def Token.written (t : Token) : TokenKind × String :=
  (t.kind, t.literal)

/-- The tokens of a text are written like its lexemes. -/
theorem Tokens.map_written_ofString (source : String) :
    (Tokens.ofString source).body.map Token.written =
      (Lexer.lexemes source.toList).map Token.written := by
  rw [← show (Lexer.ofString source).rest = source.toList from rfl, ← Lexer.map_unplaced_tokens,
    List.map_map]
  rfl

namespace Lexer

/-- What a token may be written with. -/
inductive Literal : List Char → Prop
  | word {cs : List Char} : cs ≠ [] → (∀ c ∈ cs, isLetter c = true) → Literal cs
  | number {cs : List Char} : cs ≠ [] → (∀ c ∈ cs, isDigit c = true) → Literal cs
  | sign {k : TokenKind} : k ∈ TokenKind.signs → Literal k.text.toList
  | other {c : Char} : isBlank c = false → Literal [c]

/-- The signs that would take an equals sign with them. -/
def openSigns : List Char :=
  ['=', '!', '<', '>', '+', '-', '*', '/']

/-- The token takes what it can get: what follows it could not have belonged to it. -/
structure Greedy (literal rest : List Char) : Prop where
  number : (∀ c ∈ literal, isDigit c = true) → ∀ d ∈ rest.head?, isDigit d = false
  word : (∀ c ∈ literal, isLetter c = true) → ∀ d ∈ rest.head?, isLetter d = false
  sign : ∀ c ∈ openSigns, literal = [c] → ∀ d ∈ rest.head?, d ≠ '='

/-- **A way to cut a text into tokens**: blanks, a token, blanks, a token, and so on, and blanks at
the end.  The blanks may be lacking anywhere. -/
inductive Cuts : List Char → List (TokenKind × String) → Prop
  | blanks {w : List Char} : (∀ c ∈ w, isBlank c = true) → Cuts w []
  | token {w rest : List Char} {literal : String} {ls : List (TokenKind × String)} :
      (∀ c ∈ w, isBlank c = true) → Literal literal.toList → Greedy literal.toList rest →
      Cuts rest ls → Cuts (w ++ literal.toList ++ rest) ((.ofLiteral literal, literal) :: ls)

/-! ### What the lexer cuts off -/

/-- The four sorts of token. -/
theorem lexeme_cases (c : Char) (cs : List Char) :
    (isDigit c = true ∧ lexeme c cs = (.integer, cs.takeWhile isDigit)) ∨
    (isLetter c = true ∧ lexeme c cs =
      (.ofWord (String.ofList (c :: cs.takeWhile isLetter)), cs.takeWhile isLetter)) ∨
    (∃ kind rest, signEquals? c = some kind ∧ cs = '=' :: rest ∧ lexeme c cs = (kind, ['='])) ∨
    (isDigit c = false ∧ isLetter c = false ∧
      ((signEquals? c).isSome → cs.head? ≠ some '=') ∧ lexeme c cs = (sign c, [])) := by
  by_cases hdigit : isDigit c = true
  · exact .inl ⟨hdigit, lexeme_of_digit hdigit cs⟩
  · by_cases hletter : isLetter c = true
    · exact .inr (.inl ⟨hletter, lexeme_of_letter hletter cs⟩)
    · rw [Bool.not_eq_true] at hdigit hletter
      by_cases hequals : (signEquals? c).isSome → cs.head? ≠ some '='
      · exact .inr (.inr (.inr ⟨hdigit, hletter, hequals, lexeme_of_sign hdigit hletter hequals⟩))
      · obtain ⟨hsome, hhead⟩ := Classical.not_imp.1 hequals
        obtain ⟨kind, hkind⟩ := Option.isSome_iff_exists.1 hsome
        obtain ⟨rest, rfl⟩ := List.head?_eq_some_iff.1 (Classical.not_not.1 hhead)
        exact .inr (.inr (.inl ⟨kind, rest, hkind, rfl, lexeme_of_signEquals hkind rest⟩))

theorem isLetter_of_isDigit {c : Char} (hc : isDigit c = true) : isLetter c = false := by
  by_contra h
  rw [Bool.not_eq_false] at h
  rw [isDigit_of_isLetter h] at hc
  cases hc

/-- A sign and an equals sign have the kind that they have together. -/
theorem ofLiteral_signEquals {c : Char} {kind : TokenKind} (h : signEquals? c = some kind) :
    TokenKind.ofLiteral (String.ofList [c, '=']) = kind := by
  unfold signEquals? at h
  split at h
  case h_9 => cases h
  all_goals
    obtain rfl := Option.some.inj h
    decide

/-- A sign of one character is what that character stands for by itself. -/
theorem sign_of_text {c : Char} {k : TokenKind} (hk : k ∈ TokenKind.signs)
    (h : k.text = String.ofList [c]) : sign c = k ∧ k ≠ .illegal := by
  have htable : ∀ k ∈ TokenKind.signs, k.text.toList.tail = [] →
      k.text.toList.head?.map sign = some k ∧ k ≠ .illegal := by decide
  obtain ⟨hsign, hne⟩ := htable k hk (by simp [h])
  rw [h, String.toList_ofList] at hsign
  exact ⟨Option.some.inj hsign, hne⟩

/-- A single character that is neither digit nor letter has the kind that it has by itself. -/
theorem ofLiteral_sign {c : Char} (hdigit : isDigit c = false) (hletter : isLetter c = false) :
    TokenKind.ofLiteral (String.ofList [c]) = sign c := by
  have hfind : TokenKind.ofLiteral (String.ofList [c]) =
      (TokenKind.signs.find? fun k => k.text == String.ofList [c]).getD .illegal := by
    simp [TokenKind.ofLiteral, hdigit, hletter]
  rw [hfind]
  cases h : TokenKind.signs.find? fun k => k.text == String.ofList [c] with
  | some k =>
      have htext := List.find?_some h
      exact (sign_of_text (List.mem_of_find?_eq_some h) (beq_iff_eq.1 htext)).1.symm
  | none =>
      rw [List.find?_eq_none] at h
      -- a character that stands for something is the text of that kind
      by_contra hne
      have htable : sign c ∈ TokenKind.signs ∧ (sign c).text = String.ofList [c] := by
        unfold sign at hne ⊢
        split at hne
        case h_16 => exact absurd rfl hne
        all_goals decide
      exact h _ htable.1 (beq_iff_eq.2 htable.2)

/-- **The kind of a token is that of its characters.** -/
theorem ofLiteral_lexeme (c : Char) (cs : List Char) :
    TokenKind.ofLiteral (String.ofList (c :: (lexeme c cs).2)) = (lexeme c cs).1 := by
  rcases lexeme_cases c cs with ⟨hdigit, h⟩ | ⟨hletter, h⟩ | ⟨kind, rest, hkind, rfl, h⟩ |
    ⟨hdigit, hletter, -, h⟩
  · rw [h]
    simp [TokenKind.ofLiteral, hdigit, isLetter_of_isDigit hdigit, List.all_takeWhile]
  · rw [h]
    simp [TokenKind.ofLiteral, hletter, List.all_takeWhile]
  · rw [h]
    exact ofLiteral_signEquals hkind
  · rw [h]
    exact ofLiteral_sign hdigit hletter

/-- A sign and an equals sign that make one token are a sign of the list. -/
theorem text_signEquals {c : Char} {kind : TokenKind} (h : signEquals? c = some kind) :
    kind ∈ TokenKind.signs ∧ kind.text.toList = [c, '='] := by
  unfold signEquals? at h
  split at h
  case h_9 => cases h
  all_goals
    obtain rfl := Option.some.inj h
    decide

/-- A sign of the list is a single character, or one that takes an equals sign, and that sign. -/
theorem text_of_signs {c : Char} {more : List Char} {k : TokenKind} (hk : k ∈ TokenKind.signs)
    (h : c :: more = k.text.toList) : more = [] ∨ (signEquals? c).isSome ∧ more = ['='] := by
  have htable : ∀ k ∈ TokenKind.signs, k.text.toList.tail = [] ∨
      (k.text.toList.head?.bind signEquals?).isSome ∧ k.text.toList.tail = ['='] := by decide
  have hk' := htable k hk
  rwa [← h, List.tail_cons, List.head?_cons, Option.bind_some] at hk'

theorem openSigns_iff {c : Char} : c ∈ openSigns ↔ (signEquals? c).isSome := by
  have htable : openSigns.all (fun d => (signEquals? d).isSome) = true := by decide
  refine ⟨List.all_eq_true.1 htable c, fun h => ?_⟩
  unfold signEquals? at h
  split at h
  case h_9 => cases h
  all_goals decide

theorem isDigit_of_openSigns {c : Char} (h : c ∈ openSigns) :
    isDigit c = false ∧ isLetter c = false := by
  have htable : openSigns.all (fun d => !isDigit d && !isLetter d) = true := by decide
  simpa using List.all_eq_true.1 htable c h

/-- **The lexer cuts off what a token may be written with.** -/
theorem literal_lexeme {c : Char} (hc : isBlank c = false) (cs : List Char) :
    Literal (c :: (lexeme c cs).2) := by
  rcases lexeme_cases c cs with ⟨hdigit, h⟩ | ⟨hletter, h⟩ | ⟨kind, rest, hkind, rfl, h⟩ |
    ⟨-, -, -, h⟩
  · rw [h]
    exact .number (List.cons_ne_nil _ _)
      (List.forall_mem_cons.2 ⟨hdigit, fun d hd => List.mem_takeWhile_imp hd⟩)
  · rw [h]
    exact .word (List.cons_ne_nil _ _)
      (List.forall_mem_cons.2 ⟨hletter, fun d hd => List.mem_takeWhile_imp hd⟩)
  · obtain ⟨hmem, htext⟩ := text_signEquals hkind
    rw [h, ← htext]
    exact .sign hmem
  · rw [h]
    exact .other hc

/-- What a run leaves over does not go on with it. -/
theorem head?_drop_takeWhile {p : Char → Bool} {cs : List Char} :
    ∀ d ∈ (cs.drop (cs.takeWhile p).length).head?, p d = false := by
  intro d hd
  rw [drop_takeWhile] at hd
  have := List.head?_dropWhile_not p cs
  rw [Option.mem_def.1 hd] at this
  simpa using this

/-- A number takes what it can get if no digit follows it. -/
theorem Greedy.of_digit {c : Char} {more rest : List Char} (hc : isDigit c = true)
    (h : ∀ d ∈ rest.head?, isDigit d = false) : Greedy (c :: more) rest where
  number _ := h
  word hall := by
    have := hall c List.mem_cons_self
    rw [isLetter_of_isDigit hc] at this
    cases this
  sign d hd hsingle := by
    obtain ⟨rfl, -⟩ := List.cons.inj hsingle
    have := (isDigit_of_openSigns hd).1
    rw [hc] at this
    cases this

/-- A word takes what it can get if no letter follows it. -/
theorem Greedy.of_letter {c : Char} {more rest : List Char} (hc : isLetter c = true)
    (h : ∀ d ∈ rest.head?, isLetter d = false) : Greedy (c :: more) rest where
  number hall := by
    have := hall c List.mem_cons_self
    rw [isDigit_of_isLetter hc] at this
    cases this
  word _ := h
  sign d hd hsingle := by
    obtain ⟨rfl, -⟩ := List.cons.inj hsingle
    have := (isDigit_of_openSigns hd).2
    rw [hc] at this
    cases this

/-- Any other token takes what it can get unless it lacks the equals sign that follows it. -/
theorem Greedy.of_sign {c : Char} {more rest : List Char} (hdigit : isDigit c = false)
    (hletter : isLetter c = false)
    (h : (signEquals? c).isSome → more = [] → rest.head? ≠ some '=') : Greedy (c :: more) rest where
  number hall := by
    have := hall c List.mem_cons_self
    rw [hdigit] at this
    cases this
  word hall := by
    have := hall c List.mem_cons_self
    rw [hletter] at this
    cases this
  sign d hd hsingle := by
    obtain ⟨rfl, rfl⟩ := List.cons.inj hsingle
    rintro _ he rfl
    exact h (openSigns_iff.1 hd) rfl he

/-- **The lexer takes what it can get.** -/
theorem greedy_lexeme (c : Char) (cs : List Char) :
    Greedy (c :: (lexeme c cs).2) (cs.drop (lexeme c cs).2.length) := by
  rcases lexeme_cases c cs with ⟨hdigit, h⟩ | ⟨hletter, h⟩ | ⟨kind, rest, hkind, rfl, h⟩ |
    ⟨hdigit, hletter, hequals, h⟩
  · rw [h]
    exact .of_digit hdigit head?_drop_takeWhile
  · rw [h]
    exact .of_letter hletter head?_drop_takeWhile
  · obtain ⟨hdigit, hletter⟩ := signEquals?_eq_some hkind
    rw [h]
    exact .of_sign hdigit hletter fun _ hnil => absurd hnil (List.cons_ne_nil _ _)
  · rw [h]
    exact .of_sign hdigit hletter fun hsome _ => hequals hsome

/-! ### What it leaves no choice about -/

/-- A run that is not gone on with is taken whole. -/
theorem takeWhile_run {p : Char → Bool} {more rest : List Char} (hmore : ∀ d ∈ more, p d = true)
    (hrest : ∀ d ∈ rest.head?, p d = false) : (more ++ rest).takeWhile p = more := by
  rw [List.takeWhile_append_of_pos hmore]
  cases rest with
  | nil => simp
  | cons d rest => simp [hrest d rfl]

/-- A single character that takes what it can get is a token by itself. -/
theorem Greedy.lexeme_single {c : Char} {rest : List Char} (h : Greedy [c] rest) :
    (lexeme c rest).2 = [] := by
  rcases lexeme_cases c rest with ⟨hdigit, he⟩ | ⟨hletter, he⟩ | ⟨kind, cs, hkind, rfl, he⟩ |
    ⟨-, -, -, he⟩
  · rw [he]
    exact takeWhile_run (List.forall_mem_nil _) (h.number (by simpa using hdigit))
  · rw [he]
    exact takeWhile_run (List.forall_mem_nil _) (h.word (by simpa using hletter))
  · have := h.sign c (openSigns_iff.2 (by simp [hkind])) rfl '=' rfl
    exact absurd rfl this
  · rw [he]

/-- **The lexer cuts off any characters that a token may be written with**, if they take what they
can get. -/
theorem Greedy.lexeme_eq {c : Char} {more rest : List Char} (h : Greedy (c :: more) rest)
    (hliteral : Literal (c :: more)) : (lexeme c (more ++ rest)).2 = more := by
  generalize hl : c :: more = literal at h hliteral
  cases hliteral with
  | word _ hall =>
      have hrest := h.word hall
      rw [← hl, List.forall_mem_cons] at hall
      rw [lexeme_of_letter hall.1]
      exact takeWhile_run hall.2 hrest
  | number _ hall =>
      have hrest := h.number hall
      rw [← hl, List.forall_mem_cons] at hall
      rw [lexeme_of_digit hall.1]
      exact takeWhile_run hall.2 hrest
  | sign hk =>
      rcases text_of_signs hk hl with rfl | ⟨hsome, rfl⟩
      · exact (hl ▸ h).lexeme_single
      · obtain ⟨kind, hkind⟩ := Option.isSome_iff_exists.1 hsome
        exact congrArg Prod.snd (lexeme_of_signEquals hkind rest)
  | other _ =>
      obtain ⟨rfl, rfl⟩ := List.cons.inj hl
      exact h.lexeme_single

/-- No digit and no letter is a blank. -/
theorem isBlank_eq_false {c : Char} (h : isDigit c = true ∨ isLetter c = true) :
    isBlank c = false := by
  by_contra hblank
  simp only [Bool.not_eq_false, isBlank, Bool.or_eq_true, beq_iff_eq] at hblank
  rcases hblank with ((rfl | rfl) | rfl) | rfl <;> revert h <;> decide

/-- No blank is part of a token. -/
theorem Literal.isBlank_eq_false {literal : List Char} (h : Literal literal) :
    ∀ c ∈ literal, isBlank c = false := by
  cases h with
  | word _ hall => exact fun c hc => Lexer.isBlank_eq_false (.inr (hall c hc))
  | number _ hall => exact fun c hc => Lexer.isBlank_eq_false (.inl (hall c hc))
  | sign hk =>
      have htable : ∀ k ∈ TokenKind.signs, k.text.toList.all (fun c => !isBlank c) = true := by
        decide
      intro c hc
      simpa using List.all_eq_true.1 (htable _ hk) c hc
  | other hc => simpa using hc

theorem Literal.ne_nil {literal : List Char} (h : Literal literal) : literal ≠ [] := by
  cases h with
  | word hne _ => exact hne
  | number hne _ => exact hne
  | sign hk => exact (by decide : ∀ k ∈ TokenKind.signs, k.text.toList ≠ []) _ hk
  | other _ => exact List.cons_ne_nil _ _

/-! ### Cutting a text -/

/-- Blanks that begin a text are passed over. -/
theorem lexemes_blanks {w : List Char} (hw : ∀ c ∈ w, isBlank c = true) (cs : List Char) :
    lexemes (w ++ cs) = lexemes cs := by
  induction w with
  | nil => rfl
  | cons c w ih =>
      rw [List.forall_mem_cons] at hw
      rw [List.cons_append, lexemes_blank hw.1, ih hw.2]

theorem Cuts.blank_cons {c : Char} {cs : List Char} {ls : List (TokenKind × String)}
    (hc : isBlank c = true) (h : Cuts cs ls) : Cuts (c :: cs) ls := by
  cases h with
  | blanks hw => exact .blanks (List.forall_mem_cons.2 ⟨hc, hw⟩)
  | token hw hliteral hgreedy hrest =>
      exact .token (List.forall_mem_cons.2 ⟨hc, hw⟩) hliteral hgreedy hrest

/-- The way the lexer cuts a text is a way to cut it. -/
theorem cuts_lexemes (cs : List Char) : Cuts cs ((lexemes cs).map Token.written) := by
  induction hn : cs.length using Nat.strongRecOn generalizing cs with
  | ind n ih =>
      cases cs with
      | nil =>
          rw [lexemes_nil]
          exact .blanks (by simp)
      | cons c cs =>
          cases hc : isBlank c with
          | true =>
              rw [lexemes_blank hc]
              exact .blank_cons hc (ih _ (by simp [← hn]) _ rfl)
          | false =>
              have hshorter : (cs.drop (lexeme c cs).2.length).length < n := by
                rw [List.length_drop, ← hn, List.length_cons]
                omega
              have hwhole : c :: cs = [] ++ (String.ofList (c :: (lexeme c cs).2)).toList ++
                  cs.drop (lexeme c cs).2.length := by
                rw [String.toList_ofList, List.nil_append, List.cons_append,
                  List.prefix_iff_eq_append.1 (lexeme_isPrefix c cs)]
              have hrest := ih _ hshorter _ rfl
              rw [lexemes_cons hc, List.map_cons, Token.written, ← ofLiteral_lexeme, hwhole]
              exact .token (by simp) (by simpa using literal_lexeme hc cs)
                (by simpa using greedy_lexeme c cs) hrest

/-- There is no other. -/
theorem Cuts.eq_lexemes {cs : List Char} {ls : List (TokenKind × String)} (h : Cuts cs ls) :
    ls = (lexemes cs).map Token.written := by
  induction h with
  | blanks hw =>
      have := lexemes_blanks hw []
      rw [List.append_nil, lexemes_nil] at this
      rw [this, List.map_nil]
  | @token w rest literal ls hw hliteral hgreedy _ ih =>
      obtain ⟨c, more, hcons⟩ := List.exists_cons_of_ne_nil hliteral.ne_nil
      have hc : isBlank c = false := hliteral.isBlank_eq_false c (by simp [hcons])
      have hmore : (lexeme c (more ++ rest)).2 = more :=
        Greedy.lexeme_eq (hcons ▸ hgreedy) (hcons ▸ hliteral)
      have hofList : String.ofList (c :: more) = literal := by
        rw [← hcons, String.ofList_toList]
      rw [List.append_assoc, lexemes_blanks hw, hcons, List.cons_append, lexemes_cons hc,
        ← ofLiteral_lexeme, hmore, List.drop_left, hofList, List.map_cons, ih]
      rfl

/-- **A text is cut into tokens as the lexer cuts it, and in no other way.** -/
theorem cuts_iff {cs : List Char} {ls : List (TokenKind × String)} :
    Cuts cs ls ↔ ls = (lexemes cs).map Token.written :=
  ⟨Cuts.eq_lexemes, fun h => h ▸ cuts_lexemes cs⟩

/-! ### The end of a text -/

/-- The end token stands at the end of the text, and is written with nothing. -/
theorem tokens_eof (l : Lexer) : l.tokens.eof = ⟨.eof, "", l.pos.after l.rest⟩ := by
  have hapart : Apart l.rest [] := by
    intro a _ b hb
    cases hb
  have := tokens_append hapart l.pos
  rw [List.append_nil, tokens_nil] at this
  rw [this]

/-- After an end token there is that token again. -/
theorem take_of_eof {l : Lexer} (h : l.next.1.kind = .eof) (n : Nat) :
    l.take n = List.replicate n l.next.1 := by
  have hagain : l.next.2.next = l.next := by
    unfold next at h ⊢
    cases hd : l.rest.dropWhile isBlank with
    | nil => rfl
    | cons c cs => exact absurd (by simpa [hd] using h) (kind_lexeme_ne_eof c cs)
  have hall (m : Lexer) (hm : m.next = l.next) : m.take n = List.replicate n l.next.1 := by
    induction n generalizing m with
    | zero => rfl
    | succ n ih => rw [take, hm, ih _ hagain, List.replicate_succ]
  exact hall l rfl

/-- **After the tokens of a text there is the end token**, over and over. -/
theorem take_eq (l : Lexer) (n : Nat) :
    l.take n = l.tokens.body.take n ++ List.replicate (n - l.tokens.body.length) l.tokens.eof := by
  fun_induction tokens l generalizing n with
  | case1 l h => simpa using take_of_eof h n
  | case2 l h more ih =>
      cases n with
      | zero => simp [take]
      | succ n => simp [take, ih, more]

/-- **Nothing is lost in cutting a text, and tokens are as long as they can be.**

A scanner that slices the tokens out of the bytes of the text never fails to find characters there,
and gives the tokens of the text and then the end token over and over.  Each token is written with
one character or more, none of them a blank, and they decide its kind.  The tokens and the blanks
around them make up the text, no token could have taken a further character, and there is no other
way to cut the text so. -/
theorem lossless_greedy (source : String) :
    (∀ n, (Scanner.ofString source).take n =
      some ((Tokens.ofString source).body.take n ++
        List.replicate (n - (Tokens.ofString source).body.length)
          ⟨.eof, "", Pos.start.after source.toList⟩)) ∧
    (∀ t ∈ (Tokens.ofString source).body, t.kind ≠ .eof ∧ t.literal ≠ "" ∧
      (∀ c ∈ t.literal.toList, isBlank c = false) ∧ t.kind = .ofLiteral t.literal) ∧
    ∀ ls, Cuts source.toList ls ↔ ls = (Tokens.ofString source).body.map Token.written := by
  refine ⟨fun n => ?_, fun t ht => ?_, fun ls => ?_⟩
  · rw [(Scanner.follows_ofString source).take_eq, take_eq, tokens_eof]
    rfl
  · obtain ⟨c, cs, hc, hkind, hliteral⟩ := Token.genuine_of_mem_tokens ht
    have hwritten : Literal t.literal.toList := by
      rw [hliteral, String.toList_ofList]
      exact literal_lexeme hc cs
    refine ⟨kind_ne_eof_of_mem_tokens ht, ?_, hwritten.isBlank_eq_false, ?_⟩
    · rintro h
      exact hwritten.ne_nil (by rw [h]; rfl)
    · rw [hkind, hliteral, ofLiteral_lexeme]
  · rw [Tokens.map_written_ofString]
    exact cuts_iff

/-- Characters of two bytes, an equals sign that is too late, and a number that runs into a word. -/
theorem lossless_greedy_multibyte :
    (Scanner.ofString "λ=\t==7up").take 7 =
      some [⟨.illegal, "λ", ⟨1, 1⟩⟩, ⟨.assign, "=", ⟨1, 2⟩⟩, ⟨.equal, "==", ⟨1, 4⟩⟩,
        ⟨.integer, "7", ⟨1, 6⟩⟩, ⟨.identifier, "up", ⟨1, 7⟩⟩, ⟨.eof, "", ⟨1, 9⟩⟩,
        ⟨.eof, "", ⟨1, 9⟩⟩] ∧
    TokenKind.illegal = .ofLiteral "λ" ∧
    Cuts "λ=\t==7up".toList
      [(.illegal, "λ"), (.assign, "="), (.equal, "=="), (.integer, "7"), (.identifier, "up")] := by
  obtain ⟨htake, htoken, hcuts⟩ := lossless_greedy "λ=\t==7up"
  refine ⟨(htake 7).trans (by decide +kernel), ?_, (hcuts _).2 (by decide +kernel)⟩
  exact (htoken ⟨.illegal, "λ", ⟨1, 1⟩⟩ (by decide +kernel)).2.2.2

end Lexer

end LetFn
