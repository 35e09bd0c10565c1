/-
**The lexer: cutting a text into tokens.**

A text is read from the left.  Blanks are passed over; what follows is a word, a run of digits, or a
sign, and each of them is taken as long as it can be.  A character that begins none of these is a
token by itself, of the kind `illegal`, so no character of a text is lost and no text is refused.
When the characters have run out, every further token is the end token at the place where they did.

Main definitions:

* `LetFn.Lexer` — what is left of a text, and the place it begins at;
* `LetFn.Lexer.lexeme` — the kind of a token and the rest of its characters, given its first one;
* `LetFn.Lexer.next` — one token, and what is left after it;
* `LetFn.Lexer.tokens` — all tokens up to the end, and the end token.

Main results:

* `LetFn.Lexer.lexeme_isPrefix` — the characters of a token are those that follow in the text;
* `LetFn.Lexer.next_rest_length_lt` — a token other than the end token makes the rest shorter, which
  is why reading all tokens ends;
* `LetFn.Lexer.tokens_eq` — the first token and then the tokens of the rest;
* `LetFn.Lexer.kind_tokens_eof`, `LetFn.Lexer.kind_ne_eof_of_mem_tokens` — the end token comes last
  and only there.
-/

import LetFn.Token.Basic

set_option relaxedAutoImplicit false
set_option autoImplicit false

namespace LetFn

/-- What is left of a text, and the place it begins at. -/
structure Lexer where
  pos : Pos
  rest : List Char
deriving DecidableEq

namespace Lexer

/-! ### Classes of characters -/

/-- Letters are the ASCII letters and the underscore. -/
def isLetter (c : Char) : Bool :=
  c.isAlpha || c == '_'

/-- Digits are the ten ASCII digits. -/
def isDigit (c : Char) : Bool :=
  c.isDigit

/-- Blanks are space, tab, carriage return and newline; no other character separates tokens. -/
def isBlank (c : Char) : Bool :=
  c == ' ' || c == '\t' || c == '\r' || c == '\n'

/-! ### Signs -/

/-- The kind of a character that stands as a token by itself. -/
def sign : Char → TokenKind
  | '=' => .assign
  | '+' => .plus
  | '-' => .minus
  | '!' => .bang
  | '*' => .star
  | '/' => .slash
  | '%' => .percent
  | '<' => .less
  | '>' => .greater
  | ',' => .comma
  | ';' => .semicolon
  | '(' => .parenLeft
  | ')' => .parenRight
  | '{' => .braceLeft
  | '}' => .braceRight
  | _ => .illegal

/-- The kind of the two-character token that is `c` and an equals sign, if there is one. -/
def signEquals? : Char → Option TokenKind
  | '=' => some .equal
  | '!' => some .notEqual
  | '<' => some .lessEqual
  | '>' => some .greaterEqual
  | '+' => some .plusAssign
  | '-' => some .minusAssign
  | '*' => some .starAssign
  | '/' => some .slashAssign
  | _ => none

/-! ### One token -/

/-- The kind of the token that begins with `c` where `cs` follows, and its characters after `c`.

A run of digits and a word extend as far as they can; a sign takes an equals sign with it where the
two make one token. -/
def lexeme (c : Char) (cs : List Char) : TokenKind × List Char :=
  if isDigit c then
    (.integer, cs.takeWhile isDigit)
  else if isLetter c then
    (.ofWord (String.ofList (c :: cs.takeWhile isLetter)), cs.takeWhile isLetter)
  else
    match signEquals? c, cs with
    | some kind, '=' :: _ => (kind, ['='])
    | _, _ => (sign c, [])

/-- The characters of a token are those that follow in the text. -/
theorem lexeme_isPrefix (c : Char) (cs : List Char) : (lexeme c cs).2 <+: cs := by
  unfold lexeme
  split
  · exact List.takeWhile_prefix _
  · split
    · exact List.takeWhile_prefix _
    · split
      · exact ⟨_, rfl⟩
      · exact List.nil_prefix

/-- One token, and what is left after it. -/
def next (l : Lexer) : Token × Lexer :=
  let pos := l.pos.after (l.rest.takeWhile isBlank)
  match l.rest.dropWhile isBlank with
  | [] => (⟨.eof, "", pos⟩, ⟨pos, []⟩)
  | c :: cs =>
    let (kind, more) := lexeme c cs
    (⟨kind, String.ofList (c :: more), pos⟩, ⟨pos.after (c :: more), cs.drop more.length⟩)

/-- The lexer at the beginning of a text. -/
def ofString (source : String) : Lexer :=
  ⟨.start, source.toList⟩

/-! ### All tokens -/

theorem length_dropWhile_le {α : Type} (p : α → Bool) (xs : List α) :
    (xs.dropWhile p).length ≤ xs.length :=
  (List.dropWhile_suffix p).length_le

/-- A token other than the end token makes the rest shorter. -/
theorem next_rest_length_lt (l : Lexer) (h : l.next.1.kind ≠ .eof) :
    l.next.2.rest.length < l.rest.length := by
  have blanks := length_dropWhile_le isBlank l.rest
  unfold next at h ⊢
  cases hd : l.rest.dropWhile isBlank with
  | nil => simp [hd] at h
  | cons c cs =>
    simp only [hd, List.length_cons] at blanks ⊢
    simp only [List.length_drop]
    omega

end Lexer

/-- The tokens of a text, and the end token that follows them. -/
structure Tokens where
  body : List Token
  eof : Token
deriving DecidableEq

namespace Lexer

/-- All tokens up to the end of the text, and the end token. -/
def tokens (l : Lexer) : Tokens :=
  if l.next.1.kind = .eof then
    ⟨[], l.next.1⟩
  else
    let more := l.next.2.tokens
    ⟨l.next.1 :: more.body, more.eof⟩
termination_by l.rest.length
decreasing_by exact next_rest_length_lt l ‹_›

/-- The first token and then the tokens of the rest. -/
theorem tokens_eq (l : Lexer) :
    l.tokens =
      if l.next.1.kind = .eof then ⟨[], l.next.1⟩
      else ⟨l.next.1 :: l.next.2.tokens.body, l.next.2.tokens.eof⟩ := by
  rw [tokens]

/-- The last token is the end token. -/
theorem kind_tokens_eof (l : Lexer) : l.tokens.eof.kind = .eof := by
  fun_induction tokens l with
  | case1 l h => exact h
  | case2 l h more ih => exact ih

/-- No other token is. -/
theorem kind_ne_eof_of_mem_tokens {l : Lexer} {t : Token} (ht : t ∈ l.tokens.body) :
    t.kind ≠ .eof := by
  fun_induction tokens l with
  | case1 l h => simp at ht
  | case2 l h more ih =>
    rcases List.mem_cons.1 ht with rfl | ht
    · exact h
    · exact ih ht

/-- The first `n` tokens, the end token being repeated as often as needed. -/
def take (l : Lexer) : Nat → List Token
  | 0 => []
  | n + 1 => l.next.1 :: l.next.2.take n

end Lexer

/-- The tokens of a source text. -/
def Tokens.ofString (source : String) : Tokens :=
  (Lexer.ofString source).tokens

end LetFn
