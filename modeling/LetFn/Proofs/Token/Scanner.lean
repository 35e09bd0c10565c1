/-
**A scanner that counts bytes.**

A text can be cut into tokens without a copy of what is left of it: one character is looked at
ahead, and of each token only the two places in the bytes of the text are kept between which it
stands.  What a token was written with is then sliced out of the text, and a slice fails unless both
its ends are boundaries between characters.

Such a scanner has the same text in four places: in the characters that are still to come, in the
one that was looked at, in two counts of bytes, and in lines and columns.  Here it is shown that
they never disagree.  So no slice fails, however many bytes the characters of the text take, and
token by token the scanner gives what the lexer gives.

Main definitions:

* `LetFn.Scanner` — a text, how far it has been read, and where the present token began;
* `LetFn.Scanner.slice?` — what stands between the two places, if they are boundaries;
* `LetFn.Scanner.next`, `LetFn.Scanner.take` — one token, several tokens;
* `LetFn.Scanner.At`, `LetFn.Scanner.Marks` — where a scanner stands in its text.

Main results:

* `LetFn.Scanner.At.advance`, `LetFn.Scanner.Marks.skip` — reading on keeps the places together;
* `LetFn.Scanner.Marks.slice?_eq` — **what is sliced out is what has been read**;
* `LetFn.Scanner.Follows.next_eq`, `LetFn.Scanner.Follows.take_eq` — **the scanner never fails, and
  its tokens are those of the lexer**.
-/

import LetFn.Proofs.Token.Lexemes

set_option relaxedAutoImplicit false
set_option autoImplicit false

namespace LetFn

/-- A text, how far it has been read, and where the present token began: both as a number of bytes
and as a position.  One character may have been looked at and not yet been read. -/
structure Scanner where
  input : String
  /-- The characters that have not been looked at. -/
  chars : List Char
  /-- The character that has been looked at. -/
  peeked : Option Char
  startIndex : Nat
  currentIndex : Nat
  startPos : Pos
  currentPos : Pos

namespace Scanner

/-! ### Reading characters -/

/-- The scanner at the beginning of a text. -/
def ofString (source : String) : Scanner :=
  ⟨source, source.toList, none, 0, 0, .start, .start⟩

/-- The character `c` is read, and `cs` are to come. -/
def advance (s : Scanner) (c : Char) (cs : List Char) : Scanner :=
  { s with
    chars := cs
    peeked := none
    currentIndex := s.currentIndex + c.utf8Size
    currentPos := s.currentPos.next c }

/-- Reads a character: the one that has been looked at, if there is one. -/
def consume (s : Scanner) : Option Char × Scanner :=
  match s.peeked, s.chars with
  | some c, cs => (some c, s.advance c cs)
  | none, c :: cs => (some c, s.advance c cs)
  | none, [] => (none, s)

/-- Looks at the next character. -/
def peek (s : Scanner) : Option Char × Scanner :=
  match s.peeked, s.chars with
  | none, c :: cs => (some c, { s with peeked := some c, chars := cs })
  | c?, _ => (c?, s)

/-- All that is left to be read. -/
def rest (s : Scanner) : List Char :=
  s.peeked.toList ++ s.chars

theorem rest_advance (s : Scanner) (c : Char) (cs : List Char) : (s.advance c cs).rest = cs := rfl

/-- Looking ahead reads nothing. -/
theorem peek_eq (s : Scanner) :
    s.peek = (s.rest.head?, { s with peeked := s.rest.head?, chars := s.rest.tail }) := by
  obtain ⟨input, chars, peeked, i, j, p, q⟩ := s
  cases peeked with
  | some c => rfl
  | none => cases chars <;> rfl

/-- What is read is the first of what is left. -/
theorem consume_eq (s : Scanner) :
    s.consume = (s.rest.head?, s.rest.head?.elim s fun c => s.advance c s.rest.tail) := by
  obtain ⟨input, chars, peeked, i, j, p, q⟩ := s
  cases peeked with
  | some c => rfl
  | none => cases chars <;> rfl

theorem length_rest_consume_peek_lt {s : Scanner} {c : Char} (h : s.peek.1 = some c) :
    s.peek.2.consume.2.rest.length < s.rest.length := by
  rw [peek_eq] at h ⊢
  dsimp only at h ⊢
  cases hrest : s.rest with
  | nil => simp [hrest] at h
  | cons d ds => simp [consume_eq, rest, advance]

/-- Reads characters as long as `p` holds of them. -/
def skip (p : Char → Bool) (s : Scanner) : Scanner :=
  match _h : s.peek.1 with
  | some c => if p c then skip p s.peek.2.consume.2 else s.peek.2
  | none => s.peek.2
termination_by s.rest.length
decreasing_by exact length_rest_consume_peek_lt _h

/-- Reads the character `c` if it comes next. -/
def expect (c : Char) (s : Scanner) : Bool × Scanner :=
  if s.peek.1 = some c then (true, s.peek.2.consume.2) else (false, s.peek.2)

/-! ### Tokens -/

/-- What stands between the two places, if both are boundaries between characters. -/
def slice? (s : Scanner) : Option String :=
  if h : (⟨s.startIndex⟩ : String.Pos.Raw).IsValid s.input ∧
      (⟨s.currentIndex⟩ : String.Pos.Raw).IsValid s.input ∧ s.startIndex ≤ s.currentIndex then
    some (s.input.extract (s.input.pos _ h.1) (s.input.pos _ h.2.1))
  else
    none

/-- The token that ends here. -/
def token (s : Scanner) (kind : TokenKind) : Option (Token × Scanner) := do
  let literal ← s.slice?
  return (⟨kind, literal, s.startPos⟩, s)

/-- A word: its characters decide its kind. -/
def word (s : Scanner) : Option (Token × Scanner) := do
  let name ← s.slice?
  s.token (.ofWord name)

/-- The token that begins with the character `c`, which has been read. -/
def scan (c : Char) (s : Scanner) : Option (Token × Scanner) :=
  match Lexer.signEquals? c with
  | some withEquals =>
    let (found, s') := s.expect '='
    s'.token (if found then withEquals else Lexer.sign c)
  | none =>
    if Lexer.sign c ≠ .illegal then
      s.token (Lexer.sign c)
    else if Lexer.isDigit c then
      (s.skip Lexer.isDigit).token .integer
    else if Lexer.isLetter c then
      (s.skip Lexer.isLetter).word
    else
      s.token .illegal

/-- A token begins here. -/
def mark (s : Scanner) : Scanner :=
  { s with startIndex := s.currentIndex, startPos := s.currentPos }

/-- One token, if its characters can be sliced out of the text. -/
def next (s : Scanner) : Option (Token × Scanner) :=
  match (s.skip Lexer.isBlank).mark.consume with
  | (some c, s') => scan c s'
  | (none, s') => s'.token .eof

/-- The first `n` tokens. -/
def take (s : Scanner) : Nat → Option (List Token)
  | 0 => some []
  | n + 1 => do
    let (t, s') ← s.next
    let ts ← s'.take n
    return t :: ts

/-! ### Where a scanner stands -/

/-- The scanner stands in its text behind `before`, by all that it keeps: what is left to be read,
the bytes and the position. -/
structure At (before : List Char) (s : Scanner) : Prop where
  input : s.input.toList = before ++ s.rest
  index : s.currentIndex = (String.ofList before).utf8ByteSize
  pos : s.currentPos = Pos.start.after before

theorem at_ofString (source : String) : (ofString source).At [] :=
  ⟨rfl, rfl, rfl⟩

/-- The present token begins where it began in the other scanner. -/
structure SameStart (s s' : Scanner) : Prop where
  index : s'.startIndex = s.startIndex
  pos : s'.startPos = s.startPos

variable {before : List Char} {s : Scanner}

/-- A character is read. -/
theorem At.advance {c : Char} {cs : List Char} (h : s.At before) (hrest : s.rest = c :: cs) :
    (s.advance c cs).At (before ++ [c]) where
  input := by
    rw [rest_advance, List.append_assoc, List.singleton_append, ← hrest]
    exact h.input
  index := by
    have hone : (String.ofList [c]).utf8ByteSize = c.utf8Size := String.utf8ByteSize_singleton
    rw [String.ofList_append, String.utf8ByteSize_append, hone, ← h.index]
    rfl
  pos := by
    rw [Pos.after_append, ← h.pos]
    rfl

theorem rest_peek (s : Scanner) : s.peek.2.rest = s.rest := by
  rw [peek_eq]
  cases hs : s.rest <;> rfl

/-- Looking ahead does not move the scanner. -/
theorem At.peek (h : s.At before) : s.peek.2.At before where
  input := by
    rw [rest_peek, peek_eq]
    exact h.input
  index := by
    rw [peek_eq]
    exact h.index
  pos := by
    rw [peek_eq]
    exact h.pos

theorem sameStart_peek (s : Scanner) : s.SameStart s.peek.2 := by
  rw [peek_eq]
  exact ⟨rfl, rfl⟩

/-- What becomes of a scanner that looks ahead and reads what it has seen. -/
theorem consume_peek {c : Char} {cs : List Char} (hrest : s.rest = c :: cs) :
    s.peek.2.consume.2 = s.advance c cs := by
  rw [peek_eq, hrest, consume_eq]
  rfl

/-- **A run of characters is read to its end.** -/
theorem At.skip (p : Char → Bool) (h : s.At before) :
    (s.skip p).At (before ++ s.rest.takeWhile p) ∧ (s.skip p).rest = s.rest.dropWhile p ∧
      s.SameStart (s.skip p) := by
  induction hn : s.rest.length using Nat.strongRecOn generalizing s before with
  | ind n ih =>
      have hhead : s.peek.1 = s.rest.head? := by rw [peek_eq]
      have hstays : s.peek.2.At (before ++ []) ∧ s.peek.2.rest = s.rest ∧ s.SameStart s.peek.2 :=
        ⟨by rw [List.append_nil]; exact h.peek, s.rest_peek, s.sameStart_peek⟩
      rw [Scanner.skip]
      split
      case h_1 c hc =>
          rw [hhead] at hc
          obtain ⟨cs, hrest⟩ := List.head?_eq_some_iff.1 hc
          split
          case isTrue hp =>
              obtain ⟨hat, hdrop, hstart⟩ := ih cs.length (by simp [← hn, hrest])
                (h.advance hrest) rfl
              rw [rest_advance] at hat hdrop
              rw [List.append_assoc, List.singleton_append] at hat
              rw [consume_peek hrest, hrest, List.takeWhile_cons_of_pos hp,
                List.dropWhile_cons_of_pos hp]
              exact ⟨hat, hdrop, hstart.index, hstart.pos⟩
          case isFalse hp =>
              rw [hrest] at hstays ⊢
              rwa [List.takeWhile_cons_of_neg hp, List.dropWhile_cons_of_neg hp]
      case h_2 hc =>
          rw [hhead, List.head?_eq_none_iff] at hc
          rw [hc] at hstays ⊢
          exact hstays

/-- The scanner stands behind `before` and then `read`, and the present token began between them. -/
structure Marks (before read : List Char) (s : Scanner) : Prop where
  current : s.At (before ++ read)
  index : s.startIndex = (String.ofList before).utf8ByteSize
  pos : s.startPos = Pos.start.after before

/-- A token begins where the scanner stands. -/
theorem At.mark (h : s.At before) : s.mark.Marks before [] :=
  ⟨by rw [List.append_nil]; exact ⟨h.input, h.index, h.pos⟩, h.index, h.pos⟩

variable {read : List Char}

/-- Reading a character extends the token. -/
theorem Marks.advance {c : Char} {cs : List Char} (h : s.Marks before read)
    (hrest : s.rest = c :: cs) : (s.advance c cs).Marks before (read ++ [c]) :=
  ⟨by rw [← List.append_assoc]; exact h.current.advance hrest, h.index, h.pos⟩

theorem Marks.peek (h : s.Marks before read) : s.peek.2.Marks before read :=
  ⟨h.current.peek, s.sameStart_peek.index.trans h.index, s.sameStart_peek.pos.trans h.pos⟩

/-- Reading a run of characters extends the token by the run. -/
theorem Marks.skip (p : Char → Bool) (h : s.Marks before read) :
    (s.skip p).Marks before (read ++ s.rest.takeWhile p) ∧
      (s.skip p).rest = s.rest.dropWhile p := by
  obtain ⟨hat, hrest, hstart⟩ := h.current.skip p
  rw [List.append_assoc] at hat
  exact ⟨⟨hat, hstart.index.trans h.index, hstart.pos.trans h.pos⟩, hrest⟩

/-- **What is sliced out is what has been read**: both ends of the slice are boundaries between
characters, however many bytes these take. -/
theorem Marks.slice?_eq (h : s.Marks before read) : s.slice? = some (String.ofList read) := by
  have hinput : s.input = String.ofList before ++ (String.ofList read ++ String.ofList s.rest) := by
    rw [← String.ofList_append, ← String.ofList_append, ← List.append_assoc, ← h.current.input,
      String.ofList_toList]
  have hcurrent := h.current.index
  rw [String.ofList_append, String.utf8ByteSize_append] at hcurrent
  have hstart : (⟨s.startIndex⟩ : String.Pos.Raw).IsValid s.input :=
    String.Pos.Raw.isValid_iff_exists_append.2
      ⟨_, _, hinput, String.Pos.Raw.ext (by rw [h.index]; rfl)⟩
  have hend : (⟨s.currentIndex⟩ : String.Pos.Raw).IsValid s.input := by
    refine String.Pos.Raw.isValid_iff_exists_append.2
      ⟨_, _, hinput.trans String.append_assoc.symm, String.Pos.Raw.ext ?_⟩
    rw [hcurrent, String.byteIdx_rawEndPos, String.utf8ByteSize_append]
  rw [slice?, dif_pos ⟨hstart, hend, by rw [h.index, hcurrent]; exact Nat.le_add_right _ _⟩]
  refine congrArg some (String.toByteArray_inj.1 ?_)
  have hslice := ByteArray.extract_append_size_add (a := (String.ofList before).toByteArray)
    (b := (String.ofList read).toByteArray ++ (String.ofList s.rest).toByteArray) (i := 0)
    (j := (String.ofList read).toByteArray.size)
  rw [ByteArray.extract_append_eq_left rfl, Nat.add_zero] at hslice
  rw [String.toByteArray_extract, String.offset_pos, String.offset_pos, hinput,
    String.toByteArray_append, String.toByteArray_append, h.index, hcurrent,
    ← String.size_toByteArray, ← String.size_toByteArray]
  exact hslice

/-! ### The scanner and the lexer -/

theorem Marks.token_eq (h : s.Marks before read) (kind : TokenKind) :
    s.token kind = some (⟨kind, String.ofList read, Pos.start.after before⟩, s) := by
  rw [token, h.slice?_eq, ← h.pos]
  rfl

theorem Marks.word_eq (h : s.Marks before read) :
    s.word =
      some (⟨.ofWord (String.ofList read), String.ofList read, Pos.start.after before⟩, s) := by
  rw [word, h.slice?_eq]
  exact h.token_eq _

/-- A run of characters that a token goes on with. -/
theorem Marks.run_eq {c : Char} (h : s.Marks before [c]) (p : Char → Bool) :
    (s.skip p).Marks before (c :: s.rest.takeWhile p) ∧
      (s.skip p).rest = s.rest.drop (s.rest.takeWhile p).length := by
  obtain ⟨hmarks, hrest⟩ := h.skip p
  exact ⟨hmarks, hrest.trans (Lexer.drop_takeWhile p s.rest).symm⟩

/-- What is scanned is the token that the lexer cuts off after `c`. -/
def Scanned (before : List Char) (c : Char) (cs : List Char) (r : Option (Token × Scanner)) :
    Prop :=
  ∃ s', r = some (⟨(Lexer.lexeme c cs).1, String.ofList (c :: (Lexer.lexeme c cs).2),
      Pos.start.after before⟩, s') ∧
    s'.At (before ++ c :: (Lexer.lexeme c cs).2) ∧ s'.rest = cs.drop (Lexer.lexeme c cs).2.length

/-- **A token is scanned as the lexer cuts it.** -/
theorem Marks.scan_eq {c : Char} (h : s.Marks before [c]) :
    Scanned before c s.rest (scan c s) := by
  -- a token of the one character that has been read
  have hone {s' : Scanner} (hs' : s'.Marks before [c]) (hrest : s'.rest = s.rest)
      (hlexeme : Lexer.lexeme c s.rest = (Lexer.sign c, [])) :
      Scanned before c s.rest (s'.token (Lexer.sign c)) := by
    rw [Scanned, hlexeme]
    exact ⟨s', hs'.token_eq _, hs'.current, hrest⟩
  have hhead : s.peek.1 = s.rest.head? := by rw [peek_eq]
  unfold scan
  cases hequals : Lexer.signEquals? c with
  | some withEquals =>
      obtain ⟨hdigit, hletter⟩ := Lexer.signEquals?_eq_some hequals
      by_cases hnext : s.rest.head? = some '='
      · obtain ⟨cs, hrest⟩ := List.head?_eq_some_iff.1 hnext
        have hmarks := h.advance hrest
        simp only [expect, hhead, hnext, if_true, consume_peek hrest]
        rw [Scanned, hrest, Lexer.lexeme_of_signEquals hequals]
        exact ⟨_, hmarks.token_eq _, hmarks.current, rfl⟩
      · simp only [expect, hhead, hnext, if_false]
        exact hone h.peek s.rest_peek (Lexer.lexeme_of_sign hdigit hletter fun _ => hnext)
  | none =>
      have hsigns : (Lexer.signEquals? c).isSome → s.rest.head? ≠ some '=' := by simp [hequals]
      by_cases hsign : Lexer.sign c = .illegal
      · simp only [hsign, ne_eq, not_true_eq_false, if_false]
        by_cases hdigit : Lexer.isDigit c = true
        · obtain ⟨hmarks, hrest⟩ := h.run_eq Lexer.isDigit
          rw [if_pos hdigit, Scanned, Lexer.lexeme_of_digit hdigit]
          exact ⟨_, hmarks.token_eq _, hmarks.current, hrest⟩
        · rw [if_neg hdigit]
          by_cases hletter : Lexer.isLetter c = true
          · obtain ⟨hmarks, hrest⟩ := h.run_eq Lexer.isLetter
            rw [if_pos hletter, Scanned, Lexer.lexeme_of_letter hletter]
            exact ⟨_, hmarks.word_eq, hmarks.current, hrest⟩
          · rw [if_neg hletter, ← hsign]
            exact hone h rfl (Lexer.lexeme_of_sign (by simpa using hdigit) (by simpa using hletter)
              hsigns)
      · obtain ⟨hdigit, hletter⟩ := Lexer.sign_ne_illegal hsign
        rw [if_pos hsign]
        exact hone h rfl (Lexer.lexeme_of_sign hdigit hletter hsigns)

/-- The scanner stands where the lexer does. -/
def Follows (s : Scanner) (l : Lexer) : Prop :=
  ∃ before, s.At before ∧ s.rest = l.rest ∧ l.pos = Pos.start.after before

/-- **The next token is sliced out of the text without fail**, and is that of the lexer. -/
theorem Follows.next_eq {l : Lexer} (h : s.Follows l) :
    ∃ s', s.next = some (l.next.1, s') ∧ s'.Follows l.next.2 := by
  obtain ⟨before, hat, hrest, hpos⟩ := h
  obtain ⟨hblank, hdrop, -⟩ := hat.skip Lexer.isBlank
  have hmark := hblank.mark
  have hplace : l.pos.after (l.rest.takeWhile Lexer.isBlank) =
      Pos.start.after (before ++ s.rest.takeWhile Lexer.isBlank) := by
    rw [hpos, hrest, Pos.after_append]
  have hmarkRest : (s.skip Lexer.isBlank).mark.rest = l.rest.dropWhile Lexer.isBlank := by
    rw [← hrest, ← hdrop]
    rfl
  rw [Scanner.next, consume_eq, hmarkRest, Lexer.next, hplace]
  cases hd : l.rest.dropWhile Lexer.isBlank with
  | nil =>
      refine ⟨_, hmark.token_eq .eof, _, hmark.current, ?_, ?_⟩
      · rw [hmarkRest, hd]
      · rw [List.append_nil]
  | cons c cs =>
      obtain ⟨s', hs', hat', hrest'⟩ := (hmark.advance (hmarkRest.trans hd)).scan_eq
      exact ⟨s', hs', _, hat', hrest', (Pos.after_append _ _ _).symm⟩

theorem follows_ofString (source : String) : (ofString source).Follows (.ofString source) :=
  ⟨[], at_ofString source, rfl, rfl⟩

/-- **The scanner never fails, and its tokens are those of the lexer**, the end token over and over
included. -/
theorem Follows.take_eq {l : Lexer} (h : s.Follows l) (n : Nat) : s.take n = some (l.take n) := by
  induction n generalizing s l with
  | zero => rfl
  | succ n ih =>
      obtain ⟨s', hnext, h'⟩ := h.next_eq
      rw [Scanner.take, hnext, Lexer.take]
      change (s'.take n).bind _ = _
      rw [ih h']
      rfl

end Scanner

end LetFn
