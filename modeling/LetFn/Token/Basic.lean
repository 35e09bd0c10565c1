/-
**Tokens: the words a program is written in.**

A source text is a sequence of characters; the grammar speaks of *tokens*.  A token has a kind, the
characters it was written with, and the position of the first of them.  Positions count lines and
columns from one, a column being one Unicode scalar value, so a position in an error message is the
place at which an editor shows the token.

Main definitions:

* `LetFn.Pos` — a line and a column; `LetFn.Pos.next` — the position after one character;
* `LetFn.TokenKind` — the kinds of token, `LetFn.TokenKind.text` their names in messages;
* `LetFn.TokenKind.ofWord` — the kind of a word: one of seven keywords, or an identifier;
* `LetFn.Token` — a token, `LetFn.Token.quoted` how messages show it.

Main results:

* `LetFn.Pos.after_append` — moving past two texts is moving past one and then the other;
* `LetFn.TokenKind.ofText?_text` — a kind can be read back from its name.
-/

set_option relaxedAutoImplicit false
set_option autoImplicit false

namespace LetFn

/-! ### Positions -/

/-- A place in a source text: line and column, both counted from one in signed 32-bit words. -/
structure Pos where
  line : Int32
  column : Int32
deriving DecidableEq, Inhabited

namespace Pos

/-- The place of the first character of a text. -/
def start : Pos := ⟨1, 1⟩

/-- The place after the character `c`: only a newline begins a new line. -/
def next (p : Pos) (c : Char) : Pos :=
  if c = '\n' then ⟨p.line + 1, 1⟩ else ⟨p.line, p.column + 1⟩

/-- The place after all of `cs`. -/
def after (p : Pos) (cs : List Char) : Pos :=
  cs.foldl next p

@[simp] theorem after_nil (p : Pos) : p.after [] = p := rfl

@[simp] theorem after_cons (p : Pos) (c : Char) (cs : List Char) :
    p.after (c :: cs) = (p.next c).after cs := rfl

/-- Moving past two texts is moving past one and then the other. -/
theorem after_append (p : Pos) (cs ds : List Char) :
    p.after (cs ++ ds) = (p.after cs).after ds := List.foldl_append

/-- A position as messages show it. -/
def text (p : Pos) : String :=
  "[line " ++ toString p.line.toInt ++ " column " ++ toString p.column.toInt ++ "]"

end Pos

/-! ### Kinds of token -/

/-- The kinds of token. -/
inductive TokenKind
  /-- A character that begins no token. -/
  | illegal
  /-- The end of the text. -/
  | eof
  | identifier
  | integer
  | assign | plus | minus | bang | star | slash | percent
  | less | greater | lessEqual | greaterEqual | equal | notEqual
  | plusAssign | minusAssign | starAssign | slashAssign
  | comma | semicolon | parenLeft | parenRight | braceLeft | braceRight
  | kwFn | kwLet | kwReturn | kwTrue | kwFalse | kwIf | kwElse
deriving DecidableEq, Inhabited

namespace TokenKind

/-- The name of a kind in messages: a sign is its own name. -/
def text : TokenKind → String
  | illegal => "ILLEGAL"
  | eof => "EOF"
  | identifier => "IDENT"
  | integer => "INT"
  | assign => "="
  | plus => "+"
  | minus => "-"
  | bang => "!"
  | star => "*"
  | slash => "/"
  | percent => "%"
  | less => "<"
  | greater => ">"
  | lessEqual => "<="
  | greaterEqual => ">="
  | equal => "=="
  | notEqual => "!="
  | plusAssign => "+="
  | minusAssign => "-="
  | starAssign => "*="
  | slashAssign => "/="
  | comma => ","
  | semicolon => ";"
  | parenLeft => "("
  | parenRight => ")"
  | braceLeft => "\x7b"
  | braceRight => "\x7d"
  | kwFn => "FUNCTION"
  | kwLet => "LET"
  | kwReturn => "RETURN"
  | kwTrue => "TRUE"
  | kwFalse => "FALSE"
  | kwIf => "IF"
  | kwElse => "ELSE"

/-- All kinds, in the order of their declaration. -/
def all : List TokenKind :=
  [illegal, eof, identifier, integer, assign, plus, minus, bang, star, slash, percent,
    less, greater, lessEqual, greaterEqual, equal, notEqual,
    plusAssign, minusAssign, starAssign, slashAssign,
    comma, semicolon, parenLeft, parenRight, braceLeft, braceRight,
    kwFn, kwLet, kwReturn, kwTrue, kwFalse, kwIf, kwElse]

/-- The kind that has the name `s`. -/
def ofText? (s : String) : Option TokenKind :=
  all.find? fun k => k.text == s

/-- A kind can be read back from its name. -/
@[simp] theorem ofText?_text (k : TokenKind) : ofText? k.text = some k := by
  cases k <;> rfl

/-- The kind of a word: one of seven keywords, or an identifier. -/
def ofWord (word : String) : TokenKind :=
  match word with
  | "fn" => kwFn
  | "let" => kwLet
  | "return" => kwReturn
  | "true" => kwTrue
  | "false" => kwFalse
  | "if" => kwIf
  | "else" => kwElse
  | _ => identifier

end TokenKind

/-! ### Tokens -/

/-- A token: its kind, the characters it was written with, and the place of the first of them. -/
structure Token where
  kind : TokenKind
  literal : String
  pos : Pos
deriving DecidableEq, Inhabited

/-- A token as messages show it: its characters between backquotes, or the name of the end. -/
def Token.quoted (t : Token) : String :=
  if t.kind = .eof then "EOF" else "`" ++ t.literal ++ "`"

end LetFn
