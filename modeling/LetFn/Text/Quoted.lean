/-
**Quoted text.**

A text is quoted so that it can be told where it begins and ends and every character of it can be
seen: quotes and backslashes stand behind a backslash, the common controls have a letter each, and a
character that cannot be seen by itself (an extender, an ignorable or an unprintable one) is written
as its code point.

Main definitions:

* `LetFn.Text.escape` — one character, `LetFn.Text.quote` — a text in quotes.
-/

import LetFn.Text.CharClass

set_option relaxedAutoImplicit false
set_option autoImplicit false

namespace LetFn.Text

/-- The code point of a character in hexadecimal digits without leading zeros. -/
def codePoint (c : Char) : List Char :=
  ['\\', 'u', '\x7b'] ++ Nat.toDigits 16 c.toNat ++ ['\x7d']

/-- A character of a quoted text. -/
def escape (c : Char) : List Char :=
  match c with
  | '"' => ['\\', '"']
  | '\\' => ['\\', '\\']
  | '\t' => ['\\', 't']
  | '\r' => ['\\', 'r']
  | '\n' => ['\\', 'n']
  | '\x00' => ['\\', '0']
  | _ => if isExtender c || isIgnorable c || isUnprintable c then codePoint c else [c]

/-- A text in quotes. -/
def quote (s : String) : String :=
  "\"" ++ String.ofList (s.toList.flatMap escape) ++ "\""

end LetFn.Text
