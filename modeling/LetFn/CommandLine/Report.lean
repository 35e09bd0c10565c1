/-
**What a run leaves behind.**

A run prints to two channels and ends well or with an error.  The error is printed last, and the
exit code tells the two ends apart.

Main definitions:

* `LetFn.ReadError` — why a text could not be read;
* `LetFn.RunError` — why a run ended badly, `LetFn.RunError.message` the wording;
* `LetFn.Report` — what was printed, and the end;
* `LetFn.Report.exitCode`, `LetFn.Report.stderrAtExit` — what the shell sees of the end.
-/

import LetFn.Value.Error

set_option relaxedAutoImplicit false
set_option autoImplicit false

namespace LetFn

/-- Why a text could not be read. -/
inductive ReadError
  | notUtf8
  | missing
  | directory
  | other (text : String)
deriving DecidableEq

/-- The wording of a read error. -/
def ReadError.message : ReadError → String
  | notUtf8 => "stream did not contain valid UTF-8"
  | missing => "No such file or directory (os error 2)"
  | directory => "Is a directory (os error 21)"
  | other text => text

/-- Why a run ended badly. -/
inductive RunError
  /-- The script could not be read. -/
  | script (cause : ReadError)
  /-- A line could not be read. -/
  | line (cause : ReadError)
  /-- The script has syntax errors, which were printed. -/
  | syntaxErrors (count : Nat)
  /-- The script failed. -/
  | runtime (cause : RuntimeError)
deriving DecidableEq

/-- The wording of the error that ends a run. -/
def RunError.message : RunError → String
  | script cause => "could not read input: " ++ cause.message
  | line cause => "line editor failed: " ++ cause.message
  | syntaxErrors count => "aborting due to " ++ toString count ++ " syntax error(s)"
  | runtime cause => cause.message

/-- Text on a line of its own. -/
def asLine (text : String) : String :=
  text ++ "\n"

/-- What was printed, and how the run ended. -/
structure Report where
  stdout : String
  stderr : String
  result : Except RunError Unit

namespace Report

/-- A run that printed `text` and ended well. -/
def printed (text : String) : Report :=
  ⟨text, "", .ok ()⟩

/-- A run that printed nothing and ended badly. -/
def failed (e : RunError) : Report :=
  ⟨"", "", .error e⟩

/-- A run that begins by printing `text`. -/
def after (text : String) (r : Report) : Report :=
  { r with stdout := text ++ r.stdout }

/-- Zero for a good end. -/
def exitCode (r : Report) : UInt32 :=
  match r.result with
  | .ok _ => 0
  | .error _ => 1

/-- What was printed to the second channel, the error that ended the run included. -/
def stderrAtExit (r : Report) : String :=
  match r.result with
  | .ok _ => r.stderr
  | .error e => r.stderr ++ asLine ("Error: " ++ e.message)

end Report

end LetFn
