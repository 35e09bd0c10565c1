/-
**Running a script.**

A script is a text that is evaluated in a global scope of its own, and whose value is printed.  It
can also be shown: as its tokens, or as the program it spells, which is shown even if it has syntax
errors.  Syntax errors are printed one to a line, and then the script is not evaluated.

Main definitions:

* `LetFn.Mode` — what is to be done with a script, `LetFn.Options.mode` what the options ask for;
* `LetFn.decode` — a text in bytes;
* `LetFn.Script.run` — the report of running a script.
-/

import LetFn.CommandLine.Options
import LetFn.CommandLine.Report
import LetFn.Interpret
import LetFn.Value.Text

set_option relaxedAutoImplicit false
set_option autoImplicit false

namespace LetFn

/-- What is to be done with a script. -/
inductive Mode
  | tokens | ast | evaluate
deriving DecidableEq

/-- What the options ask for: tokens before all else. -/
def Options.mode (o : Options) : Mode :=
  if o.tokens then .tokens else if o.ast then .ast else .evaluate

/-- The text that bytes spell in UTF-8. -/
def decode (bytes : List UInt8) : Except ReadError String :=
  match String.fromUTF8? ⟨bytes.toArray⟩ with
  | some text => .ok text
  | none => .error .notUtf8

namespace Script

/-- A run that printed `text`, then the syntax errors, and failed if there are any. -/
def checked (text : String) (errors : List SyntaxError) : Report :=
  match errors with
  | [] => .printed text
  | _ =>
    ⟨text, String.join (errors.map fun e => asLine e.message), .error (.syntaxErrors errors.length)⟩

/-- Shows the tokens of a text. -/
def showTokens (source : String) : Report :=
  .printed (String.join ((Tokens.ofString source).body.map fun t =>
    asLine (t.pos.text ++ " " ++ t.kind.text ++ " " ++ t.quoted)))

/-- Shows the program that a text spells. -/
def showProgram (source : String) : Report :=
  let parsed := Parsed.ofString source
  checked (asLine parsed.program.render) parsed.errors

/-- What is printed of the result of a text. -/
def reportResult : Except (List SyntaxError) (Option Outcome) → Report
  | .ok none => .printed ""
  | .ok (some (.error e)) => .failed (.runtime e)
  | .ok (some o) => .printed (asLine o.text)
  | .error errors => checked "" errors

/-- Evaluates a text in a global scope of its own. -/
def evaluate (depth : Nat) (source : String) : Option Report :=
  let (global, world) := World.empty.newGlobal
  (interpret depth source global world).map fun r => reportResult r.1

/-- The report of a text that has been read. -/
def runText (depth : Nat) (mode : Mode) (source : String) : Option Report :=
  match mode with
  | .tokens => some (showTokens source)
  | .ast => some (showProgram source)
  | .evaluate => evaluate depth source

/-- The report of running a script, given what came of reading its file. -/
def run (depth : Nat) (mode : Mode) (file : Except ReadError (List UInt8)) : Option Report :=
  match file.bind decode with
  | .ok source => runText depth mode source
  | .error e => some (.failed (.script e))

end Script

end LetFn
