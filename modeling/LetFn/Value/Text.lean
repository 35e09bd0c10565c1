/-
**Values as text.**

A value is shown to the user of the language as a literal of it where it has one, and a closure as
the literal it was made of.  For the host there is a second form, which tells the sorts of outcome
apart and quotes messages.

Main definitions:

* `LetFn.Value.text`, `LetFn.Outcome.text` — for the user;
* `LetFn.Value.inspect`, `LetFn.Outcome.inspect` — for the host;
* `LetFn.World.inspect` — the names that a scope binds, for the host.
-/

import LetFn.Syntax.Render
import LetFn.Text.Quoted
import LetFn.World

set_option relaxedAutoImplicit false
set_option autoImplicit false

namespace LetFn

/-- A value as the user sees it. -/
def Value.text : Value → String
  | .integer n => Integer.text n
  | .boolean b => boolText b
  | .null => "null"
  | .function c => c.literal.render

/-- An outcome as the user sees it: a pending return looks like what it returns. -/
def Outcome.text : Outcome → String
  | .value v => v.text
  | .returned o => o.text
  | .error e => "ERROR: " ++ e.message

/-- A value as the host sees it. -/
def Value.inspect : Value → String
  | .integer n => "Integer(" ++ Integer.text n ++ ")"
  | .boolean b => "Boolean(" ++ boolText b ++ ")"
  | .null => "Null"
  | .function c => "Function(Function(" ++ c.literal.render ++ "))"

/-- An outcome as the host sees it. -/
def Outcome.inspect : Outcome → String
  | .value v => v.inspect
  | .returned o => "ReturnValue(" ++ o.inspect ++ ")"
  | .error e => "Error(" ++ Text.quote e.message ++ ")"

/-- The names that a scope binds, in order, and whether it lies in another scope. -/
def World.inspect (w : World) (s : ScopeId) : String :=
  "Environment \x7b names: [" ++ ", ".intercalate ((w.names s).map Text.quote) ++
    "], has_outer: " ++ boolText (w.outer? s).isSome ++ " \x7d"

end LetFn
