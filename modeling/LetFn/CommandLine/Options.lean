/-
**The options of the command line.**

The arguments are judged from left to right, and the first that is at fault decides.  A flag has a
long name or is one letter, letters may be joined behind one dash, and a flag is given once and
takes no value.  At most one argument is a path; a lone dash is one, and so is everything after two
dashes.  An empty path is refused when the next flag or the end of the arguments shows that it was
meant as one.

Main definitions:

* `LetFn.Options` — what a command line asks for;
* `LetFn.UsageError` — why a command line is not obeyed: it is at fault or asks for a notice
  instead;
* `LetFn.Options.ofArgs` — judging the arguments.
-/

set_option relaxedAutoImplicit false
set_option autoImplicit false

namespace LetFn

/-- What a command line asks for. -/
structure Options where
  /-- The path of a script; without one, lines are read and evaluated one by one. -/
  input : Option String
  /-- Show the tokens of the script. -/
  tokens : Bool
  /-- Show the program of the script. -/
  ast : Bool
  verbose : Bool
deriving DecidableEq

/-- Why a command line is not obeyed. -/
inductive UsageError
  /-- There is no such flag, or no place for another path. -/
  | unknownArgument
  /-- A flag is given twice. -/
  | repeatedFlag
  /-- A value is attached to a flag. -/
  | unneededValue
  /-- A path is empty. -/
  | emptyPath
  /-- A summary of the options is asked for. -/
  | help
  /-- The version is asked for. -/
  | version
deriving DecidableEq

/-- The flags. -/
inductive Flag
  | tokens | ast | verbose | help | version
deriving DecidableEq

/-- The flag with this name after two dashes. -/
def Flag.ofName? (name : String) : Option Flag :=
  match name with
  | "tokens" => some .tokens
  | "ast" => some .ast
  | "verbose" => some .verbose
  | "help" => some .help
  | "version" => some .version
  | _ => none

/-- The flag with this letter after one dash. -/
def Flag.ofLetter? (letter : Char) : Option Flag :=
  match letter with
  | 'v' => some .verbose
  | 'h' => some .help
  | 'V' => some .version
  | _ => none

namespace Options

/-- Nothing is asked for. -/
def none : Options :=
  ⟨.none, false, false, false⟩

/-- No path that was given is empty. -/
def checked (o : Options) : Except UsageError Options :=
  if o.input = some "" then .error .emptyPath else .ok o

/-- A flag is given. -/
def raise (o : Options) (f : Flag) : Except UsageError Options := do
  let o ← o.checked
  match f with
  | .tokens => if o.tokens then .error .repeatedFlag else .ok { o with tokens := true }
  | .ast => if o.ast then .error .repeatedFlag else .ok { o with ast := true }
  | .verbose => if o.verbose then .error .repeatedFlag else .ok { o with verbose := true }
  | .help => .error .help
  | .version => .error .version

/-- Flags are given by letters behind one dash. -/
def letters (o : Options) : List Char → Except UsageError Options
  | [] => .ok o
  | c :: cs =>
    match Flag.ofLetter? c with
    | some f => do (← o.raise f).letters cs
    | .none => .error .unknownArgument

/-- A flag is given by its name behind two dashes, with a value if there is an equals sign. -/
def name (o : Options) (text : List Char) : Except UsageError Options :=
  match Flag.ofName? (String.ofList (text.takeWhile (· ≠ '='))) with
  | some f => if '=' ∈ text then .error .unneededValue else o.raise f
  | .none => .error .unknownArgument

/-- A path is given. -/
def path (o : Options) (text : String) : Except UsageError Options :=
  match o.input with
  | .none => .ok { o with input := some text }
  | some _ => .error .unknownArgument

/-- An argument is given. -/
def argument (o : Options) (text : String) : Except UsageError Options :=
  match text.toList with
  | '-' :: '-' :: rest => o.name rest
  | '-' :: c :: cs => o.letters (c :: cs)
  | _ => o.path text

/-- Judges the arguments after those that led to `o`. -/
def more (o : Options) : List String → Except UsageError Options
  | [] => o.checked
  | arg :: args => do
    if arg = "--" then
      (← args.foldlM path o).checked
    else
      (← o.argument arg).more args

/-- What the arguments of a command line ask for. -/
def ofArgs (args : List String) : Except UsageError Options :=
  none.more args

end Options

end LetFn
