/-
**The command line.**

This is the outermost layer: it fetches files and lines, hands them to the library, and prints what
comes back.

Main definitions:

* `main` — the program.
-/

import LetFn.Repl

set_option relaxedAutoImplicit false
set_option autoImplicit false

namespace LetFn.Main

/-- The summary of the options. -/
def usage : String :=
  "Usage: letfn [OPTIONS] [INPUT]\n\n" ++
  "  [INPUT]        Script to run; without one, lines are read and evaluated one by one\n" ++
  "  --tokens       Print the tokens of the script\n" ++
  "  --ast          Print the program of the script\n" ++
  "  -v, --verbose  Accepted and ignored\n" ++
  "  -h, --help     Print this summary\n" ++
  "  -V, --version  Print the version\n"

/-- What is wrong with a command line. -/
def explain : UsageError → String
  | .unknownArgument => "error: unexpected argument"
  | .repeatedFlag => "error: a flag cannot be used multiple times"
  | .unneededValue => "error: a flag takes no value"
  | .emptyPath => "error: a path is empty"
  | .help => usage
  | .version => "letfn 0.1.0\n"

/-- The bytes of a file. -/
def readScript (path : String) : IO (Except ReadError (List UInt8)) := do
  try
    return .ok (← IO.FS.readBinFile path).toList
  catch
    | .noFileOrDirectory .. => return .error .missing
    | .inappropriateType _ 21 _ => return .error .directory
    | e => return .error (.other (toString e))

/-- Prints a report and gives the exit code. -/
def print (r : Report) : IO UInt32 := do
  IO.print r.stdout
  IO.eprint r.stderrAtExit
  return r.exitCode

/-- The bytes of the next line, its end included; none at the end of the input. -/
partial def readLine (input : IO.FS.Stream) (before : List UInt8) : IO (List UInt8) := do
  match (← input.read 1).toList with
  | [] => return before.reverse
  | b :: _ => if b = 10 then return (b :: before).reverse else readLine input (b :: before)

/-- Reads, evaluates and prints line by line. -/
partial def interact (input : IO.FS.Stream) (global : ScopeId) (world : World) : IO UInt32 := do
  match ← readLine input [] with
  | [] => return 0
  | bytes =>
    match Repl.respond deepest global bytes world with
    | none => print (.failed (.runtime (.custom "calls nest too deep")))
    | some (.error e, _) => print (.failed e)
    | some (.ok text, world) => do
      IO.print text
      (← IO.getStdout).flush
      interact input global world

/-- Obeys a command line. -/
def obey (o : Options) : IO UInt32 := do
  match o.input with
  | none =>
    let (global, world) := World.empty.newGlobal
    interact (← IO.getStdin) global world
  | some path =>
    match Script.run deepest o.mode (← readScript path) with
    | none => print (.failed (.runtime (.custom "calls nest too deep")))
    | some r => print r

end LetFn.Main

/-- The program. -/
def main (args : List String) : IO UInt32 := do
  match LetFn.Options.ofArgs args with
  | .ok o => LetFn.Main.obey o
  | .error .help => IO.print LetFn.Main.usage; return 0
  | .error .version => IO.print (LetFn.Main.explain .version); return 0
  | .error e => IO.eprint (LetFn.Main.explain e ++ "\n\n" ++ LetFn.Main.usage); return 2
