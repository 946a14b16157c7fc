import BuildTool.Token.Scanner
import BuildTool.Program.Reader
import BuildTool.Log
/-!
# From text to a program

Compilation scans and then reads. An error in the text leaves no program; a token out of place leaves
the directives before it.
-/

namespace BuildTool

/-- A program, perhaps in part, and what is wrong with its text. -/
structure Compiled where
  program : Program
  error : Option CompileError
deriving DecidableEq

namespace Compiled

/-- The program, if nothing is wrong. -/
def toExcept (c : Compiled) : Except CompileError Program :=
  match c.error with
  | some e => .error e
  | none => .ok c.program

/-- A program that was read. -/
def ofParsed (p : Program.Parsed) : Compiled :=
  ⟨p.program, p.error.map .parse⟩

end Compiled

namespace Compile

def tokens (source : String) : Logged (Except ScanError (List Token)) :=
  match Token.scan source with
  | .ok ts => do
    .say .debug .compiler s!"lexed {ts.length} tokens"
    return .ok ts
  | .error e => return .error e

def parse (source : String) : Logged Compiled := do
  match ← tokens source with
  | .ok ts =>
    let compiled := Compiled.ofParsed (Program.ofTokens ts)
    .say .debug .compiler s!"parsed {compiled.program.directives.length} directives"
    return compiled
  | .error e => return ⟨.empty, some (.scan e)⟩

def program (source : String) : Logged (Except CompileError Program) := do
  return (← parse source).toExcept

end Compile

end BuildTool
