import BuildTool.Token
/-!
# What can be wrong with a build file

Reading a build file fails in its text, at a character or at its end, or in the order of its tokens.
Each error knows its line; `message` is its wording without the line.
-/

namespace BuildTool

inductive ScanError.Cause where
  | illegalCharacter
  | unclosedDependencyList
  | unclosedCommandBlock
deriving DecidableEq

/-- The text cannot be divided into tokens. -/
structure ScanError where
  cause : ScanError.Cause
  line : Nat
  /-- The offending character; there is none where the text ends too early. -/
  found : Option Char
deriving DecidableEq

namespace ScanError

def illegal (c : Char) (line : Nat) : ScanError :=
  ⟨.illegalCharacter, line, some c⟩

def unclosed (cause : Cause) (line : Nat) : ScanError :=
  ⟨cause, line, none⟩

def message (e : ScanError) : String :=
  match e.cause, e.found with
  | .illegalCharacter, some c => "illegal character '" ++ c.toString ++ "'"
  | .illegalCharacter, none => "illegal character"
  | .unclosedDependencyList, _ => "unclosed dependency list"
  | .unclosedCommandBlock, _ => "unclosed command block"

end ScanError

/-- A token stands where another was due. -/
structure ParseError where
  line : Nat
  found : Token.Kind
  expected : List Token.Kind
deriving DecidableEq

namespace ParseError

def message (e : ParseError) : String :=
  "unexpected " ++ e.found.name ++ ", expecting " ++
    " or ".intercalate (e.expected.map Token.Kind.name)

end ParseError

inductive CompileError where
  | scan (error : ScanError)
  | parse (error : ParseError)
deriving DecidableEq

namespace CompileError

def line : CompileError → Nat
  | scan e => e.line
  | parse e => e.line

def message : CompileError → String
  | scan e => e.message
  | parse e => e.message

end CompileError

end BuildTool
