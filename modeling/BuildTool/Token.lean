/-!
# Tokens of a build file

A token is a lexeme with its kind and the line it stands on, counted from 1. `Kind.name` is the way
diagnostics speak of a kind.
-/

namespace BuildTool

inductive Token.Kind where
  | endOfInput
  | directiveName
  /-- A part of a command, or the name of a dependency. -/
  | commandPart
  | leftParen
  | rightParen
  | leftBrace
  | rightBrace
  | comma
  | semicolon
deriving DecidableEq

structure Token where
  kind : Token.Kind
  lexeme : String
  line : Nat
deriving DecidableEq

namespace Token.Kind

def name : Kind → String
  | endOfInput => "end of input"
  | directiveName => "directive name"
  | commandPart => "command-part"
  | leftParen => "'('"
  | rightParen => "')'"
  | leftBrace => "'\x7b'"
  | rightBrace => "'\x7d'"
  | comma => "','"
  | semicolon => "semicolon"

end Token.Kind

namespace Token

/-- The token that closes a sequence of tokens. -/
def endOfInput (line : Nat) : Token :=
  ⟨.endOfInput, "", line⟩

end Token

end BuildTool
