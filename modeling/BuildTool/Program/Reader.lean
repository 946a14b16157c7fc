import BuildTool.Program
import BuildTool.Diagnostic
/-!
# From tokens to a program

The reader takes one token at a time. Before a block it keeps the last name it met; in a block it
keeps the finished commands and the parts of the next one. A block that closes adds a directive, and
parts after the last semicolon are dropped with it.

A token out of place stops the reader; the directives closed before it stand.
-/

namespace BuildTool.Program

/-- What a reader is in the middle of. -/
inductive Reader.State where
  /-- Between blocks, with the name met last. -/
  | seeking (name : Option String)
  /-- In the block of `name`. -/
  | collecting (name : String) (commands : Array Command) (parts : Array String)

structure Reader where
  state : Reader.State
  closed : Array Directive

/-- The directives closed, and what stopped the reading if anything did. -/
structure Parsed where
  program : Program
  error : Option ParseError
deriving DecidableEq

namespace Parsed

/-- The program, if nothing stopped the reading. -/
def toExcept (p : Parsed) : Except ParseError Program :=
  match p.error with
  | some e => .error e
  | none => .ok p.program

end Parsed

namespace Reader

def start : Reader :=
  ⟨.seeking none, #[]⟩

/-- After a token the reader goes on or is done. -/
inductive Verdict where
  | on (next : Reader)
  | done (error : Option ParseError)

def read (r : Reader) (t : Token) : Verdict :=
  match r.state, t.kind with
  | .seeking _, .directiveName => .on { r with state := .seeking (some t.lexeme) }
  | .seeking (some name), .leftBrace => .on { r with state := .collecting name #[] #[] }
  | .seeking _, .endOfInput => .done none
  | .seeking _, found => .done (some ⟨t.line, found, [.directiveName]⟩)
  | .collecting name commands parts, .commandPart =>
    .on { r with state := .collecting name commands (parts.push t.lexeme) }
  | .collecting name commands parts, .semicolon =>
    .on { r with state := .collecting name (commands.push ⟨parts.toList⟩) #[] }
  | .collecting name commands _, .rightBrace =>
    .on ⟨.seeking none, r.closed.push ⟨name, commands.toList⟩⟩
  | .collecting .., found => .done (some ⟨t.line, found, [.commandPart, .semicolon]⟩)

def result (r : Reader) (error : Option ParseError) : Parsed :=
  ⟨⟨r.closed.toList⟩, error⟩

/-- The end of the tokens, the last of which stood on `lastLine`. -/
def cutShort (r : Reader) (lastLine : Nat) : Parsed :=
  match r.state with
  | .seeking _ => r.result none
  | .collecting .. => r.result (some ⟨lastLine, .endOfInput, [.commandPart, .semicolon]⟩)

def run (lastLine : Nat) : Reader → List Token → Parsed
  | r, [] => r.cutShort lastLine
  | r, t :: ts =>
    match r.read t with
    | .on next => run lastLine next ts
    | .done error => r.result error

end Reader

/-- The line of the last token. -/
def lastLine (ts : List Token) : Nat :=
  (ts.getLast?.map Token.line).getD 1

/-- What a sequence of tokens says, whether a scanner made it or not. -/
def ofTokens (ts : List Token) : Parsed :=
  Reader.start.run (lastLine ts) ts

end BuildTool.Program
