import BuildTool.Yaml.BlockScalar
import BuildTool.Yaml.PlainScalar
import BuildTool.Yaml.Quoted
import BuildTool.Yaml.Tag
/-!
# Lexemes of YAML

What stands at the front of a text that starts with neither a blank nor a comment. Which lexeme it is
depends on the column and on whether a flow collection is open; how far a scalar goes also on the
indentation of the block around it.
-/

namespace BuildTool.Yaml

inductive ScalarStyle where
  | plain
  | singleQuoted
  | doubleQuoted
  | literal
  | folded
deriving DecidableEq

inductive Lexeme where
  | directive (line : DirectiveLine)
  | documentStart
  | documentEnd
  | flowSequenceStart
  | flowSequenceEnd
  | flowMappingStart
  | flowMappingEnd
  /-- A comma. -/
  | flowEntry
  /-- A dash. -/
  | blockEntry
  /-- A question mark. -/
  | key
  /-- A colon. -/
  | value
  | alias (name : String)
  | anchor (name : String)
  | tag (tag : Tag)
  /-- A scalar; after a plain one a line may have ended. -/
  | scalar (style : ScalarStyle) (text : String) (endsLine : Bool)

namespace Lexeme

/-- Where a lexeme stands. -/
structure Place where
  flow : Bool
  /-- The indentation of the block collection around, if there is one. -/
  indent : Option Nat
  column : Nat

abbrev Result := Except Fault (Lexeme × List Char)

/-- What may stand behind the name of an anchor. -/
def endsName : List Char → Bool
  | [] => true
  | c :: _ => isSpace c || "?:,]\x7d%@\x60".toList.contains c

/-- Reads the name of an anchor or alias. -/
def readName (make : String → Lexeme) (cs : List Char) : Result :=
  let name := cs.takeWhile isWord
  let rest := cs.dropWhile isWord
  if name.isEmpty || !endsName rest then .error .badName
  else .ok (make (String.ofList name), rest)

def readTag (flow : Bool) (cs : List Char) : Result := do
  let (t, rest) ← Tag.read cs
  if Tag.endsHere flow rest then return (.tag t, rest) else .error .badTag

def readDirective (cs : List Char) : Result := do
  let (line, rest) ← DirectiveLine.read cs
  return (.directive line, rest)

def readQuoted (style : ScalarStyle) (r : TextResult) : Result := do
  let (text, rest) ← r
  return (.scalar style (String.ofList text) false, rest)

def readPlain (p : Place) (cs : List Char) : Result := do
  let indent := (p.indent.map (· + 1)).getD 0
  let x ← PlainScalar.read p.flow indent .none p.column cs
  return (.scalar .plain (String.ofList x.text) x.endsLine, x.rest)

def readBlock (style : ScalarStyle) (p : Place) (cs : List Char) : Result :=
  readQuoted style (BlockScalar.scan (style = .folded) p.indent cs)

/-- The lexeme that starts with `c` and goes on with `r`. -/
def read (p : Place) (c : Char) (r : List Char) : Result :=
  if p.column = 0 && c = '%' then readDirective r
  else if p.column = 0 && isMark '-' (c :: r) then .ok (.documentStart, r.drop 2)
  else if p.column = 0 && isMark '.' (c :: r) then .ok (.documentEnd, r.drop 2)
  else match c with
  | '[' => .ok (.flowSequenceStart, r)
  | '\x7b' => .ok (.flowMappingStart, r)
  | ']' => .ok (.flowSequenceEnd, r)
  | '\x7d' => .ok (.flowMappingEnd, r)
  | ',' => .ok (.flowEntry, r)
  | '*' => readName .alias r
  | '&' => readName .anchor r
  | '!' => readTag p.flow r
  | '\x27' => readQuoted .singleQuoted (Quoted.single false .none r)
  | '"' => readQuoted .doubleQuoted (Quoted.double (.text .none) r)
  | c =>
    if c = '-' && atWordEnd r then .ok (.blockEntry, r)
    else if c = '?' && (p.flow || atWordEnd r) then .ok (.key, r)
    else if c = ':' && (p.flow || atWordEnd r) then .ok (.value, r)
    else if c = '|' && !p.flow then readBlock .literal p r
    else if c = '>' && !p.flow then readBlock .folded p r
    else if PlainScalar.startsHere p.flow (c :: r) then readPlain p (c :: r)
    else .error .unexpectedCharacter

end Lexeme

end BuildTool.Yaml
