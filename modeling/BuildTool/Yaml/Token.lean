import BuildTool.Yaml.Lexeme
/-!
# From lexemes to tokens

In the tokens of a YAML text the structure that the layout shows is explicit: where block collections
start and end, and what is a key. The layout keeps the columns of the open block collections and, for
every open flow collection and outside of them, what may turn out to be a key once a colon follows on
its line (`Candidate`).
-/

namespace BuildTool.Yaml

inductive Token where
  | directive (line : DirectiveLine)
  | documentStart
  | documentEnd
  | blockSequenceStart
  | blockMappingStart
  | blockEnd
  | flowSequenceStart
  | flowSequenceEnd
  | flowMappingStart
  | flowMappingEnd
  | blockEntry
  | flowEntry
  | key
  | value
  | alias (name : String)
  | anchor (name : String)
  | tag (tag : Tag)
  | scalar (style : ScalarStyle) (text : String)
deriving DecidableEq

/-- The place of a lexeme that a colon on the same line would make a key. -/
structure Candidate where
  /-- Nothing but a key may start there. -/
  required : Bool
  /-- How many tokens are in front of it. -/
  index : Nat
  line : Nat
  column : Nat
  octets : Nat

structure Layout where
  cursor : Cursor
  tokens : Array Token
  /-- The columns of the open block collections, the innermost first. -/
  indents : List Nat
  /-- The candidate in the innermost open collection. -/
  candidate : Option Candidate
  /-- The candidates around the open flow collections, the innermost first. -/
  outer : List (Option Candidate)
  /-- Whether a key may start here. -/
  keyAllowed : Bool

namespace Layout

def start (cs : List Char) : Layout where
  cursor := Cursor.start cs
  tokens := #[]
  indents := []
  candidate := none
  outer := []
  keyAllowed := true

def inFlow (l : Layout) : Bool :=
  !l.outer.isEmpty

def indent (l : Layout) : Option Nat :=
  l.indents.head?

/-- Where between two lexemes a character stands. -/
inductive Spot where
  | lineStart
  | inLine
  | comment
deriving DecidableEq

/-- Blanks, comments, ends of lines and byte order marks in front of lines. After the end of a line in
a block a key may start; a tab is no indentation of it. -/
def skipSpace (flow : Bool) : Spot → (keyAllowed : Bool) → List Char → Bool × List Char
  | _, keyAllowed, [] => (keyAllowed, [])
  | spot, keyAllowed, c :: r =>
    if isBreak c then skipSpace flow .lineStart (keyAllowed || !flow) r
    else if spot = .comment then skipSpace flow .comment keyAllowed r
    else if spot = .lineStart && c = byteOrderMark then skipSpace flow .inLine keyAllowed r
    else if c = ' ' || (c = '\t' && (flow || !keyAllowed)) then skipSpace flow .inLine keyAllowed r
    else if c = '#' then skipSpace flow .comment keyAllowed r
    else (keyAllowed, c :: r)

/-- How many octets behind its start a key may have its colon. -/
def keyLimit : Nat := 1024

def Candidate.isStale (cursor : Cursor) (k : Candidate) : Bool :=
  k.line < cursor.line || k.octets + keyLimit < cursor.octets

/-- Drops a candidate whose colon can no longer follow. -/
def refresh (cursor : Cursor) : Option Candidate → Except Fault (Option Candidate)
  | some k =>
    if Candidate.isStale cursor k then
      if k.required then .error .unfinishedKey else .ok none
    else .ok (some k)
  | none => .ok none

/-- Closes the block collections that are indented further than `column`; without a column all. -/
def closeBlocks (column : Option Nat) : List Nat → Array Token → List Nat × Array Token
  | [], ts => ([], ts)
  | i :: is, ts =>
    if column.all (· < i) then closeBlocks column is (ts.push .blockEnd) else (i :: is, ts)

def unroll (column : Option Nat) (l : Layout) : Layout :=
  if l.inFlow then l
  else
    let (indents, tokens) := closeBlocks column l.indents l.tokens
    { l with indents, tokens }

/-- Comes to a lexeme. -/
def arrive (l : Layout) (keyAllowed : Bool) (cursor : Cursor) : Except Fault Layout := do
  let candidate ← refresh cursor l.candidate
  let outer ← l.outer.mapM (refresh cursor)
  return unroll (some cursor.column) { l with cursor, candidate, outer, keyAllowed }

def emit (t : Token) (l : Layout) : Layout :=
  { l with tokens := l.tokens.push t }

def allowKey (allowed : Bool) (l : Layout) : Layout :=
  { l with keyAllowed := allowed }

/-- There is no candidate any more. -/
def dropCandidate (l : Layout) : Except Fault Layout :=
  if l.candidate.any (·.required) then .error .unfinishedKey
  else .ok { l with candidate := none }

/-- What starts here may turn out to be a key. -/
def propose (l : Layout) : Except Fault Layout :=
  if l.keyAllowed then do
    let l ← l.dropCandidate
    let required := !l.inFlow && l.indent = some l.cursor.column
    return { l with
      candidate :=
        some ⟨required, l.tokens.size, l.cursor.line, l.cursor.column, l.cursor.octets⟩ }
  else .ok l

/-- Puts tokens in front of the ones from `index` on. -/
def insertTokens (index : Nat) (new : Array Token) (l : Layout) : Layout :=
  { l with tokens := l.tokens.take index ++ new ++ l.tokens.drop index }

/-- Whether a block collection starts at `column`. -/
def opensBlock (l : Layout) (column : Nat) : Bool :=
  !l.inFlow && l.indent.all (· < column)

/-- A block collection starts here unless one is open at this column. -/
def openBlock (t : Token) (l : Layout) : Layout :=
  if l.opensBlock l.cursor.column then
    { l with indents := l.cursor.column :: l.indents, tokens := l.tokens.push t }
  else l

/-- An indicator in a block that may stand only where a key may. -/
def indicator (opening : Token) (l : Layout) : Except Fault Layout :=
  if l.inFlow then .ok l
  else if l.keyAllowed then .ok (l.openBlock opening)
  else .error .misplacedIndicator

/-- The candidate is a key. -/
def confirm (k : Candidate) (l : Layout) : Layout :=
  let l := { l with candidate := none }
  if l.opensBlock k.column then
    { l.insertTokens k.index #[.blockMappingStart, .key] with indents := k.column :: l.indents }
  else l.insertTokens k.index #[.key]

/-- Outside of every document's content. -/
def leaveContent (l : Layout) : Except Fault Layout := do
  return (← (unroll none l).dropCandidate).allowKey false

/-- A flow collection starts here. -/
def enterFlow (l : Layout) : Except Fault Layout := do
  let l ← l.propose
  return { l with candidate := none, outer := l.candidate :: l.outer, keyAllowed := true }

/-- A flow collection ends here. -/
def leaveFlow (l : Layout) : Except Fault Layout := do
  let l ← l.dropCandidate
  match l.outer with
  | k :: ks => return { l with candidate := k, outer := ks, keyAllowed := false }
  | [] => return l.allowKey false

/-- Takes in the lexeme that starts at the cursor. -/
def accept (l : Layout) : Lexeme → Except Fault Layout
  | .directive line => do return (← l.leaveContent).emit (.directive line)
  | .documentStart => do return (← l.leaveContent).emit .documentStart
  | .documentEnd => do return (← l.leaveContent).emit .documentEnd
  | .flowSequenceStart => do return (← l.enterFlow).emit .flowSequenceStart
  | .flowMappingStart => do return (← l.enterFlow).emit .flowMappingStart
  | .flowSequenceEnd => do return (← l.leaveFlow).emit .flowSequenceEnd
  | .flowMappingEnd => do return (← l.leaveFlow).emit .flowMappingEnd
  | .flowEntry => do return ((← l.dropCandidate).allowKey true).emit .flowEntry
  | .blockEntry => do
    let l ← l.indicator .blockSequenceStart
    return ((← l.dropCandidate).allowKey true).emit .blockEntry
  | .key => do
    let l ← l.indicator .blockMappingStart
    return ((← l.dropCandidate).allowKey !l.inFlow).emit .key
  | .value =>
    match l.candidate with
    | some k => return ((l.confirm k).allowKey false).emit .value
    | none => do
      let l ← l.indicator .blockMappingStart
      return (l.allowKey !l.inFlow).emit .value
  | .alias name => do return ((← l.propose).allowKey false).emit (.alias name)
  | .anchor name => do return ((← l.propose).allowKey false).emit (.anchor name)
  | .tag tag => do return ((← l.propose).allowKey false).emit (.tag tag)
  | .scalar style text endsLine => do
    if style = .literal || style = .folded then
      return ((← l.dropCandidate).allowKey true).emit (.scalar style text)
    else
      return ((← l.propose).allowKey endsLine).emit (.scalar style text)

/-- The end of the text. -/
def finish (l : Layout) : Except Fault (List Token) := do
  return (← l.leaveContent).tokens.toList

/-- Takes in lexemes to the end of the text. A lexeme has at least one character. -/
def run (l : Layout) : Except Fault (List Token) :=
  let spot := if l.cursor.column = 0 then .lineStart else .inLine
  let (keyAllowed, rest) := skipSpace l.inFlow spot l.keyAllowed l.cursor.rest
  let cursor := l.cursor.moveTo rest
  match _nonempty : cursor.rest with
  | [] => l.arrive keyAllowed cursor >>= finish
  | c :: r => do
    let l ← l.arrive keyAllowed cursor
    let (lexeme, rest) ← Lexeme.read ⟨l.inFlow, l.indent, cursor.column⟩ c r
    let next ← l.accept lexeme
    run { next with cursor := cursor.advance (r.length - rest.length + 1) }
termination_by l.cursor.rest.length
decreasing_by
  have hrest : cursor.rest.length = r.length + 1 := congrArg List.length _nonempty
  have hmove := l.cursor.length_rest_moveTo_le
  rw [Cursor.length_rest_advance]
  exact Nat.lt_of_lt_of_le (Nat.sub_lt (hrest ▸ Nat.succ_pos _) (Nat.succ_pos _)) (hmove _)

end Layout

namespace Token

def ofText (text : String) : Except Fault (List Token) := do
  (Layout.start (← characters text)).run

end Token

end BuildTool.Yaml
