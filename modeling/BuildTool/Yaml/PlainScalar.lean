import BuildTool.Yaml.Gap
/-!
# Plain scalars

A plain scalar goes on over lines as long as they are indented, and ends before a comment, before a
colon that makes it a key, and in a flow collection before the characters of flow.
-/

namespace BuildTool.Yaml.PlainScalar

/-- Whether a plain scalar may start here. In a flow collection fewer may. -/
def startsHere (flow : Bool) : List Char → Bool
  | [] => false
  | c :: r =>
    !isSpace c &&
      (!"-?:,[]\x7b\x7d#&*!|>'\"%@\x60".toList.contains c ||
        (c = '-' && !r.head?.any isBlank) ||
        (!flow && (c = '?' || c = ':') && !atWordEnd r))

def isFlowIndicator (c : Char) : Bool :=
  c = ',' || c = '[' || c = ']' || c = '\x7b' || c = '\x7d'

/-- A colon that may not stand in a flow collection without a space behind it. -/
def isTightColon : List Char → Bool
  | ':' :: c :: _ => isFlowIndicator c || c = '?'
  | _ => false

/-- Whether a word ends before these characters. -/
def endsWord (flow : Bool) : List Char → Bool
  | [] => true
  | c :: r => (c = ':' && atWordEnd r) || (flow && isFlowIndicator c)

/-- Whether no further word starts here, behind a gap. -/
def endsScalar (flow : Bool) (indent column : Nat) : List Char → Bool
  | [] => true
  | c :: r =>
    (!flow && column < indent) || (column = 0 && isDocumentMark (c :: r)) || c = '#'

structure Result where
  text : List Char
  /-- Whether lines end between the last word and the rest. -/
  endsLine : Bool
  rest : List Char

/-- Reads on behind a word, with the gap so far, at a column. -/
def read (flow : Bool) (indent : Nat) : Gap → Nat → List Char → Except Fault Result
  | g, _, [] => .ok ⟨[], g.hasBreak, []⟩
  | g, column, c :: r =>
    if isBlank c then
      if c = '\t' && g.hasBreak && column < indent then .error .tabInIndentation
      else read flow indent (g.add c) (column + 1) r
    else if isBreak c then read flow indent (g.add c) 0 r
    else if !g.isNone && endsScalar flow indent column (c :: r) then
      .ok ⟨[], g.hasBreak, c :: r⟩
    else if flow && isTightColon (c :: r) then .error .colonInFlow
    else if endsWord flow (c :: r) then .ok ⟨[], g.hasBreak, c :: r⟩
    else
      (read flow indent .none (column + 1) r).map fun x =>
        { x with text := g.text ++ c :: x.text }

end BuildTool.Yaml.PlainScalar
