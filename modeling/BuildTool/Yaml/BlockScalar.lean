import BuildTool.Yaml.Character
/-!
# Block scalars

A header says whether the lines of a block scalar are folded, what becomes of the breaks at its end
and perhaps how far it is indented; otherwise the first line that is not blank tells. The scalar goes
on as long as its lines are indented that far.
-/

namespace BuildTool.Yaml.BlockScalar

/-- What becomes of the breaks behind the last line. -/
inductive Chomping where
  | strip
  | clip
  | keep
deriving DecidableEq

structure Header where
  chomping : Chomping
  /-- How much further than its parent the scalar is indented. -/
  increment : Option Nat

def chomping? : Char → Option Chomping
  | '+' => some .keep
  | '-' => some .strip
  | _ => none

def increment? (c : Char) : Option Nat :=
  if c.isDigit then some (c.toNat - '0'.toNat) else none

/-- The indicators of a header, in either order. -/
def Header.read (cs : List Char) : Header × List Char :=
  match cs with
  | [] => (⟨.clip, none⟩, [])
  | c :: r =>
    match chomping? c, increment? c with
    | some k, _ =>
      match r with
      | [] => (⟨k, none⟩, [])
      | d :: r' =>
        match increment? d with
        | some n => (⟨k, some n⟩, r')
        | none => (⟨k, none⟩, r)
    | none, some n =>
      match r with
      | [] => (⟨.clip, some n⟩, [])
      | d :: r' =>
        match chomping? d with
        | some k => (⟨k, some n⟩, r')
        | none => (⟨.clip, some n⟩, r)
    | none, none => (⟨.clip, none⟩, cs)

/-- What lies between two lines of the scalar. -/
structure Seam where
  /-- The break that ends the line before; there is none in front of the first line. -/
  before : List Char
  /-- Whether the line before starts with a blank. -/
  afterBlank : Bool
  /-- The breaks of the empty lines after it, the last one first. -/
  empty : List Char

namespace Seam

/-- The text between the lines. Folding turns a line feed between two lines that start with no blank
into a space, or drops it if empty lines follow. -/
def text (s : Seam) (folded nextBlank : Bool) : List Char :=
  let empty := s.empty.reverse
  if folded && s.before = ['\n'] && !s.afterBlank && !nextBlank then
    if empty.isEmpty then [' '] else empty
  else s.before ++ empty

/-- The text behind the last line. -/
def chomped (s : Seam) : Chomping → List Char
  | .strip => []
  | .clip => s.before
  | .keep => s.before ++ s.empty.reverse

end Seam

/-- Where in a block scalar a character stands. -/
inductive State where
  /-- Among the spaces before a line. The indentation of the scalar is known or not; `widest` is the
  widest line so far. -/
  | margin (indent : Option Nat) (column widest : Nat) (seam : Seam)
  /-- In a line, which started with a blank or not. -/
  | line (indent : Nat) (blank : Bool)

structure Style where
  folded : Bool
  chomping : Chomping
  /-- The least indentation. -/
  least : Nat

def read (style : Style) : State → List Char → TextResult
  | .margin _ _ _ seam, [] => .ok (seam.chomped style.chomping, [])
  | .line _ _, [] => .ok ([], [])
  | .margin indent column widest seam, c :: r =>
    let short := indent.all (column < ·)
    if c = ' ' && short then read style (.margin indent (column + 1) widest seam) r
    else if c = '\t' && short then .error .tabInIndentation
    else if isBreak c then
      read style (.margin indent 0 (max widest column) { seam with empty := c :: seam.empty }) r
    else
      let indent := indent.getD (max (max widest column) style.least)
      if column = indent then
        TextResult.after (seam.text style.folded (isBlank c) ++ [c]) (read style (.line indent (isBlank c)) r)
      else .ok (seam.chomped style.chomping, c :: r)
  | .line indent blank, c :: r =>
    if isBreak c then read style (.margin (some indent) 0 0 ⟨[c], blank, []⟩) r
    else TextResult.after [c] (read style (.line indent blank) r)

/-- The rest of a header's line: blanks and a comment. -/
def restOfLine (cs : List Char) : Except Fault (List Char) :=
  let cs := cs.dropWhile isBlank
  let cs := if cs.head? = some '#' then cs.dropWhile (!isBreak ·) else cs
  match cs with
  | [] => .ok []
  | c :: r => if isBreak c then .ok r else .error .badBlockHeader

/-- Reads on behind the indicator; `parent` is the indentation of the collection around, if there is
one. -/
def scan (folded : Bool) (parent : Option Nat) (cs : List Char) : TextResult := do
  let (header, cs) := Header.read cs
  if header.increment = some 0 then .error .badBlockHeader
  else
    let cs ← restOfLine cs
    let style : Style := ⟨folded, header.chomping, max 1 ((parent.map (· + 1)).getD 0)⟩
    let indent := header.increment.map (parent.getD 0 + ·)
    read style (.margin indent 0 0 ⟨[], false, []⟩) cs

end BuildTool.Yaml.BlockScalar
