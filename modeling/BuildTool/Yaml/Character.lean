import BuildTool.Yaml.Fault
/-!
# The characters of a YAML text

A text holds no control characters and ends its lines in several ways, of which three remain after
`normalize`: the line feed and the separators of lines and of paragraphs.
-/

namespace BuildTool.Yaml

def isPermitted (c : Char) : Bool :=
  c = '\t' || c = '\n' || c = '\r' || (' ' ≤ c && c ≤ '~') || c = '\u0085' ||
    ('\u00a0' ≤ c && c.toNat ≤ 0xfffd) || 0x10000 ≤ c.toNat

def isBreak (c : Char) : Bool :=
  c = '\n' || c = '\u2028' || c = '\u2029'

def isBlank (c : Char) : Bool :=
  c = ' ' || c = '\t'

def isSpace (c : Char) : Bool :=
  isBlank c || isBreak c

/-- The characters of names of anchors, directives and tag handles. -/
def isWord (c : Char) : Bool :=
  c.isAlphanum || c = '_' || c = '-'

/-- Whether a word that goes up to here ends here. -/
def atWordEnd : List Char → Bool
  | [] => true
  | c :: _ => isSpace c

/-- A mark of three equal characters that bounds a document when it starts a line. -/
def isMark (m : Char) : List Char → Bool
  | a :: b :: c :: r => a = m && b = m && c = m && atWordEnd r
  | _ => false

def isDocumentMark (cs : List Char) : Bool :=
  isMark '-' cs || isMark '.' cs

/-- Writes every end of a line that stands for a line feed as one. -/
def normalize : List Char → List Char
  | [] => []
  | '\r' :: '\n' :: r => '\n' :: normalize r
  | c :: r => (if c = '\r' || c = '\u0085' then '\n' else c) :: normalize r

/-- It may stand in front of a line. -/
def byteOrderMark : Char := '\ufeff'

def characters (text : String) : Except Fault (List Char) :=
  if text.toList.all isPermitted then .ok (normalize text.toList) else .error .forbiddenCharacter

/-- A text that was read from the front of some characters, and the characters left. -/
abbrev TextResult := Except Fault (List Char × List Char)

/-- The text goes on in front. -/
def TextResult.after (front : List Char) (r : TextResult) : TextResult :=
  r.map fun (text, rest) => (front ++ text, rest)

/-- The rest of a text and the place where it starts, counted from zero. -/
structure Cursor where
  rest : List Char
  line : Nat
  /-- How many characters are in front of it on its line. -/
  column : Nat
  /-- How many octets those characters have in UTF-8. -/
  octets : Nat

namespace Cursor

def start (cs : List Char) : Cursor :=
  ⟨cs, 0, 0, 0⟩

/-- Moves over so many characters. -/
def advance : Nat → Cursor → Cursor
  | n + 1, ⟨c :: r, line, column, octets⟩ =>
    if isBreak c then advance n ⟨r, line + 1, 0, 0⟩
    else advance n ⟨r, line, column + 1, octets + c.utf8Size⟩
  | _, c => c

/-- Moves to where `rest` is what is left. -/
def moveTo (c : Cursor) (rest : List Char) : Cursor :=
  c.advance (c.rest.length - rest.length)

theorem length_rest_advance (n : Nat) (c : Cursor) :
    (c.advance n).rest.length = c.rest.length - n := by
  induction n generalizing c with
  | zero => simp [advance]
  | succ n ih =>
    obtain ⟨rest, line, column, octets⟩ := c
    cases rest with
    | nil => simp [advance]
    | cons d r =>
      unfold advance
      split <;> simp [ih]

theorem length_rest_moveTo_le (c : Cursor) (rest : List Char) :
    (c.moveTo rest).rest.length ≤ c.rest.length := by
  rw [moveTo, length_rest_advance]
  omega

end Cursor

end BuildTool.Yaml
