import BuildTool.Yaml.Character
/-!
# Gaps between the words of a scalar

The blanks and breaks between two words of a scalar. A gap on one line stands for itself. A gap with
breaks is folded: blanks are dropped, a single line feed becomes a space, and of several breaks a
leading line feed is dropped (`Gap.text`).
-/

namespace BuildTool.Yaml

structure Gap where
  /-- Whether the gap starts with a break that an escape took away. -/
  joined : Bool
  /-- The characters so far, the last one first. -/
  reversed : List Char

namespace Gap

def none : Gap :=
  ⟨false, []⟩

/-- The gap behind an escaped break. -/
def join : Gap :=
  ⟨true, []⟩

def add (g : Gap) (c : Char) : Gap :=
  { g with reversed := c :: g.reversed }

def isNone (g : Gap) : Bool :=
  !g.joined && g.reversed.isEmpty

def hasBreak (g : Gap) : Bool :=
  g.joined || g.reversed.any isBreak

/-- Whether the next word starts its line. -/
def atLineStart (g : Gap) : Bool :=
  match g.reversed with
  | [] => g.joined
  | c :: _ => isBreak c

/-- Breaks between two words, as they are read. -/
def fold : List Char → List Char
  | ['\n'] => [' ']
  | '\n' :: bs => bs
  | bs => bs

def text (g : Gap) : List Char :=
  let cs := g.reversed.reverse
  if g.joined then cs.filter isBreak
  else if g.hasBreak then fold (cs.filter isBreak)
  else cs

end Gap

end BuildTool.Yaml
