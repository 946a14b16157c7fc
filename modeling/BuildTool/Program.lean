/-!
# Programs

A program is what a build file says: directives in the order of the file, each with a name and its
commands. Names may repeat, and the first directive of a name is the one meant (`Program.find?`).
-/

namespace BuildTool

/-- The program to start and its arguments. A command without parts is empty. -/
structure Command where
  parts : List String
deriving DecidableEq

namespace Command

def isEmpty (c : Command) : Bool :=
  c.parts.isEmpty

def program? (c : Command) : Option String :=
  c.parts.head?

def arguments (c : Command) : List String :=
  c.parts.tail

/-- The command as one line. -/
def text (c : Command) : String :=
  " ".intercalate c.parts

end Command

structure Directive where
  name : String
  commands : List Command
deriving DecidableEq

namespace Directive

/-- The commands that have something to run. -/
def effective (d : Directive) : List Command :=
  d.commands.filter (!·.isEmpty)

end Directive

structure Program where
  directives : List Directive
deriving DecidableEq

namespace Program

def empty : Program := ⟨[]⟩

def isEmpty (p : Program) : Bool :=
  p.directives.isEmpty

def find? (p : Program) (name : String) : Option Directive :=
  p.directives.find? (·.name = name)

end Program

end BuildTool
