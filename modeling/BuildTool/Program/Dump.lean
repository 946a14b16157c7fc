import BuildTool.Program
import BuildTool.Yaml.Spelling
/-!
# Programs as YAML

A program is written as a sequence of directives in block style, one scalar to a line: a directive is
a mapping of its name and its commands, a command the sequence of its parts. A sequence without items
is written `[]`.
-/

namespace BuildTool

open Yaml (Spelling.write)

/-- The lines of a command. -/
def Command.yamlLines (c : Command) : List String :=
  match c.parts with
  | [] => ["  - []"]
  | p :: ps => ("  - - " ++ Spelling.write p) :: ps.map ("    - " ++ Spelling.write ·)

namespace Directive

def yamlLines (d : Directive) : List String :=
  ("- name: " ++ Spelling.write d.name) ::
    match d.commands with
    | [] => ["  commands: []"]
    | cs => "  commands:" :: cs.flatMap Command.yamlLines

end Directive

namespace Program

def yamlLines (p : Program) : List String :=
  match p.directives with
  | [] => ["[]"]
  | ds => ds.flatMap Directive.yamlLines

def toYaml (p : Program) : String :=
  String.join (p.yamlLines.map (· ++ "\n"))

end Program

end BuildTool
