import BuildTool.Files
import BuildTool.Log
import BuildTool.Text.WhiteSpace
import BuildTool.Yaml.Document
import BuildTool.Yaml.Spelling
/-!
# Settings

The settings of a user: the build file, the directive that is run when none is named, and whether
commands are echoed. They are read from a YAML mapping, in which every key may be missing and keys that
are not known do not matter; a known key may not be repeated.
-/

namespace BuildTool

structure Settings where
  file : String
  defaultDirective : String
  echo : Bool
deriving DecidableEq

namespace Settings

def defaults : Settings :=
  ⟨"GMakefile", "all", true⟩

/-- Why a text is no settings. -/
inductive Fault where
  | yaml (fault : Yaml.Fault)
  | notAMapping
  | badKey
  | repeatedKey
  | badValue
deriving DecidableEq

namespace Fault

def message : Fault → String
  | yaml fault => fault.message
  | notAMapping => "expected a mapping"
  | badKey => "expected a key"
  | repeatedKey => "duplicate field"
  | badValue => "invalid type"

end Fault

/-- The values met so far. -/
structure Draft where
  file : Option String
  defaultDirective : Option String
  echo : Option Bool
deriving DecidableEq

namespace Draft

def empty : Draft :=
  ⟨none, none, none⟩

/-- The settings, with defaults for what is missing. -/
def settings (d : Draft) : Settings where
  file := d.file.getD defaults.file
  defaultDirective := d.defaultDirective.getD defaults.defaultDirective
  echo := d.echo.getD defaults.echo

end Draft

/-- Keeps the value of a key that had none. -/
def once (old : Option α) (new : Option α) : Except Fault (Option α) :=
  if old.isSome then .error .repeatedKey
  else match new with
  | some v => .ok (some v)
  | none => .error .badValue

/-- The tag that makes a literal block a truth value. -/
def boolTag : Yaml.Octets :=
  Yaml.Octets.ofString "tag:yaml.org,2002:bool"

/-- A truth value is a plain scalar, or a literal one with its tag. -/
def bool? (s : Yaml.Scalar) : Option Bool :=
  if s.style = .plain || (s.style = .literal && s.tag = some boolTag) then
    if Yaml.Spelling.isTrue s.text then some true
    else if Yaml.Spelling.isFalse s.text then some false
    else none
  else none

def addEntry (doc : Yaml.Document) (d : Draft) (entry : Yaml.Node × Yaml.Node) :
    Except Fault Draft :=
  match doc.scalar? entry.1 with
  | none => .error .badKey
  | some key =>
    let value := doc.scalar? entry.2
    match key.text with
    | "file" => do
      return { d with file := ← once d.file (value.map (·.text)) }
    | "default_directive" => do
      return { d with defaultDirective := ← once d.defaultDirective (value.map (·.text)) }
    | "echo" => do
      return { d with echo := ← once d.echo (value.bind bool?) }
    | _ => .ok d

def ofDocument (doc : Yaml.Document) : Except Fault Settings :=
  match doc.root with
  | .mapping entries => Draft.settings <$> entries.foldlM (addEntry doc) .empty
  | .scalar s =>
    if s.style = .plain && s.text = "" then .ok defaults else .error .notAMapping
  | _ => .error .notAMapping

/-- The settings that a text gives. -/
def ofYaml (text : String) : Except Fault Settings :=
  if text.toList.all isWhiteSpace then .ok defaults
  else match Yaml.Document.ofText text with
  | .error fault => .error (.yaml fault)
  | .ok none => .ok defaults
  | .ok (some doc) => ofDocument doc

inductive LoadError where
  | unreadable (path : String) (error : Files.Error)
  | invalid (path : String) (fault : Fault)
deriving DecidableEq

namespace LoadError

def message : LoadError → String
  | unreadable path error => "could not read " ++ path ++ ": " ++ error.message
  | invalid path fault => "invalid config " ++ path ++ ": " ++ fault.message

end LoadError

/-- Reads the settings at a path; without a file there they are the defaults. -/
def load (read : PathReader) (path : String) : Logged (Except LoadError Settings) :=
  match read path with
  | .error e =>
    if e.isMissing then do
      .say .debug .settings s!"no config at {path}"
      return .ok defaults
    else return .error (.unreadable path e)
  | .ok text => do
    .say .debug .settings s!"loaded config from {path}"
    match ofYaml text with
    | .ok s => return .ok s
    | .error fault => return .error (.invalid path fault)

/-- Where the settings of a user are. -/
def pathIn (home : String) : String :=
  Files.join (Files.join home ".gmake") "config.yaml"

end Settings

end BuildTool
