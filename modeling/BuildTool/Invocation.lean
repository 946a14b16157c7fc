import BuildTool.CommandLine
import BuildTool.Compile
import BuildTool.Program.Dump
import BuildTool.Run.Launcher
import BuildTool.Settings
/-!
# An invocation of the build tool

From a command line to an exit status and an output: the settings are loaded, the build file is read
and compiled, and then it is printed or one of its directives is run. What goes wrong is told on the
output, and the status says whether anything did.
-/

namespace BuildTool

/-- What an invocation meets. -/
structure Environment where
  read : PathReader
  home : String
  world : World

/-- What an invocation leaves. -/
structure Report where
  status : Nat
  output : String
deriving DecidableEq

namespace Invocation

def line (text : String) : String :=
  text ++ "\n"

def fatal (text : String) : String :=
  line ("gmake: fatal: " ++ text)

/-- The settings in force. Ones that cannot be loaded count as the defaults. -/
def settings (env : Environment) : Logged Settings := do
  match ← Settings.load env.read (Settings.pathIn env.home) with
  | .ok s => return s
  | .error e =>
    .say .warn .commandLine s!"{e.message}; using defaults"
    return Settings.defaults

/-- The line about what is wrong with a build file. -/
def complaint (c : Compiled) : String :=
  match c.error with
  | some e => line ("gmake:" ++ toString e.line ++ ": " ++ e.message)
  | none => ""

/-- Prints a build file as YAML. -/
def dump (c : Compiled) : Report :=
  ⟨if c.error.isSome then 1 else 0, complaint c ++ c.program.toYaml⟩

/-- Runs a directive of a build file. -/
def runDirective (c : Compiled) (name : String) (launcher : Launcher) : Logged Report :=
  match c.program.find? name with
  | none => return ⟨1, complaint c ++ fatal s!"no '{name}' directive defined"⟩
  | some d => do
    let (outcome, sink) ← d.run launcher.runner Sink.unlimited
    let echoed := complaint c ++ sink.text
    match outcome with
    | .ok () => return ⟨0, echoed⟩
    | .error e => return ⟨1, echoed ++ fatal e.message⟩

/-- Builds as the options and the environment ask. -/
def build (env : Environment) (o : Options) : Logged Report := do
  let s ← settings env
  let path := o.file.getD s.file
  match env.read path with
  | .error e =>
    .say .debug .commandLine s!"reading {path}: {e.message}"
    return ⟨1, fatal s!"could not read {path}"⟩
  | .ok source =>
    let c ← Compile.parse source
    if o.dump then return dump c
    else
      runDirective c (o.directive.getD s.defaultDirective)
        ⟨s.echo && !o.quiet, o.dryRun, env.world⟩

/-- The lines of a log that a verbosity shows. -/
def renderLog (verbosity : Nat) (records : List Log.Record) : String :=
  String.join ((records.filter (·.shown (Log.Level.ofVerbosity verbosity))).map Log.Record.render)

/-- What a command line comes to, and what is shown of the log. -/
def run (env : Environment) (args : List String) : Report × String :=
  match CommandLine.parse args with
  | .error .usage => (⟨2, ""⟩, "")
  | .error .help => (⟨0, CommandLine.help⟩, "")
  | .error .version => (⟨0, CommandLine.version⟩, "")
  | .ok o =>
    let built := build env o
    (built.value, renderLog o.verbosity built.records)

end Invocation

end BuildTool
