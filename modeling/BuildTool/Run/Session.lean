import BuildTool.Compile
import BuildTool.Run.Launcher
import BuildTool.Run.Recorder
/-!
# Sessions

A session keeps one program and one recorder. Loading replaces the program and leaves the recorder
alone; running goes through the recorder; a dry run leaves both alone.
-/

namespace BuildTool

structure Session where
  program : Program
  recorder : Recorder

namespace Session

inductive Step where
  | load (source : String)
  | lookup (name : String)
  | addRule (rule : Rule)
  | clearRules
  | run (name : String)
  | dryRun (name : String)

inductive Answer where
  | loaded (directives : Nat) (error : Option CompileError)
  | found (directive : Option Directive)
  | rules (count : Nat)
  /-- The commands of this run, how many were ever recorded, and what the run came to. -/
  | ran (commands : List Command) (total : Nat) (outcome : Outcome)
  | rehearsed (text : String) (outcome : Outcome)
  | noDirective

def start : Session :=
  ⟨.empty, .empty⟩

def step (s : Session) : Step → Logged (Answer × Session)
  | .load source => do
    let compiled ← Compile.parse source
    return (.loaded compiled.program.directives.length compiled.error,
      { s with program := compiled.program })
  | .lookup name => return (.found (s.program.find? name), s)
  | .addRule rule =>
    let rules := s.recorder.rules ++ [rule]
    return (.rules rules.length, { s with recorder := { s.recorder with rules := rules } })
  | .clearRules => return (.rules 0, { s with recorder := { s.recorder with rules := [] } })
  | .run name =>
    match s.program.find? name with
    | none => return (.noDirective, s)
    | some d => do
      let (outcome, recorder) ← d.run Recorder.runner s.recorder
      return (.ran (recorder.history.toList.drop s.recorder.history.size) recorder.history.size
        outcome, { s with recorder := recorder })
  | .dryRun name =>
    match s.program.find? name with
    | none => return (.noDirective, s)
    | some d => do
      let (outcome, sink) ← d.run Launcher.rehearsal.runner Sink.unlimited
      return (.rehearsed sink.text outcome, s)

def run (s : Session) : List Step → Logged (List Answer × Session)
  | [] => return ([], s)
  | step :: steps => do
    let (answer, s) ← s.step step
    let (answers, s) ← s.run steps
    return (answer :: answers, s)

end Session

end BuildTool
