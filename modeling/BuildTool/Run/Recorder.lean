import BuildTool.Run.Sequence
/-!
# A runner that records

The recorder starts nothing. It writes down every command it is given and then decides by rules what
becomes of it: the first rule that matches speaks, and without one the command succeeds.
-/

namespace BuildTool

/-- Which commands a rule is about. -/
inductive Rule.Subject where
  /-- The command with this number, counted from 1 over all commands ever recorded. -/
  | position (n : Nat)
  /-- The commands that start this program. -/
  | program (name : String)
deriving DecidableEq

inductive Rule.Effect where
  | succeed
  | fail (status : Option Int)
  | refuse (reason : String)
  | empty
deriving DecidableEq

structure Rule where
  subject : Rule.Subject
  effect : Rule.Effect
deriving DecidableEq

namespace Rule

/-- Whether the rule is about the `n`-th command. -/
def concerns (r : Rule) (n : Nat) (c : Command) : Bool :=
  match r.subject with
  | .position k => k = n
  | .program name => c.program? = some name

def Effect.outcome (program : String) : Effect → Outcome
  | succeed => .ok ()
  | fail status => .error (.failed program status)
  | refuse reason => .error (.spawn program reason)
  | empty => .error .emptyCommand

end Rule

structure Recorder where
  rules : List Rule
  history : Array Command
deriving DecidableEq

namespace Recorder

def empty : Recorder :=
  ⟨[], #[]⟩

/-- What becomes of a command given as the `n`-th. -/
def verdict (rules : List Rule) (n : Nat) (c : Command) : Outcome :=
  match rules.find? (·.concerns n c) with
  | some r => r.effect.outcome (c.program?.getD "")
  | none => .ok ()

def runner : Runner Recorder := fun c r =>
  return (verdict r.rules (r.history.size + 1) c, { r with history := r.history.push c })

end Recorder

end BuildTool
