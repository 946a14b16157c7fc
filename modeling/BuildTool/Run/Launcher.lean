import BuildTool.Run.Sequence
import BuildTool.Run.Sink
/-!
# Launching programs

The launcher starts the program that a command names. Before that it may announce the command on a
sink; whether the sink takes the line has no bearing on the command. In a dry run it announces every
command and starts none.

What starting a program comes to is a function of the command (`World`).
-/

namespace BuildTool

/-- How a program that was to be started ended. -/
inductive Exit where
  | refused (reason : String)
  | status (code : Int)
  | killed
deriving DecidableEq

/-- What becomes of each command's program when it is started. -/
abbrev World := Command → Exit

namespace Exit

def outcome (program : String) : Exit → Outcome
  | refused reason => .error (.spawn program reason)
  | status code => if code = 0 then .ok () else .error (.failed program (some code))
  | killed => .error (.failed program none)

end Exit

structure Launcher where
  echo : Bool
  dryRun : Bool
  world : World

namespace Launcher

/-- Announces every command and starts none. -/
def rehearsal : Launcher where
  echo := true
  dryRun := true
  world := fun _ => .status 0

def announces (l : Launcher) : Bool :=
  l.echo || l.dryRun

/-- Writes the command's line. A line that could not be written is worth a warning, no more. -/
def announce (c : Command) (sink : Sink) : Logged Sink :=
  match sink.writeLine c.text with
  | (.ok (), sink) => return sink
  | (.error e, sink) => do
    .say .warn .launcher s!"could not echo command: {e.message}"
    return sink

def launch (l : Launcher) (program : String) (c : Command) : Logged Outcome := do
  .say .info .launcher s!"spawning {program}"
  return (l.world c).outcome program

def runner (l : Launcher) : Runner Sink := fun c sink =>
  match c.program? with
  | none => return (.error .emptyCommand, sink)
  | some program => do
    let sink ← if l.announces then announce c sink else pure sink
    if l.dryRun then
      return (.ok (), sink)
    else
      return (← l.launch program c, sink)

end Launcher

end BuildTool
