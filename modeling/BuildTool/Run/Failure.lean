/-!
# How a command fails

`Failure.message` is the wording.
-/

namespace BuildTool

inductive Failure where
  | emptyCommand
  /-- The program could not be started. -/
  | spawn (program reason : String)
  /-- The program ended with a status other than zero, or was killed and has none. -/
  | failed (program : String) (status : Option Int)
deriving DecidableEq

namespace Failure

def message : Failure → String
  | emptyCommand => "empty command"
  | spawn program reason => "could not run '" ++ program ++ "': " ++ reason
  | failed program (some status) =>
    "'" ++ program ++ "' exited with status " ++ toString status
  | failed program none => "'" ++ program ++ "' was terminated by a signal"

end Failure

/-- What running something comes to. -/
abbrev Outcome := Except Failure Unit

end BuildTool
