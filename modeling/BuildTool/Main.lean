import BuildTool.Invocation
import BuildTool.Run.Programs
/-!
# The program

Reads the two files that an invocation may ask for, lets `Invocation.run` decide everything, and passes
on what it says. Commands are run against the table of `Run.Programs`.
-/

namespace BuildTool.Main

def errorOf : IO.Error → Files.Error
  | .permissionDenied .. => .notAllowed
  | .inappropriateType _ code _ => if code = 21 then .isADirectory else .notADirectory
  | _ => .notFound

def readPath (path : String) : IO (Except Files.Error String) := do
  match ← (IO.FS.readBinFile path).toBaseIO with
  | .ok bytes => return Files.decode bytes
  | .error e => return .error (errorOf e)

/-- A reader that knows one more path. -/
def learn (read : PathReader) (path : String) : IO PathReader := do
  let result ← readPath path
  return fun p => if p = path then result else read p

def environment (args : List String) : IO Environment := do
  let home := (← IO.getEnv "HOME").getD ""
  let nothing : PathReader := fun _ => .error .notFound
  let read ← if home = "" then pure nothing else learn nothing (Settings.pathIn home)
  let env : Environment := ⟨read, home, Programs.world⟩
  match CommandLine.parse args with
  | .error _ => return env
  | .ok o => return { env with read := ← learn read (o.file.getD (Invocation.settings env).value.file) }

end BuildTool.Main

def main (args : List String) : IO UInt32 := do
  let (report, log) := BuildTool.Invocation.run (← BuildTool.Main.environment args) args
  IO.eprint log
  IO.print report.output
  return report.status.toUInt32
