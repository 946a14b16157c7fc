import BuildTool.Run.Launcher
/-!
# The programs that can be started

A small fixed set of programs, found by their exact names. None of them reads or prints anything.
-/

namespace BuildTool.Programs

/-- An exit status is one byte. -/
def byte (n : Nat) : Exit :=
  .status (n % 256 : Nat)

/-- The status that `exitwith` is asked for; without a number it is zero. -/
def requested : List String → Exit
  | [] => .status 0
  | "" :: _ => .status 0
  | n :: _ =>
    match n.toNat? with
    | some n => byte n
    | none => .status 2

def world : World := fun c =>
  if c.parts.any (·.any (· = '\x00')) then .refused "nul byte found in provided data"
  else match c.parts with
  | "ok" :: _ => .status 0
  | "fail" :: _ => .status 1
  | "exitwith" :: arguments => requested arguments
  | "argc" :: arguments => byte arguments.length
  | "signal" :: _ => .killed
  | "noexec" :: _ => .refused "Permission denied (os error 13)"
  | _ => .refused "No such file or directory (os error 2)"

end BuildTool.Programs
