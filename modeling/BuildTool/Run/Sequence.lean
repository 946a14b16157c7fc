import BuildTool.Program
import BuildTool.Log
import BuildTool.Run.Failure
/-!
# Running a directive

The commands of a directive run one after the other through a runner, which may be anything that acts
on a state. Empty commands have nothing to run and are passed over; the first failure ends the run.
-/

namespace BuildTool

/-- Runs one command, and so changes a state. -/
abbrev Runner (σ : Type u) := Command → σ → Logged (Outcome × σ)

namespace Runner

/-- Runs commands for the directive `name` until one fails. -/
def runAll (runner : Runner σ) (name : String) : List Command → σ → Logged (Outcome × σ)
  | [], s => return (.ok (), s)
  | c :: cs, s => do
    if c.isEmpty then
      .say .debug .runner s!"skipping empty command in '{name}'"
      runAll runner name cs s
    else
      match ← runner c s with
      | (.ok (), s) => runAll runner name cs s
      | (.error e, s) =>
        .say .error .runner s!"'{name}' failed: {e.message}"
        return (.error e, s)

@[simp] theorem runAll_nil (runner : Runner σ) (name : String) (s : σ) :
    runner.runAll name [] s = pure (.ok (), s) := rfl

/-- A run goes on behind its first part only if that succeeded, and from the state it left. -/
theorem runAll_append (runner : Runner σ) (name : String) (xs ys : List Command) (s : σ) :
    runner.runAll name (xs ++ ys) s = (do
      match ← runner.runAll name xs s with
      | (.ok (), s) => runner.runAll name ys s
      | (.error e, s) => return (.error e, s)) := by
  induction xs generalizing s with
  | nil => simp
  | cons c cs ih =>
    by_cases h : c.isEmpty
    · simp [runAll, h, ih]
    · simp only [List.cons_append, runAll, h, Bool.false_eq_true, if_false, bind_assoc]
      congr 1
      funext x
      rcases x with ⟨_ | _, s⟩ <;> simp [ih]

/-- Runs commands one after the other whatever becomes of them. -/
def runEach (runner : Runner σ) : List Command → σ → Logged (List Outcome × σ)
  | [], s => return ([], s)
  | c :: cs, s => do
    let (outcome, s) ← runner c s
    let (outcomes, s) ← runEach runner cs s
    return (outcome :: outcomes, s)

end Runner

namespace Directive

def run (d : Directive) (runner : Runner σ) (s : σ) : Logged (Outcome × σ) := do
  .say .debug .runner s!"running directive '{d.name}' ({d.commands.length} commands)"
  runner.runAll d.name d.commands s

end Directive

end BuildTool
