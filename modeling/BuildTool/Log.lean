/-!
# Log records

What happens along the way is told in records: a level, the component that speaks and a message. A
computation that speaks is `Logged`: its value with its records in order. `Record.render` writes a
record as a line, and `Record.shown` says which records are worth one.
-/

namespace BuildTool

inductive Log.Level where
  | error
  | warn
  | info
  | debug
  | trace
deriving DecidableEq

namespace Log.Level

def name : Level → String
  | error => "ERROR"
  | warn => "WARN"
  | info => "INFO"
  | debug => "DEBUG"
  | trace => "TRACE"

/-- How much detail a level asks for. -/
def detail : Level → Nat
  | error => 0
  | warn => 1
  | info => 2
  | debug => 3
  | trace => 4

/-- The most detailed level shown when verbosity was asked for so many times. -/
def ofVerbosity : Nat → Level
  | 0 => warn
  | 1 => info
  | 2 => debug
  | _ => trace

end Log.Level

inductive Log.Component where
  | commandLine
  | settings
  | compiler
  | runner
  | launcher
deriving DecidableEq

namespace Log.Component

def name : Component → String
  | commandLine => "gmake"
  | settings => "gmake::config"
  | compiler => "gmake::dsl"
  | runner => "gmake::runner"
  | launcher => "gmake::runner::process"

end Log.Component

structure Log.Record where
  level : Log.Level
  component : Log.Component
  message : String
deriving DecidableEq

namespace Log.Record

/-- Pads a level to the width of the widest one. -/
def paddedLevel (l : Level) : String :=
  l.name ++ String.ofList (List.replicate (5 - l.name.length) ' ')

/-- One line; the lines of a message after its first are indented. -/
def render (r : Record) : String :=
  "[" ++ paddedLevel r.level ++ " " ++ r.component.name ++ "] " ++
    "\n    ".intercalate (r.message.splitOn "\n") ++ "\n"

def shown (limit : Level) (r : Record) : Bool :=
  r.level.detail ≤ limit.detail

end Log.Record

/-- A value and what was said on the way to it. -/
structure Logged (α : Type u) where
  value : α
  records : List Log.Record

namespace Logged

protected def pure (a : α) : Logged α :=
  ⟨a, []⟩

protected def bind (x : Logged α) (f : α → Logged β) : Logged β :=
  ⟨(f x.value).value, x.records ++ (f x.value).records⟩

instance : Monad Logged where
  pure := Logged.pure
  bind := Logged.bind

/-- Says one thing. -/
def say (level : Log.Level) (component : Log.Component) (message : String) : Logged Unit :=
  ⟨(), [⟨level, component, message⟩]⟩

@[simp] theorem value_pure (a : α) : (pure a : Logged α).value = a := rfl

@[simp] theorem records_pure (a : α) : (pure a : Logged α).records = [] := rfl

@[simp] theorem value_bind (x : Logged α) (f : α → Logged β) :
    (x >>= f).value = (f x.value).value := rfl

@[simp] theorem value_map (f : α → β) (x : Logged α) : (f <$> x).value = f x.value := rfl

@[simp] theorem records_bind (x : Logged α) (f : α → Logged β) :
    (x >>= f).records = x.records ++ (f x.value).records := rfl

@[simp] theorem records_map (f : α → β) (x : Logged α) : (f <$> x).records = x.records :=
  List.append_nil _

@[simp] theorem records_say (l : Log.Level) (c : Log.Component) (m : String) :
    (say l c m).records = [⟨l, c, m⟩] := rfl

theorem ext_iff_value_records {x y : Logged α} :
    x = y ↔ x.value = y.value ∧ x.records = y.records := by
  cases x; cases y; simp

instance : LawfulMonad Logged :=
  LawfulMonad.mk' Logged
    (fun x => ext_iff_value_records.2 ⟨rfl, List.append_nil _⟩)
    (fun a f => ext_iff_value_records.2 ⟨rfl, List.nil_append _⟩)
    (fun x f g => ext_iff_value_records.2 ⟨rfl, List.append_assoc ..⟩)

end Logged

end BuildTool
