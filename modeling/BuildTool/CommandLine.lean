/-!
# The command line

Arguments are read from left to right: one directive at most, options by their long names or bundled
as single letters, and after `--` no options. The first thing that is wrong, or that asks for help or
for the version, ends the reading.
-/

namespace BuildTool

/-- What a command line asks for. -/
structure Options where
  directive : Option String
  file : Option String
  quiet : Bool
  dryRun : Bool
  dump : Bool
  verbosity : Nat
deriving DecidableEq

namespace CommandLine

/-- What ends the reading of a command line. -/
inductive Stop where
  | usage
  | help
  | version
deriving DecidableEq

abbrev Result := Except Stop Options

def noOptions : Options :=
  ⟨none, none, false, false, false, 0⟩

/-- An option that takes no value. -/
inductive Flag where
  | quiet
  | dryRun
  | dump
  | verbose
  | help
  | version
deriving DecidableEq

namespace Flag

def ofName : String → Option Flag
  | "quiet" => some quiet
  | "dry-run" => some dryRun
  | "dump" => some dump
  | "verbose" => some verbose
  | "help" => some help
  | "version" => some version
  | _ => none

def ofLetter : Char → Option Flag
  | 'q' => some quiet
  | 'n' => some dryRun
  | 'v' => some verbose
  | 'h' => some help
  | 'V' => some version
  | _ => none

/-- Only verbosity may be asked for more than once. -/
def set (o : Options) : Flag → Result
  | quiet => if o.quiet then .error .usage else .ok { o with quiet := true }
  | dryRun => if o.dryRun then .error .usage else .ok { o with dryRun := true }
  | dump => if o.dump then .error .usage else .ok { o with dump := true }
  | verbose => .ok { o with verbosity := o.verbosity + 1 }
  | help => .error .help
  | version => .error .version

end Flag

def setDirective (o : Options) (name : String) : Result :=
  if o.directive.isSome then .error .usage else .ok { o with directive := some name }

def setFile (o : Options) (path : String) : Result :=
  if o.file.isSome || path = "" then .error .usage else .ok { o with file := some path }

/-- Whether an argument is read as options. A lone dash is a value. -/
def isOption (arg : String) : Bool :=
  arg.startsWith "-" && arg ≠ "-"

/-- What one argument leaves to be done. -/
inductive Progress where
  | next (options : Options)
  /-- The file's path is the next argument. -/
  | file (options : Options)

/-- Reads bundled letters. The letter of the file takes what follows it as its value. -/
def readLetters (o : Options) : List Char → Except Stop Progress
  | [] => .ok (.next o)
  | 'f' :: [] => .ok (.file o)
  | 'f' :: '=' :: path => .next <$> setFile o (String.ofList path)
  | 'f' :: path => .next <$> setFile o (String.ofList path)
  | c :: cs =>
    match Flag.ofLetter c with
    | some flag => do readLetters (← flag.set o) cs
    | none => .error .usage

/-- Reads a long option without its dashes. Only the file has a value. -/
def readLong (o : Options) (arg : List Char) : Except Stop Progress :=
  let name := String.ofList (arg.takeWhile (· ≠ '='))
  match name, arg.dropWhile (· ≠ '=') with
  | "file", [] => .ok (.file o)
  | "file", _ :: path => .next <$> setFile o (String.ofList path)
  | name, [] =>
    match Flag.ofName name with
    | some flag => .next <$> flag.set o
    | none => .error .usage
  | _, _ => .error .usage

def readOption (o : Options) (arg : String) : Except Stop Progress :=
  match arg.toList with
  | '-' :: '-' :: name => readLong o name
  | '-' :: letters => readLetters o letters
  | _ => .error .usage

def read : Options → List String → Result
  | o, [] => .ok o
  | o, arg :: args =>
    if arg = "--" then args.foldlM setDirective o
    else if isOption arg then
      match readOption o arg with
      | .error stop => .error stop
      | .ok (.next o) => read o args
      | .ok (.file o) =>
        match args with
        | [] => .error .usage
        | path :: args =>
          if isOption path then .error .usage
          else do read (← setFile o path) args
    else do read (← setDirective o arg) args

/-- The options of a command line. -/
def parse (args : List String) : Result :=
  read noOptions args

def helpLines : List String :=
  ["A very lightweight build tool.",
   "",
   "Usage: gmake [OPTIONS] [DIRECTIVE]",
   "",
   "Arguments:",
   "  [DIRECTIVE]  Directive to run [default: all]",
   "",
   "Options:",
   "  -f, --file <PATH>  Read this build file instead of GMakefile",
   "  -q, --quiet        Don't echo commands before running them",
   "  -n, --dry-run      Print the commands of the directive without running them",
   "      --dump         Print the parsed build file as YAML and exit",
   "  -v, --verbose...   Increase log verbosity (-v, -vv, -vvv)",
   "  -h, --help         Print help",
   "  -V, --version      Print version"]

def help : String :=
  String.join (helpLines.map (· ++ "\n"))

def version : String :=
  "gmake 0.1.0\n"

end CommandLine

end BuildTool
