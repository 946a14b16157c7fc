/-!
# Files

The files below the working directory, and what comes of reading one by its path. A path is followed
name by name; `.` and an empty name stay, `..` goes back, and every place that is passed has to be a
directory. Above the working directory there is nothing to be found.
-/

namespace BuildTool

inductive Files.Content where
  | file (bytes : ByteArray)
  | directory

/-- Contents by the names that lead to them. The directories on the way need no mention. -/
structure Files where
  entries : List (List String × Files.Content)

inductive Files.Error where
  | notFound
  | notADirectory
  | isADirectory
  | notAllowed
  | nameTooLong
  | notText
  | badPath
deriving DecidableEq

namespace Files

def Error.message : Error → String
  | notFound => "No such file or directory (os error 2)"
  | notADirectory => "Not a directory (os error 20)"
  | isADirectory => "Is a directory (os error 21)"
  | notAllowed => "Permission denied (os error 13)"
  | nameTooLong => "File name too long (os error 36)"
  | notText => "stream did not contain valid UTF-8"
  | badPath => "file name contained an unexpected NUL byte"

/-- Whether the error says that nothing is there. -/
def Error.isMissing : Error → Bool
  | notFound => true
  | notADirectory => true
  | nameTooLong => true
  | badPath => true
  | isADirectory => false
  | notAllowed => false
  | notText => false

/-- The names on a path. -/
def names (path : String) : List String :=
  path.splitOn "/"

def empty : Files := ⟨[]⟩

def add (fs : Files) (path : String) (content : Content) : Files :=
  ⟨((names path).filter (fun n => n ≠ "" && n ≠ "."), content) :: fs.entries⟩

/-- What stands at the end of a path of names. -/
def content? (fs : Files) (path : List String) : Option Content :=
  match fs.entries.lookup path with
  | some c => some c
  | none =>
    if path.isEmpty || fs.entries.any (fun e => path.isPrefixOf e.1) then some .directory
    else none

/-- A place that a path leads to. -/
inductive Spot where
  | inside (names : List String)
  | outside

def root (path : String) : Spot :=
  if path.startsWith "/" then .outside else .inside []

def contentAt (fs : Files) : Spot → Option Content
  | .inside names => fs.content? names
  | .outside => some .directory

/-- The most bytes that a name and a whole path may have. -/
def maxName : Nat := 255

def maxPath : Nat := 4095

/-- Goes one name on from a directory. -/
def follow (fs : Files) (spot : Spot) (name : String) : Except Error Spot :=
  match fs.contentAt spot with
  | none => .error .notFound
  | some (.file _) => .error .notADirectory
  | some .directory =>
    if name = "" || name = "." then .ok spot
    else if maxName < name.utf8ByteSize then .error .nameTooLong
    else match spot with
    | .outside => if name = ".." then .ok .outside else .error .notFound
    | .inside names =>
      if name = ".." then
        .ok (if names.isEmpty then .outside else .inside names.dropLast)
      else .ok (.inside (names ++ [name]))

def find (fs : Files) (path : String) : Except Error Content :=
  if path.any (· = '\x00') then .error .badPath
  else if path = "" then .error .notFound
  else if maxPath < path.utf8ByteSize then .error .nameTooLong
  else do
    let spot ← (names path).foldlM fs.follow (root path)
    match fs.contentAt spot with
    | some c => return c
    | none => throw .notFound

/-- The text of bytes that are UTF-8. -/
def decode (bytes : ByteArray) : Except Error String :=
  match String.fromUTF8? bytes with
  | some text => .ok text
  | none => .error .notText

/-- The text of a file. -/
def read (fs : Files) (path : String) : Except Error String := do
  match ← fs.find path with
  | .directory => throw .isADirectory
  | .file bytes => decode bytes

/-- The path of `name` in the directory `path`. -/
def join (path name : String) : String :=
  if path = "" || path.endsWith "/" then path ++ name else path ++ "/" ++ name

end Files

/-- What reading a path gives. -/
abbrev PathReader := String → Except Files.Error String

end BuildTool
