/-! A directory tree, as programs see it that name files by relative paths.

Paths are walked name by name from the top: every name but the last must be that of a
directory. What goes wrong is a `Fault`, one of a handful that file operations have. -/
namespace FleetJobs.Files

inductive Entry where
  | file (content : ByteArray)
  | directory

/-- Entries by the names on the way to them. The top itself has no entry, nor have the
directories above it: those go by two points for each step up, or by a slash for the
highest of all. -/
structure Directory where
  entries : List (List String × Entry)

/-- Why a file operation fails. -/
inductive Fault where
  | notFound
  | busy
  | taken
  | notDirectory
  | isDirectory
  | nameTooLong
  | nulInName
  /-- A fault of the world outside that is known by its words only. -/
  | told (text : String)
  deriving DecidableEq, Repr

def Fault.message : Fault → String
  | notFound => "No such file or directory (os error 2)"
  | busy => "Device or resource busy (os error 16)"
  | taken => "File exists (os error 17)"
  | notDirectory => "Not a directory (os error 20)"
  | isDirectory => "Is a directory (os error 21)"
  | nameTooLong => "File name too long (os error 36)"
  | nulInName => "file name contained an unexpected NUL byte"
  | told text => text

/-- Where a path leads. A path that ends in points leads to a directory that it does
not name; one that ends in a slash is meant to lead to a directory. -/
structure Spot where
  names : List String
  isNamed : Bool
  endsInSlash : Bool

/-- How many bytes a name or a path may have. -/
def nameLimit : Nat := 255
def pathLimit : Nat := 4095

namespace Directory

def empty : Directory := ⟨[]⟩

/-- Whether the names lead to the top or to a directory above it. -/
def isAtOrAbove (names : List String) : Bool := names.all (· == "..") || names == ["/"]

def find? (d : Directory) (names : List String) : Option Entry :=
  if isAtOrAbove names then some .directory else d.entries.lookup names

/-- The directory around another; the highest is around itself. -/
def around (names : List String) : List String :=
  if names = ["/"] then names
  else if isAtOrAbove names then names ++ [".."]
  else names.dropLast

/-- The tree with an entry put in, in place of one that is there. -/
def put (d : Directory) (names : List String) (e : Entry) : Directory :=
  ⟨(names, e) :: d.entries.filter fun x => x.1 != names⟩

def drop (d : Directory) (names : List String) : Directory :=
  ⟨d.entries.filter fun x => x.1 != names⟩

/-- Follows names down from a directory. -/
def walk (d : Directory) (slash : Bool) : List String → List String → Except Fault Spot
  | base, [] => .ok ⟨base, false, slash⟩
  | base, name :: rest =>
    if name = "." then walk d slash base rest
    else if name = ".." then walk d slash (around base) rest
    else if nameLimit < name.utf8ByteSize then .error .nameTooLong
    else if rest.isEmpty then .ok ⟨base ++ [name], true, slash⟩
    else
      match d.find? (base ++ [name]) with
      | none => .error .notFound
      | some (.file _) => .error .notDirectory
      | some .directory => walk d slash (base ++ [name]) rest

/-- The names that a path is made of. -/
def namesOf (path : String) : List String := (path.splitOn "/").filter fun name => !name.isEmpty

/-- Where a path leads. Above the top there is nothing but directories. -/
def resolve (d : Directory) (path : String) : Except Fault Spot :=
  if path.toList.contains '\x00' then .error .nulInName
  else if path.isEmpty then .error .notFound
  else if pathLimit < path.utf8ByteSize then .error .nameTooLong
  else
    d.walk (path.toList.getLast? == some '/') (if path.toList.head? = some '/' then ["/"] else [])
      (namesOf path)

def read (d : Directory) (path : String) : Except Fault ByteArray := do
  let s ← d.resolve path
  match d.find? s.names with
  | none => throw .notFound
  | some .directory => throw .isDirectory
  | some (.file content) => if s.endsInSlash then throw .notDirectory else return content

/-- An empty file, in place of a file that is there. -/
def create (d : Directory) (path : String) : Except Fault Directory := do
  let s ← d.resolve path
  if !s.isNamed || s.endsInSlash then throw .isDirectory
  match d.find? s.names with
  | some .directory => throw .isDirectory
  | _ => return d.put s.names (.file .empty)

/-- An empty file where nothing was. -/
def createNew (d : Directory) (path : String) : Except Fault Directory := do
  let s ← d.resolve path
  if !s.isNamed then throw .taken
  if s.endsInSlash then throw .isDirectory
  match d.find? s.names with
  | some _ => throw .taken
  | none => return d.put s.names (.file .empty)

/-- A file that is there gets the text for its content. -/
def fill (d : Directory) (path text : String) : Except Fault Directory := do
  let s ← d.resolve path
  match d.find? s.names with
  | none => throw .notFound
  | some .directory => throw .isDirectory
  | some (.file _) => return d.put s.names (.file text.toUTF8)

/-- A file gets another name, and takes the place of a file of that name. -/
def rename (d : Directory) (source target : String) : Except Fault Directory := do
  let s ← d.resolve source
  let t ← d.resolve target
  if !s.isNamed || !t.isNamed then throw .busy
  match d.find? s.names with
  | none => throw .notFound
  | some .directory => throw .isDirectory
  | some (.file content) =>
    if s.endsInSlash || t.endsInSlash then throw .notDirectory
    match d.find? t.names with
    | some .directory => throw .isDirectory
    | _ => return (d.drop s.names).put t.names (.file content)

def remove (d : Directory) (path : String) : Except Fault Directory := do
  let s ← d.resolve path
  match d.find? s.names with
  | none => throw .notFound
  | some .directory => throw .isDirectory
  | some (.file _) => if s.endsInSlash then throw .notDirectory else return d.drop s.names

def makeDirectory (d : Directory) (path : String) : Except Fault Directory := do
  let s ← d.resolve path
  if !s.isNamed || (d.find? s.names).isSome then throw .taken
  return d.put s.names .directory

/-- The tree with a directory and those on the way to it. -/
def withDirectory (d : Directory) (path : String) : Directory :=
  let names := namesOf path
  (List.range names.length).foldl
    (fun d k => (d.makeDirectory ("/".intercalate (names.take (k + 1)))).toOption.getD d) d

/-- The file with a text for its content, whether it was there or not. -/
def write (d : Directory) (path text : String) : Except Fault Directory := do
  (← d.create path).fill path text

/-- The names at the top, in order. -/
def names (d : Directory) : List String :=
  (d.entries.filterMap fun
    | ([name], _) => some name
    | _ => none).mergeSort fun a b => decide (a ≤ b)

end Directory

end FleetJobs.Files
