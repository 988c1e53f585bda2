import FleetJobs.Files.Program
import FleetJobs.Fleet.Inventory
import FleetJobs.Job.Basic
import FleetJobs.Yaml.Read
import FleetJobs.Yaml.Write

/-! Inventories and jobs in files, as YAML.

A file is saved under another name first and then takes the place of the old one, so
that at every moment the old text is there or the new one, whole (`save`). A job that
is loaded has exactly one final step, its last. -/
namespace FleetJobs.Files

open FleetJobs.Data

/-- Why the content of a file gives no value. -/
inductive ContentError where
  | yaml (cause : Yaml.ReadError)
  | notText
  | fault (cause : Fault)
  deriving DecidableEq, Repr

def ContentError.message : ContentError → String
  | yaml e => e.message
  | notText => "invalid utf-8 sequence"
  | fault f => f.message

/-- Why a file is not loaded or saved. -/
inductive FileError where
  | io (path : String) (cause : Fault)
  | content (path : String) (cause : ContentError)
  | invalid (path : String) (reason : Job.Invalid)
  deriving DecidableEq, Repr

def FileError.message : FileError → String
  | io path cause => s!"Failed to read or write {path}: {cause.message}"
  | content path cause => s!"Failed to parse {path}: {cause.message}"
  | invalid path reason => s!"Invalid {path}: {reason.message}"

/-- The value that a file's content has. -/
def decode (r : Reader α) (content : ByteArray) : Except ContentError α :=
  match String.fromUTF8? content with
  | none => .error .notText
  | some text => (Yaml.read r text).mapError .yaml

/-- Reads a value from a file. A directory can be opened, but has no content. -/
def loadAs (r : Reader α) (path : String) : FileProgram (Except FileError α) := do
  match ← operate (.read path) with
  | .error .isDirectory => return .error (.content path (.fault .isDirectory))
  | .error f => return .error (.io path f)
  | .ok content => return (decode r content).mapError (.content path)

def loadInventory (path : String) : FileProgram (Except FileError Fleet.Inventory) :=
  loadAs Fleet.Inventory.reader path

/-- A job that was read, made valid if it can be. -/
def accept (path : String) (j : Job) : Except FileError Job :=
  match j.settled.invalid? with
  | some reason => .error (.invalid path reason)
  | none => .ok j.settled

def loadJob (path : String) : FileProgram (Except FileError Job) := do
  return (← loadAs Job.reader path) >>= accept path

/-- The file that a text is written to before it replaces another. -/
def draftOf (path : String) : String := path ++ ".tmp"

/-- Puts a text in the place of a file's content. -/
def save (path text : String) : FileProgram (Except FileError Unit) := do
  match ← operate (.create (draftOf path)) with
  | .error f => return .error (.io (draftOf path) f)
  | .ok () =>
    match ← operate (.fill (draftOf path) text) with
    | .error f => return .error (.io (draftOf path) f)
    | .ok () => return (← operate (.rename (draftOf path) path)).mapError (.io path)

def saveInventory (path : String) (i : Fleet.Inventory) : FileProgram (Except FileError Unit) :=
  save path (Yaml.write i.toDatum)

end FleetJobs.Files
