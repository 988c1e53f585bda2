import FleetJobs.Files.Directory

/-! What a command does to files, one operation at a time.

Between two operations other commands may do theirs, or this one may be stopped for
good; so a program is a tree of operations, each going on with its answer. Claiming a
file is the one operation that can make a command wait: it is over only once there
was no such file and now there is. -/
namespace FleetJobs.Files

inductive Operation where
  | read (path : String)
  /-- Makes an empty file or empties the one that is there. -/
  | create (path : String)
  | fill (path text : String)
  | rename (source target : String)
  | remove (path : String)
  /-- Waits until there is no such file, and makes it. -/
  | claim (path : String)
  deriving DecidableEq, Repr

abbrev Operation.Answer : Operation → Type
  | read _ => Except Fault ByteArray
  | create _ | fill .. | rename .. | remove _ | claim _ => Except Fault Unit

namespace Directory

/-- The tree after an operation, if that worked, and whether it did. -/
def changed (d : Directory) : Except Fault Directory → Except Fault Unit × Directory
  | .ok d' => (.ok (), d')
  | .error f => (.error f, d)

/-- One operation: its answer and the tree after it, or none if it has to wait. -/
def perform (d : Directory) : (o : Operation) → Option (o.Answer × Directory)
  | .read path => some (d.read path, d)
  | .create path => some (d.changed (d.create path))
  | .fill path text => some (d.changed (d.fill path text))
  | .rename source target => some (d.changed (d.rename source target))
  | .remove path => some (d.changed (d.remove path))
  | .claim path =>
    match d.createNew path with
    | .error .taken => none
    | r => some (d.changed r)

end Directory

inductive FileProgram (α : Type) where
  | done (result : α)
  | perform (o : Operation) (next : o.Answer → FileProgram α)

namespace FileProgram

variable {α β : Type}

def bind (p : FileProgram α) (f : α → FileProgram β) : FileProgram β :=
  match p with
  | done a => f a
  | perform o next => perform o fun r => (next r).bind f

instance : Monad FileProgram where
  pure := done
  bind := bind

/-- Runs a program alone; none if it would wait for ever. -/
def run : FileProgram α → Directory → Option (α × Directory)
  | done a, d => some (a, d)
  | perform o next, d =>
    match d.perform o with
    | some (r, d') => run (next r) d'
    | none => none

end FileProgram

/-- One operation on its own. -/
def operate (o : Operation) : FileProgram o.Answer := .perform o .done

end FleetJobs.Files
