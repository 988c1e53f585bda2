import FleetJobs.Files.Document

/-! Locks on files.

Who wants a file for itself makes a file beside it that says so, and removes it when
done. -/
namespace FleetJobs.Files

/-- The file that says that another is taken. -/
def lockOf (path : String) : String := path ++ ".lock"

/-- Does something while nobody else has the file. The lock goes whatever comes of it. -/
def withLock (path : String) (body : FileProgram α) : FileProgram (Except FileError α) := do
  match ← operate (.claim (lockOf path)) with
  | .error f => return .error (.io (lockOf path) f)
  | .ok () =>
    let r ← body
    let _ ← operate (.remove (lockOf path))
    return .ok r

end FleetJobs.Files
