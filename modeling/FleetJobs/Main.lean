import FleetJobs.CommandLine.Run

/-! The command: reads its words, does its file operations for real, and prints.

No other program is started from here, so hosts are beyond reach and every command
sent to one fails without having started. -/
namespace FleetJobs.Main

open FleetJobs.CommandLine
open FleetJobs.Files

/-- The fault that an error of the system stands for. -/
def faultOf : IO.Error → Fault
  | .noFileOrDirectory .. => .notFound
  | .alreadyExists .. => .taken
  | .inappropriateType _ 20 _ => .notDirectory
  | .inappropriateType .. => .isDirectory
  | .resourceBusy .. => .busy
  | e => .told (toString e)

/-- What an action of the system comes to. -/
def outcomeOf (act : IO α) : IO (Except Fault α) := do
  match ← act.toBaseIO with
  | .ok a => return .ok a
  | .error e => return .error (faultOf e)

/-- Tries once a second until there is no such file and now there is. -/
partial def claim (path : String) : IO (Except Fault Unit) := do
  match ← outcomeOf (IO.FS.Handle.mk path .writeNew) with
  | .ok _ => return .ok ()
  | .error .taken =>
    IO.sleep 1000
    claim path
  | .error f => return .error f

def perform : (o : Operation) → IO o.Answer
  | .read path => outcomeOf (IO.FS.readBinFile path)
  | .create path => outcomeOf (IO.FS.writeFile path "")
  | .fill path text => outcomeOf (IO.FS.writeFile path text)
  | .rename source target => outcomeOf (IO.FS.rename source target)
  | .remove path => outcomeOf (IO.FS.removeFile path)
  | .claim path => claim path

def runFiles : FileProgram α → IO α
  | .done a => return a
  | .perform o next => do runFiles (next (← perform o))

end FleetJobs.Main

/-- Runs the command with its words. -/
def main (words : List String) : IO UInt32 := do
  match FleetJobs.CommandLine.Options.ofWords words with
  | .error stop =>
    IO.print stop.output
    return stop.exitCode
  | .ok o =>
    let hosts := FleetJobs.Gateway.ssh o.ssh .missing
    let (result, _) ← FleetJobs.Main.runFiles (FleetJobs.CommandLine.execute o hosts [])
    IO.print result.output
    return result.exitCode
