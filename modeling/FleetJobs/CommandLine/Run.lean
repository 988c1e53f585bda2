import FleetJobs.CommandLine.Options
import FleetJobs.Files.Lock
import FleetJobs.Pass.Batch

/-! What the command does with its options, as a program over files.

In validating mode each job file is loaded, and a line tells how many steps the job
has or what is wrong. In running mode the jobs are loaded first; then, while nobody
else has the inventory, it is loaded, the jobs are run on its records, and the
records are saved whatever came of the jobs. A run is a success if every report says
that its job is complete. -/
namespace FleetJobs.CommandLine

open FleetJobs.Files
open FleetJobs.Gateway (Remote)
open FleetJobs.Job (Control)

/-- Whether the command succeeds, and what it shows. -/
structure Result where
  success : Bool
  output : String
  deriving DecidableEq, Repr

/-- Loads each job file; the first that fails ends it. -/
def loadJobs : List String → FileProgram (Except FileError (List Job))
  | [] => return .ok []
  | path :: rest => do
    match ← loadJob path with
    | .error e => return .error e
    | .ok j => return (← loadJobs rest).map (j :: ·)

/-- What a job file's line says. -/
def validationLine (path : String) : Except FileError Job → String
  | .ok j => s!"{path}: {j.steps.length} steps\n"
  | .error e => s!"{path}: {e.message}\n"

def validate : List String → FileProgram Result
  | [] => return ⟨true, ""⟩
  | path :: rest => do
    let loaded ← loadJob path
    let others ← validate rest
    return ⟨loaded.toBool && others.success, validationLine path loaded ++ others.output⟩

/-- What is shown of the reports. -/
def reportResult (reports : List Report) : Result where
  success := reports.all fun r => r.state == .complete
  output := String.join (reports.map fun r => Yaml.write r.toDatum ++ "\n")

/-- What is done while the inventory is locked: load, run, save. -/
def runLocked (o : Options) (remote : Remote σ) (state : σ) (jobs : List Job) :
    FileProgram (Except FileError (List Report) × σ) := do
  match ← loadInventory o.inventory with
  | .error e => return (.error e, state)
  | .ok inventory =>
    let assignments := jobs.map fun j => Pass.Assignment.mk j o.resumeFrom .unset
    let (reports, w) := Pass.runAll remote o.agent assignments
      (World.start (Store.ofInventory inventory) (state, .unset))
    let saved ← saveInventory o.inventory w.store.toInventory
    return (saved.map fun () => reports, w.outside.1)

/-- The running mode; the state is that of the remote hosts. -/
def runJobs (o : Options) (remote : Remote σ) (state : σ) : FileProgram (Result × σ) := do
  match ← loadJobs o.jobFiles with
  | .error _ => return (⟨false, ""⟩, state)
  | .ok jobs =>
    match ← withLock o.inventory (runLocked o remote state jobs) with
    | .error _ => return (⟨false, ""⟩, state)
    | .ok (.error _, state) => return (⟨false, ""⟩, state)
    | .ok (.ok reports, state) => return (reportResult reports, state)

/-- What the command does. -/
def execute (o : Options) (remote : Remote σ) (state : σ) : FileProgram (Result × σ) :=
  match o.mode with
  | .validate => do return (← validate o.jobFiles, state)
  | .run => runJobs o remote state

/-- The exit code of a command that ran. -/
def Result.exitCode (r : Result) : UInt32 := if r.success then 0 else 1

end FleetJobs.CommandLine
