import FleetJobs.Gateway.Remote
import FleetJobs.Pass.Basic

/-! Several jobs on one store, each with flags of its own.

The jobs take their turns one after the other. A pass that ends without a report ends
none of the others. -/
namespace FleetJobs.Pass

open FleetJobs.Gateway (Remote)
open FleetJobs.Job (Control)

/-- A job to be run, from where, and its flags. -/
structure Assignment where
  job : Job
  start : Nat := 0
  control : Control := .unset
  deriving DecidableEq, Repr

/-- Runs the jobs and gives their reports, in order. -/
def runAll (r : Remote σ) (agent : String) :
    List Assignment → World (σ × Control) → List Report × World (σ × Control)
  | [], w => ([], w)
  | a :: rest, w =>
    let (report, w) :=
      run r.outside agent a.job a.start { w with outside := (w.outside.1, a.control) }
    let (reports, w) := runAll r agent rest w
    (report.toList ++ reports, w)

end FleetJobs.Pass
