import FleetJobs.Command.Line
import FleetJobs.Step.Program

/-! Setting configuration parameters, and keeping count of how far they are set. -/
namespace FleetJobs.Step

open FleetJobs.Command (directive)
open FleetJobs.Fleet

/-- The key of a parameter, qualified by the name of what it applies to. -/
def fullKey (p : ConfParam) : StepProgram String :=
  match p.scope with
  | .filesystem id => do return s!"{(← call (.filesystem id)).name}.{p.key}"
  | .target id => do
    match (← call (.target id)).name with
    | some label => return s!"{label}.{p.key}"
    | none => inconsistent (.paramOfUnregistered p.id id)

/-- Sets or deletes a parameter on the server of its management target. -/
def applyConfParam (id : ConfParamId) : StepProgram Unit := do
  let p ← call (.confParam id)
  let line := directive (← fullKey p) p.setting?
  let server ← primaryServer p.mgs
  let _ ← risky s!"'{line}'" server line

/-- Records that parameters are set up to a version, unless more is recorded already. -/
def recordVersion (mgs : TargetId) (version : UInt64) : StepProgram Unit := do
  let record ← call (.mgs mgs)
  if version < record.versionApplied then return
  call (.setVersionApplied mgs version)

end FleetJobs.Step
