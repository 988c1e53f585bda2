import FleetJobs.Command.Line
import FleetJobs.Step.Program

/-! Bringing the transport layer of a host up or down. What monitoring thinks of its
state is not touched. -/
namespace FleetJobs.Step

open FleetJobs.Command (LnetAction)
open FleetJobs.Fleet

def controlLnet (id : HostId) (action : LnetAction) : StepProgram Unit := do
  let host ← call (.host id)
  let _ ← harmless s!"'{action.line}'" host action.line

end FleetJobs.Step
