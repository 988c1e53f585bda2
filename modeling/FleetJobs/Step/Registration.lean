import FleetJobs.Command.Payload
import FleetJobs.Step.Program

/-! Registering a target with its management target, which gives it a label, and
making its mounts known to the manager that moves targets between hosts. -/
namespace FleetJobs.Step

open FleetJobs.Command
open FleetJobs.Fleet

def registerTarget (agent : String) (id : TargetMountId) : StepProgram Unit := do
  let mount ← call (.targetMount id)
  match mount.blockDevice with
  | none => failClean (.mountWithoutDevice id)
  | some device =>
    let node ← call (.lunNode device)
    let host ← call (.host mount.host)
    let request := AgentRequest.registerTarget node.device.path mount.mountPoint
    let output ← harmless "register-target" host (request.line agent)
    let result ← decode (Json.read RegisterResult.reader output.stdout)
    call (.setTargetName mount.target result.label)

/-- Wants the device and the label, which discovery and registration provide. -/
def configurePacemaker (agent : String) (id : TargetMountId) : StepProgram Unit := do
  let mount ← call (.targetMount id)
  let target ← call (.target mount.target)
  match mount.blockDevice, target.name with
  | none, _ => failClean (.mountWithoutDevice id)
  | some _, none => failClean (.unregistered target.id.text)
  | some device, some label =>
    let node ← call (.lunNode device)
    let host ← call (.host mount.host)
    let request := AgentRequest.configureHa node.device.path label mount.primary mount.mountPoint
    let _ ← harmless "configure-ha" host (request.line agent)

end FleetJobs.Step
