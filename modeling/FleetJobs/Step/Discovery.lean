import FleetJobs.Command.Payload
import FleetJobs.Step.Program

/-! Finding the device of a mount.

Once a target is formatted, its volume's uuid tells the volume apart on every host
that can see it. A mount that is not primary gets its device by asking its host where
that uuid lives; a primary one has got it when the host was set up. -/
namespace FleetJobs.Step

open FleetJobs.Command
open FleetJobs.Fleet

/-- The volume of a target, behind the device of its primary mount. -/
def volumeOf (target : TargetId) : StepProgram Lun := do
  let primary ← primaryAmong (← call (.targetMounts target)) target
  match primary.blockDevice with
  | none => inconsistent (.primaryWithoutDevice target.text)
  | some device =>
    match (← call (.lunNode device)).lun with
    | none => inconsistent (.unformatted target)
    | some lun => call (.lun lun)

/-- The record of a located device, with the volume behind it: the one there is for its
path, or a new one if monitoring has not told of it yet. -/
def recordDevice (host : Host) (location : DeviceLocation) (lun : Lun) : StepProgram LunNodeId := do
  match ← call (.findLunNode host.id location.path) with
  | some node =>
    call (.attachLun node.id lun.id)
    return node.id
  | none =>
    let node ← call (.createLunNode ⟨host.id, location.path, location.size, location.used⟩ lun.id)
    return node.id

def findDevice (agent : String) (id : TargetMountId) : StepProgram Unit := do
  let mount ← call (.targetMount id)
  match mount.primary, mount.blockDevice with
  | true, none => inconsistent (.primaryMountWithoutDevice id)
  | _, some _ => return
  | false, none =>
    let lun ← volumeOf mount.target
    match lun.fsUuid with
    | none => inconsistent (.unformatted mount.target)
    | some uuid =>
      let host ← call (.host mount.host)
      let output ← harmless "locate-device" host ((AgentRequest.locateDevice uuid).line agent)
      match ← decode (DeviceLocation.read output.stdout) with
      | none => inconsistent (.notLocated mount.target host.display uuid)
      | some location =>
        let node ← recordDevice host location lun
        call (.setBlockDevice id node)

end FleetJobs.Step
