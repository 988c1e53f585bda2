import FleetJobs.Command.Payload
import FleetJobs.Step.Program

/-! Formatting the device of a target.

A format that stops halfway may leave the device in any state, so no failure of the
command itself is clean. Afterwards the volume behind the device has the uuid that
the agent tells. -/
namespace FleetJobs.Step

open FleetJobs.Command
open FleetJobs.Fleet

/-- The mounts with the primary ones first, otherwise in the same order. -/
def primaryFirst (mounts : List TargetMount) : List TargetMount :=
  mounts.filter TargetMount.primary ++ mounts.filter fun m => !m.primary

/-- The interfaces of the servers of a management target, the primary one first. -/
def managementNids (mgs : TargetId) : StepProgram (List (List String)) := do
  nidsOf (primaryFirst (← call (.targetMounts mgs)))

/-- What the agent has to know to format a target on a device. -/
def formatArgs (target : Target) (mounts : List TargetMount) (device : LunNode) :
    StepProgram FormatArgs := do
  let membership ← match target.kind.filesystem? with
    | none => pure none
    | some id => do
      let fs ← call (.filesystem id)
      pure (some (fs.name, ← managementNids fs.mgs))
  let failnode ← nidsOf (mounts.filter fun m => !m.primary)
  return {
    targetTypes := target.kind.tag
    fsname := membership.map (·.1)
    mgsnode := membership.map (·.2)
    reformat := true
    failnode := if failnode.isEmpty then none else some failnode
    device := device.device.path }

/-- Records the uuid of a formatted device: of its volume, or of a new one. -/
def recordUuid (node : LunNode) (uuid : String) : StepProgram Unit :=
  match node.lun with
  | some lun => call (.setLunUuid lun uuid)
  | none => do
    let lun ← call (.createLun uuid)
    call (.attachLun node.id lun.id)

def formatTarget (agent : String) (id : TargetId) : StepProgram Unit := do
  let target ← call (.target id)
  let mounts ← call (.targetMounts id)
  let primary ← primaryAmong mounts id
  let node ← match primary.blockDevice with
    | some node => call (.lunNode node)
    | none => inconsistent (.primaryWithoutDevice target.display)
  let host ← call (.host primary.host)
  let args ← formatArgs target mounts node
  let output ← risky "format-target" host (args.request.line agent)
  let result ← decode (Json.read FormatResult.reader output.stdout)
  recordUuid node result.uuid

end FleetJobs.Step
