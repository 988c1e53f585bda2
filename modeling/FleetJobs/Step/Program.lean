import FleetJobs.Program.Basic
import FleetJobs.Step.Failure

/-! The moves that step programs are made of, and the lookups that several share. -/
namespace FleetJobs.Step

open FleetJobs.Data
open FleetJobs.Fleet
open FleetJobs.Gateway

abbrev StepProgram := Program Failure

/-- A call whose refusal fails the step. -/
def call (c : Store.Call) : StepProgram c.Answer :=
  .ask c fun
    | .ok a => .done a
    | .error r => .fail (.failed (.store r))

def inconsistent (i : Inconsistency) : StepProgram α := .fail (.inconsistent i)

def failClean (r : Reason) : StepProgram α := .fail (.clean r)

/-- A command of a step that may or may not be run twice; a transport error fails it. -/
def command (idempotent : Bool) (host : Host) (line : String) : StepProgram CommandOutput :=
  .send host line fun
    | .ok output => .done output
    | .error e => .fail (.ofTransport idempotent e)

/-- A command of a step that may be run twice; `action` is what messages call it. It must
exit zero. -/
def harmless (action : String) (host : Host) (line : String) : StepProgram CommandOutput := do
  let output ← command true host line
  if output.success then return output
  failClean (.exited action output.exitCode host.display)

/-- A command of a step that may not be run twice. A nonzero exit may have come halfway
through. -/
def risky (action : String) (host : Host) (line : String) : StepProgram CommandOutput := do
  let output ← command false host line
  if output.success then return output
  .fail (.dirty (.exited action output.exitCode host.display))

/-- An agent's answer, decoded. -/
def decode (r : Except ReadError α) : StepProgram α :=
  match r with
  | .ok a => .done a
  | .error e => .fail (.failed (.response e))

/-- The first primary mount among a target's mounts. -/
def primaryAmong (mounts : List TargetMount) (target : TargetId) : StepProgram TargetMount :=
  match mounts.find? TargetMount.primary with
  | some m => .done m
  | none => inconsistent (.noPrimaryMount target)

/-- The server that is meant to serve the target: the host of its primary mount. -/
def primaryServer (target : TargetId) : StepProgram Host := do
  let primary ← primaryAmong (← call (.targetMounts target)) target
  call (.host primary.host)

/-- The interfaces of the hosts of some mounts, without the hosts that have none. -/
def nidsOf : List TargetMount → StepProgram (List (List String))
  | [] => .done []
  | m :: rest => do
    let host ← call (.host m.host)
    let others ← nidsOf rest
    return if host.nids.isEmpty then others else host.nids :: others

end FleetJobs.Step
