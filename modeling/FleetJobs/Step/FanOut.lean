import FleetJobs.Command.Line
import FleetJobs.Step.Candidates
import FleetJobs.Step.Program

/-! Starting and stopping a target on whichever of its servers will do it.

Candidates are tried one after another until one succeeds. Starting and stopping are
safe to repeat, so it is a clean failure if none does. -/
namespace FleetJobs.Step

open FleetJobs.Command (AgentRequest)
open FleetJobs.Fleet

/-- Every mount with its host. -/
def pairUp : List TargetMount → StepProgram (List Candidate)
  | [] => .done []
  | m :: rest => do
    let host ← call (.host m.host)
    let others ← pairUp rest
    return ⟨m, host⟩ :: others

/-- Whether one of the hosts runs the line with success; the later ones are not tried. -/
def tryEach (line : String) : List Candidate → StepProgram Bool
  | [] => .done false
  | c :: rest => .send c.host line fun
    | .ok output => if output.success then .done true else tryEach line rest
    | .error _ => tryEach line rest

/-- Runs a line on some host of the target. -/
def runOnAnyMount (target : Target) (line : String) : StepProgram Unit := do
  let pairs ← pairUp (← call (.targetMounts target.id))
  if ← tryEach line (candidates pairs) then return
  failClean (.noCandidate target.display line)

/-- A request that names the target by its label, which it must have. -/
def requestByLabel (agent : String) (id : TargetId) (request : String → AgentRequest) :
    StepProgram Unit := do
  let target ← call (.target id)
  match target.name with
  | none => failClean (.unregistered target.display)
  | some label => runOnAnyMount target ((request label).line agent)

def startTarget (agent : String) (id : TargetId) : StepProgram Unit :=
  requestByLabel agent id .startTarget

def stopTarget (agent : String) (id : TargetId) : StepProgram Unit :=
  requestByLabel agent id .stopTarget

end FleetJobs.Step
