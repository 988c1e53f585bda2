import FleetJobs.Step.Basic
import FleetJobs.Step.Discovery
import FleetJobs.Step.FanOut
import FleetJobs.Step.Format
import FleetJobs.Step.Registration
import FleetJobs.Step.Transport
import FleetJobs.Step.Tuning

/-! The program of every kind of step, for an agent of a given name. -/
namespace FleetJobs.Step

def StepKind.program (agent : String) : StepKind → StepProgram Unit
  | null => .done ()
  | findDevice m => Step.findDevice agent m
  | mkfs t => formatTarget agent t
  | mount t => startTarget agent t
  | unmount t => stopTarget agent t
  | registerTarget m => Step.registerTarget agent m
  | configurePacemaker m => Step.configurePacemaker agent m
  | startLnet h => controlLnet h .start
  | stopLnet h => controlLnet h .stop
  | loadLnet h => controlLnet h .load
  | unloadLnet h => controlLnet h .unload
  | confParam p => applyConfParam p
  | confParamVersion m v => recordVersion m v

end FleetJobs.Step

namespace FleetJobs

def Step.program (agent : String) (s : Step) : Step.StepProgram Unit := s.kind.program agent

end FleetJobs
