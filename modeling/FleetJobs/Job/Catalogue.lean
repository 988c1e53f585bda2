import FleetJobs.Job.Basic

/-! The jobs that move each kind of entity through its life. -/
namespace FleetJobs.Job

open FleetJobs.Fleet
open FleetJobs.Step (StepKind)

def formatTarget (id : UInt64) (target : TargetId) : Job :=
  .of id "Format target" (some ⟨.target, target.number, "unformatted", "formatted"⟩) [.mkfs target]

/-- A target is registered through its primary mount. -/
def registerTarget (id : UInt64) (target : TargetId) (primary : TargetMountId) : Job :=
  .of id "Register target" (some ⟨.target, target.number, "formatted", "registered"⟩)
    [.registerTarget primary]

def configureTargetMount (id : UInt64) (mount : TargetMountId) : Job :=
  .of id "Configure target mount"
    (some ⟨.targetMount, mount.number, "unconfigured", "configured"⟩)
    [.findDevice mount, .configurePacemaker mount]

def startTarget (id : UInt64) (target : TargetId) : Job :=
  .of id "Start target" (some ⟨.target, target.number, "unmounted", "mounted"⟩) [.mount target]

def stopTarget (id : UInt64) (target : TargetId) : Job :=
  .of id "Stop target" (some ⟨.target, target.number, "mounted", "unmounted"⟩) [.unmount target]

def loadLnet (id : UInt64) (host : HostId) : Job :=
  .of id "Load LNet" (some ⟨.host, host.number, "lnet_unloaded", "lnet_down"⟩) [.loadLnet host]

def startLnet (id : UInt64) (host : HostId) : Job :=
  .of id "Start LNet" (some ⟨.host, host.number, "lnet_down", "lnet_up"⟩) [.startLnet host]

def stopLnet (id : UInt64) (host : HostId) : Job :=
  .of id "Stop LNet" (some ⟨.host, host.number, "lnet_up", "lnet_down"⟩) [.stopLnet host]

def unloadLnet (id : UInt64) (host : HostId) : Job :=
  .of id "Unload LNet" (some ⟨.host, host.number, "lnet_down", "lnet_unloaded"⟩) [.unloadLnet host]

/-- Applies the parameters in order and then records the version. -/
def applyConfParams (id : UInt64) (mgs : TargetId) (params : List ConfParamId) (version : UInt64) :
    Job :=
  .of id "Apply configuration parameters" none
    (params.map StepKind.confParam ++ [.confParamVersion mgs version])

end FleetJobs.Job
