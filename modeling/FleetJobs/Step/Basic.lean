import FleetJobs.Data.Variant
import FleetJobs.Fleet.Id
import FleetJobs.Json.Write

/-! Steps: the units of work that jobs are made of, as values.

What a step does is told by its program (`Step/Execute`); here are its kinds, their
names, and how they are written and read. A kind is written under the tag that it is
read by, and that is its name (`StepKind.tag_eq_name`). Only formatting a device and
setting a parameter are not harmless to do twice (`StepKind.isIdempotent`). -/
namespace FleetJobs.Step

open FleetJobs.Data
open FleetJobs.Fleet

inductive StepKind where
  /-- Does nothing: for jobs that only commit a transition. -/
  | null
  | findDevice (mount : TargetMountId)
  | mkfs (target : TargetId)
  | mount (target : TargetId)
  | unmount (target : TargetId)
  | registerTarget (mount : TargetMountId)
  | configurePacemaker (mount : TargetMountId)
  | startLnet (host : HostId)
  | stopLnet (host : HostId)
  | loadLnet (host : HostId)
  | unloadLnet (host : HostId)
  | confParam (param : ConfParamId)
  | confParamVersion (mgs : TargetId) (version : UInt64)
  deriving DecidableEq, Repr

namespace StepKind

def name : StepKind → String
  | null => "null_step"
  | findDevice _ => "find_device"
  | mkfs _ => "mkfs"
  | mount _ => "mount"
  | unmount _ => "unmount"
  | registerTarget _ => "register_target"
  | configurePacemaker _ => "configure_pacemaker"
  | startLnet _ => "start_lnet"
  | stopLnet _ => "stop_lnet"
  | loadLnet _ => "load_lnet"
  | unloadLnet _ => "unload_lnet"
  | confParam _ => "conf_param"
  | confParamVersion .. => "conf_param_version"

/-- Whether running the step again from the same state is harmless. -/
def isIdempotent : StepKind → Bool
  | mkfs _ | confParam _ => false
  | _ => true

/-- The arguments by name; none of a step that has none. -/
def args : StepKind → Option (List (String × Datum))
  | null => none
  | findDevice m | registerTarget m | configurePacemaker m => some [("target_mount", m.toDatum)]
  | mkfs t | mount t | unmount t => some [("target", t.toDatum)]
  | startLnet h | stopLnet h | loadLnet h | unloadLnet h => some [("host", h.toDatum)]
  | confParam p => some [("conf_param", p.toDatum)]
  | confParamVersion m v => some [("mgs", m.toDatum), ("version", .natural v.toNat)]

/-- How kinds are read: each case has the tag of a kind, and the fields that it is made from. -/
def cases : List (Case StepKind) :=
  let ofId {kind : Kind} (field : String) (f : Id kind → StepKind) : Content StepKind :=
    .fields ((Fields.pure f).and (.required field Id.reader))
  [⟨"null_step", "StepKind::Null", .nothing null⟩,
    ⟨"find_device", "StepKind::FindDevice", ofId "target_mount" findDevice⟩,
    ⟨"mkfs", "StepKind::Mkfs", ofId "target" mkfs⟩,
    ⟨"mount", "StepKind::Mount", ofId "target" mount⟩,
    ⟨"unmount", "StepKind::Unmount", ofId "target" unmount⟩,
    ⟨"register_target", "StepKind::RegisterTarget", ofId "target_mount" registerTarget⟩,
    ⟨"configure_pacemaker", "StepKind::ConfigurePacemaker", ofId "target_mount" configurePacemaker⟩,
    ⟨"start_lnet", "StepKind::StartLnet", ofId "host" startLnet⟩,
    ⟨"stop_lnet", "StepKind::StopLnet", ofId "host" stopLnet⟩,
    ⟨"load_lnet", "StepKind::LoadLnet", ofId "host" loadLnet⟩,
    ⟨"unload_lnet", "StepKind::UnloadLnet", ofId "host" unloadLnet⟩,
    ⟨"conf_param", "StepKind::ConfParam", ofId "conf_param" confParam⟩,
    ⟨"conf_param_version", "StepKind::ConfParamVersion",
      .fields ((Fields.pure confParamVersion).and (.required "mgs" Id.reader)
        |>.and (.required "version" Reader.uint64))⟩]

/-- The place of a kind among the cases, which stand in the order of the constructors. -/
def index (k : StepKind) : Fin cases.length :=
  ⟨k.ctorIdx, by cases k <;> exact Nat.le_of_ble_eq_true rfl⟩

/-- The tag that a kind is written under, which is that of its case. -/
def tag (k : StepKind) : String := (cases.get k.index).name

/-- **The tags and the names of kinds, which are listed apart, agree.** -/
theorem tag_eq_name (k : StepKind) : k.tag = k.name := by
  cases k <;> rfl

/-- The entries that a step kind adds to the record it is part of. -/
def entries (k : StepKind) : List (String × Datum) :=
  ("step", .text k.tag) :: presentEntry "args" .record k.args

end StepKind

end FleetJobs.Step

namespace FleetJobs

open FleetJobs.Data
open FleetJobs.Step (StepKind)

/-- A step of a job. Once a final step succeeds, the job's transition is committed. -/
structure Step where
  kind : StepKind
  isFinal : Bool := false
  deriving DecidableEq, Repr

namespace Step

def name (s : Step) : String := s.kind.name

def isIdempotent (s : Step) : Bool := s.kind.isIdempotent

def markFinal (s : Step) : Step := { s with isFinal := true }

/-- How messages name a step: with its arguments. -/
def display (s : Step) : String :=
  match s.kind.args with
  | some args => s.name ++ "(" ++ Json.write (.record args) ++ ")"
  | none => s.name

def toDatum (s : Step) : Datum := .record <| s.kind.entries ++ [("final", .boolean s.isFinal)]

def reader : Reader Step := Reader.openRecord "struct Step" <|
  (Fields.pure Step.mk).and (.tagAndContent "step" "args" StepKind.cases)
    |>.and (.orElse "final" Reader.boolean false)

end Step

end FleetJobs
