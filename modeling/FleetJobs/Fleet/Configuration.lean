import FleetJobs.Data.Variant
import FleetJobs.Fleet.Id

/-! File systems, and the parameters that are set on them through their management
target. -/
namespace FleetJobs.Fleet

open FleetJobs.Data

structure Filesystem where
  id : FilesystemId
  name : String
  /-- The management target. -/
  mgs : TargetId
  deriving DecidableEq, Repr

namespace Filesystem

def toDatum (f : Filesystem) : Datum := .record
  [("id", f.id.toDatum), ("name", .text f.name), ("mgs", f.mgs.toDatum)]

def reader : Reader Filesystem := Reader.record "struct Filesystem" <|
  (Fields.pure Filesystem.mk).and (.required "id" Id.reader)
    |>.and (.required "name" Reader.text)
    |>.and (.required "mgs" Id.reader)

end Filesystem

/-- How far the parameters of a management target have been applied. -/
structure Mgs where
  target : TargetId
  versionApplied : UInt64
  deriving DecidableEq, Repr

namespace Mgs

def toDatum (m : Mgs) : Datum := .record
  [("target", m.target.toDatum),
    ("conf_param_version_applied", .natural m.versionApplied.toNat)]

def reader : Reader Mgs := Reader.record "struct Mgs" <|
  (Fields.pure Mgs.mk).and (.required "target" Id.reader)
    |>.and (.orElse "conf_param_version_applied" Reader.uint64 0)

end Mgs

/-- What a parameter applies to: a whole file system, or one target. -/
inductive ConfParamScope where
  | filesystem (id : FilesystemId)
  | target (id : TargetId)
  deriving DecidableEq, Repr

namespace ConfParamScope

/-- The entries that a scope adds to the parameter's record. -/
def entries : ConfParamScope → List (String × Datum)
  | filesystem id => [("scope", .text "filesystem"), ("filesystem", id.toDatum)]
  | target id => [("scope", .text "target"), ("target", id.toDatum)]

def cases : List (Case ConfParamScope) :=
  [⟨"filesystem", "ConfParamScope::Filesystem",
      .fields ((Fields.pure filesystem).and (.required "filesystem" Id.reader))⟩,
    ⟨"target", "ConfParamScope::Target",
      .fields ((Fields.pure target).and (.required "target" Id.reader))⟩]

end ConfParamScope

structure ConfParam where
  id : ConfParamId
  mgs : TargetId
  scope : ConfParamScope
  key : String
  /-- Absent or empty, the parameter is to be deleted. -/
  value : Option String
  deriving DecidableEq, Repr

namespace ConfParam

def toDatum (p : ConfParam) : Datum := .record <|
  [("id", p.id.toDatum), ("mgs", p.mgs.toDatum)] ++ p.scope.entries ++
    [("key", .text p.key), ("value", .optional .text p.value)]

def reader : Reader ConfParam := Reader.openRecord "struct ConfParam" <|
  (Fields.pure ConfParam.mk).and (.required "id" Id.reader)
    |>.and (.required "mgs" Id.reader)
    |>.and (.union "scope" "ConfParamScope" ConfParamScope.cases)
    |>.and (.required "key" Reader.text)
    |>.and (.optional "value" Reader.text)

/-- The value to set; none if the parameter is to be deleted. -/
def setting? (p : ConfParam) : Option String := p.value.filter fun v => !v.isEmpty

end ConfParam

end FleetJobs.Fleet
