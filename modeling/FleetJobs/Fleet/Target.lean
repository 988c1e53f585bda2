import FleetJobs.Data.Variant
import FleetJobs.Fleet.Id

/-! Targets and their mounts.

A target is a piece of a file system that one server at a time makes available. A
mount binds it to one of the hosts that can serve it. -/
namespace FleetJobs.Fleet

open FleetJobs.Data

/-- What a target serves: the configuration of file systems, or the metadata or the
objects of one file system. -/
inductive TargetKind where
  | mgs
  | mdt (filesystem : FilesystemId)
  | ost (filesystem : FilesystemId)
  deriving DecidableEq, Repr

namespace TargetKind

def tag : TargetKind → String
  | mgs => "mgs"
  | mdt _ => "mdt"
  | ost _ => "ost"

/-- The one file system that the target belongs to, if it belongs to one. -/
def filesystem? : TargetKind → Option FilesystemId
  | mgs => none
  | mdt f | ost f => some f

/-- The entries that a target kind adds to the record it is part of. -/
def entries (k : TargetKind) : List (String × Datum) :=
  ("kind", .text k.tag) :: presentEntry "filesystem" Id.toDatum k.filesystem?

def cases : List (Case TargetKind) :=
  let ofFilesystem (f : FilesystemId → TargetKind) : Content TargetKind :=
    .fields ((Fields.pure f).and (.required "filesystem" Id.reader))
  [⟨"mgs", "TargetKind::Mgs", .nothing .mgs⟩,
    ⟨"mdt", "TargetKind::Mdt", ofFilesystem .mdt⟩,
    ⟨"ost", "TargetKind::Ost", ofFilesystem .ost⟩]

def toDatum (k : TargetKind) : Datum := .record k.entries

def reader : Reader TargetKind := Reader.tagged "kind" "TargetKind" cases

end TargetKind

structure Target where
  id : TargetId
  kind : TargetKind
  /-- The label that registration gives. -/
  name : Option String
  deriving DecidableEq, Repr

namespace Target

/-- How messages name a target: by its label once it has one. -/
def display (t : Target) : String := t.name.getD s!"{t.kind.tag}#{t.id.text}"

def toDatum (t : Target) : Datum := .record <|
  ("id", t.id.toDatum) :: t.kind.entries ++ [("name", .optional .text t.name)]

def reader : Reader Target := Reader.openRecord "struct Target" <|
  (Fields.pure Target.mk).and (.required "id" Id.reader)
    |>.and (.union "kind" "TargetKind" TargetKind.cases)
    |>.and (.optional "name" Reader.text)

end Target

/-- Whether a mount is known to the manager that starts and stops targets. -/
inductive MountState where
  | unconfigured
  | configured
  deriving DecidableEq, Repr

namespace MountState

def name : MountState → String
  | unconfigured => "unconfigured"
  | configured => "configured"

def all : List MountState := [unconfigured, configured]

def reader : Reader MountState :=
  Reader.choice "TargetMountState" (all.map fun s => (s.name, s))

end MountState

structure TargetMount where
  id : TargetMountId
  target : TargetId
  host : HostId
  primary : Bool
  state : MountState
  mountPoint : String
  /-- The device on `host`, once it is known. -/
  blockDevice : Option LunNodeId
  deriving DecidableEq, Repr

namespace TargetMount

def toDatum (m : TargetMount) : Datum := .record
  [("id", m.id.toDatum), ("target", m.target.toDatum), ("host", m.host.toDatum),
    ("primary", .boolean m.primary), ("state", .text m.state.name),
    ("mount_point", .text m.mountPoint),
    ("block_device", .optional Id.toDatum m.blockDevice)]

def reader : Reader TargetMount := Reader.record "struct TargetMount" <|
  (Fields.pure TargetMount.mk).and (.required "id" Id.reader)
    |>.and (.required "target" Id.reader)
    |>.and (.required "host" Id.reader)
    |>.and (.required "primary" Reader.boolean)
    |>.and (.orElse "state" MountState.reader .unconfigured)
    |>.and (.required "mount_point" Reader.text)
    |>.and (.optional "block_device" Id.reader)

end TargetMount

end FleetJobs.Fleet
