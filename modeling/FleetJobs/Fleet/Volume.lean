import FleetJobs.Data.Variant
import FleetJobs.Fleet.Id

/-! Volumes and the devices through which hosts reach them. -/
namespace FleetJobs.Fleet

open FleetJobs.Data

/-- A logical volume. The uuid tells it apart on every host, once it is formatted. -/
structure Lun where
  id : LunId
  fsUuid : Option String
  deriving DecidableEq, Repr

namespace Lun

def toDatum (l : Lun) : Datum := .record
  [("id", l.id.toDatum), ("fs_uuid", .optional .text l.fsUuid)]

def reader : Reader Lun := Reader.record "struct Lun" <|
  (Fields.pure Lun.mk).and (.required "id" Id.reader)
    |>.and (.optional "fs_uuid" Reader.text)

end Lun

/-- What is known of a device besides its number. -/
structure Device where
  host : HostId
  path : String
  size : UInt64
  usedHint : Bool
  deriving DecidableEq, Repr

/-- A device path on one host, and the volume behind it if that is known. -/
structure LunNode where
  id : LunNodeId
  device : Device
  lun : Option LunId
  deriving DecidableEq, Repr

namespace LunNode

def toDatum (n : LunNode) : Datum := .record
  [("id", n.id.toDatum), ("host", n.device.host.toDatum), ("path", .text n.device.path),
    ("size", .natural n.device.size.toNat), ("used_hint", .boolean n.device.usedHint),
    ("lun", .optional Id.toDatum n.lun)]

def reader : Reader LunNode := Reader.record "struct LunNode" <|
  (Fields.pure fun id host path size usedHint lun => ⟨id, ⟨host, path, size, usedHint⟩, lun⟩)
    |>.and (.required "id" Id.reader)
    |>.and (.required "host" Id.reader)
    |>.and (.required "path" Reader.text)
    |>.and (.orElse "size" Reader.uint64 0)
    |>.and (.orElse "used_hint" Reader.boolean false)
    |>.and (.optional "lun" Id.reader)

end LunNode

end FleetJobs.Fleet
