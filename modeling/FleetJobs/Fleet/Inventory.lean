import FleetJobs.Fleet.Configuration
import FleetJobs.Fleet.Host
import FleetJobs.Fleet.Target
import FleetJobs.Fleet.Volume

/-! Inventories: all records of a fleet as a document lists them, in any order and
possibly several under one number. -/
namespace FleetJobs.Fleet

open FleetJobs.Data

structure Inventory where
  hosts : List Host := []
  targets : List Target := []
  targetMounts : List TargetMount := []
  luns : List Lun := []
  lunNodes : List LunNode := []
  filesystems : List Filesystem := []
  mgs : List Mgs := []
  confParams : List ConfParam := []
  deriving DecidableEq

namespace Inventory

def toDatum (i : Inventory) : Datum := .record
  [("hosts", .list (i.hosts.map Host.toDatum)),
    ("targets", .list (i.targets.map Target.toDatum)),
    ("target_mounts", .list (i.targetMounts.map TargetMount.toDatum)),
    ("luns", .list (i.luns.map Lun.toDatum)),
    ("lun_nodes", .list (i.lunNodes.map LunNode.toDatum)),
    ("filesystems", .list (i.filesystems.map Filesystem.toDatum)),
    ("mgs", .list (i.mgs.map Mgs.toDatum)),
    ("conf_params", .list (i.confParams.map ConfParam.toDatum))]

def reader : Reader Inventory :=
  let table {α : Type} (name : String) (r : Reader α) : Fields (List α) :=
    .orElse name (Reader.list r) []
  Reader.record "struct Inventory" <|
    (Fields.pure Inventory.mk).and (table "hosts" Host.reader)
      |>.and (table "targets" Target.reader)
      |>.and (table "target_mounts" TargetMount.reader)
      |>.and (table "luns" Lun.reader)
      |>.and (table "lun_nodes" LunNode.reader)
      |>.and (table "filesystems" Filesystem.reader)
      |>.and (table "mgs" Mgs.reader)
      |>.and (table "conf_params" ConfParam.reader)

end Inventory

end FleetJobs.Fleet
