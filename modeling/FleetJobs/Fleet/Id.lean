import FleetJobs.Data.Reader

/-! Identifiers of fleet records.

Records live in tables, one table a kind, and are named by a number in their table.
An `Id` carries the kind that it names, so that a host's number cannot stand where a
volume's is wanted. The management record of a target goes by the target's number. -/
namespace FleetJobs.Fleet

open FleetJobs.Data

/-- The kinds of records. -/
inductive Kind where
  | host
  | target
  | targetMount
  | lun
  | lunNode
  | filesystem
  | mgs
  | confParam
  deriving DecidableEq, Repr

/-- What messages call a record of the kind. -/
def Kind.label : Kind → String
  | host => "Host"
  | target => "Target"
  | targetMount => "TargetMount"
  | lun => "Lun"
  | lunNode => "LunNode"
  | filesystem => "Filesystem"
  | mgs => "Mgs"
  | confParam => "ConfParam"

structure Id (kind : Kind) where
  number : UInt32
  deriving DecidableEq, Repr

abbrev HostId := Id .host
abbrev TargetId := Id .target
abbrev TargetMountId := Id .targetMount
abbrev LunId := Id .lun
abbrev LunNodeId := Id .lunNode
abbrev FilesystemId := Id .filesystem
abbrev ConfParamId := Id .confParam

namespace Id

/-- The place of the record in its table's order. -/
def key (id : Id kind) : Nat := id.number.toNat

theorem key_injective {a b : Id kind} (h : a.key = b.key) : a = b := by
  obtain ⟨a⟩ := a
  obtain ⟨b⟩ := b
  exact congrArg Id.mk (UInt32.toNat_inj.mp h)

def text (id : Id kind) : String := toString id.number.toNat

def toDatum (id : Id kind) : Datum := .natural id.key

def reader : Reader (Id kind) := fun s n => Id.mk <$> Reader.uint32 s n

end Id

end FleetJobs.Fleet
