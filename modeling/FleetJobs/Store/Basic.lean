import FleetJobs.Fleet.Inventory
import FleetJobs.Store.Table

/-! The store: the fleet's records, and the calls by which steps read and write them.

A call is a value (`Call`) whose type tells its answer, and `Store.handle` is what the
store does with one. A call that is refused, or that finds no number left for a new
record, gives no new store: what is not carried out changes nothing. -/
namespace FleetJobs

open FleetJobs.Fleet

namespace Store

instance : Keyed Host := ⟨fun r => r.id.key⟩
instance : Keyed Target := ⟨fun r => r.id.key⟩
instance : Keyed TargetMount := ⟨fun r => r.id.key⟩
instance : Keyed Lun := ⟨fun r => r.id.key⟩
instance : Keyed LunNode := ⟨fun r => r.id.key⟩
instance : Keyed Filesystem := ⟨fun r => r.id.key⟩
instance : Keyed Mgs := ⟨fun r => r.target.key⟩
instance : Keyed ConfParam := ⟨fun r => r.id.key⟩

end Store

structure Store where
  hosts : Store.Table Host
  targets : Store.Table Target
  targetMounts : Store.Table TargetMount
  luns : Store.Table Lun
  lunNodes : Store.Table LunNode
  filesystems : Store.Table Filesystem
  mgs : Store.Table Mgs
  confParams : Store.Table ConfParam
  deriving DecidableEq

namespace Store

/-- The records of an inventory; of those under one number the last. -/
def ofInventory (i : Inventory) : Store where
  hosts := .ofList i.hosts
  targets := .ofList i.targets
  targetMounts := .ofList i.targetMounts
  luns := .ofList i.luns
  lunNodes := .ofList i.lunNodes
  filesystems := .ofList i.filesystems
  mgs := .ofList i.mgs
  confParams := .ofList i.confParams

/-- All records, each table in order of its numbers. -/
def toInventory (s : Store) : Inventory where
  hosts := s.hosts.records
  targets := s.targets.records
  targetMounts := s.targetMounts.records
  luns := s.luns.records
  lunNodes := s.lunNodes.records
  filesystems := s.filesystems.records
  mgs := s.mgs.records
  confParams := s.confParams.records

/-- What a new or changed record would clash with. -/
inductive Conflict where
  | deviceTaken (host : HostId) (path : String)
  | uuidTaken (uuid : String)
  /-- A clash that is known by its words only. -/
  | told (text : String)
  deriving DecidableEq, Repr

def Conflict.message : Conflict → String
  | deviceTaken host path => s!"LunNode for host {host.text} path {path} already exists"
  | uuidTaken uuid => s!"a Lun with fs_uuid {uuid} already exists"
  | told text => text

/-- Why a call is refused. -/
inductive Refusal where
  | notFound (kind : Kind) (name : String)
  | conflict (cause : Conflict)
  deriving DecidableEq, Repr

def Refusal.message : Refusal → String
  | notFound kind name => s!"{kind.label} {name} does not exist"
  | conflict cause => s!"Conflicting record: {cause.message}"

/-- Reads come first, writes last. -/
inductive Call where
  | host (id : HostId)
  | target (id : TargetId)
  | targetMount (id : TargetMountId)
  | targetMounts (target : TargetId)
  | lunNode (id : LunNodeId)
  | findLunNode (host : HostId) (path : String)
  | lun (id : LunId)
  | filesystem (id : FilesystemId)
  | mgs (target : TargetId)
  | confParam (id : ConfParamId)
  | setTargetName (id : TargetId) (name : String)
  | setBlockDevice (id : TargetMountId) (node : LunNodeId)
  | createLunNode (device : Device) (lun : LunId)
  | attachLun (node : LunNodeId) (lun : LunId)
  | createLun (uuid : String)
  | setLunUuid (id : LunId) (uuid : String)
  | setVersionApplied (target : TargetId) (version : UInt64)
  deriving DecidableEq, Repr

/-- The answer that a call gets if it is carried out. -/
abbrev Call.Answer : Call → Type
  | host _ => Host
  | target _ => Target
  | targetMount _ => TargetMount
  | targetMounts _ => List TargetMount
  | lunNode _ => LunNode
  | findLunNode .. => Option LunNode
  | lun _ => Lun
  | filesystem _ => Filesystem
  | mgs _ => Mgs
  | confParam _ => ConfParam
  | createLunNode .. => LunNode
  | createLun _ => Lun
  | setTargetName .. | setBlockDevice .. | attachLun .. | setLunUuid .. | setVersionApplied .. =>
    Unit

/-- Why a call is not carried out. A new record needs a number above all others, and
the highest number there can be may be taken. -/
inductive Stop where
  | refused (cause : Refusal)
  | exhausted
  deriving DecidableEq, Repr

/-- What exhaustion is called where it is reported. -/
def exhaustedMessage : String := "attempt to add with overflow"

/-- The record of a number, which must be there. -/
def fetch {α : Type} [Keyed α] {kind : Kind} (table : Table α) (label : Kind) (id : Id kind) :
    Except Stop α :=
  match table.find? id.key with
  | some r => .ok r
  | none => .error (.refused (.notFound label id.text))

/-- A number for a new record. -/
def freshId {α : Type} [Keyed α] {kind : Kind} (table : Table α) : Except Stop (Id kind) :=
  if table.nextKey < UInt32.size then .ok ⟨UInt32.ofNat table.nextKey⟩ else .error .exhausted

/-- Whether a volume other than the excepted one has the uuid. -/
def uuidTaken (s : Store) (uuid : String) (except : Option LunId) : Bool :=
  s.luns.any fun l => some l.id != except && l.fsUuid == some uuid

def isDevice (host : HostId) (path : String) (n : LunNode) : Bool :=
  n.device.host == host && n.device.path == path

/-- An answer that leaves the store as it is. -/
def reading (s : Store) (r : Except Stop α) : Except Stop (α × Store) := r.map fun a => (a, s)

def setTargetName (s : Store) (id : TargetId) (name : String) : Except Stop (Unit × Store) := do
  let t ← fetch s.targets .target id
  return ((), { s with targets := s.targets.insert { t with name := some name } })

/-- The device must be there, and the mount. -/
def setBlockDevice (s : Store) (id : TargetMountId) (node : LunNodeId) : Except Stop (Unit × Store) := do
  let _ ← fetch s.lunNodes .lunNode node
  let m ← fetch s.targetMounts .targetMount id
  return ((), { s with targetMounts := s.targetMounts.insert { m with blockDevice := some node } })

/-- A new device with a volume behind it; a host has one device a path. -/
def createLunNode (s : Store) (device : Device) (lun : LunId) : Except Stop (LunNode × Store) := do
  if s.lunNodes.any (isDevice device.host device.path) then
    throw (.refused (.conflict (.deviceTaken device.host device.path)))
  let n : LunNode := ⟨← freshId s.lunNodes, device, some lun⟩
  return (n, { s with lunNodes := s.lunNodes.insert n })

/-- The volume must be there, and the device. -/
def attachLun (s : Store) (node : LunNodeId) (lun : LunId) : Except Stop (Unit × Store) := do
  let _ ← fetch s.luns .lun lun
  let n ← fetch s.lunNodes .lunNode node
  return ((), { s with lunNodes := s.lunNodes.insert { n with lun := some lun } })

/-- A new volume; no two volumes have one uuid. -/
def createLun (s : Store) (uuid : String) : Except Stop (Lun × Store) := do
  if s.uuidTaken uuid none then throw (.refused (.conflict (.uuidTaken uuid)))
  let l : Lun := ⟨← freshId s.luns, some uuid⟩
  return (l, { s with luns := s.luns.insert l })

/-- A volume may be given the uuid that it has. -/
def setLunUuid (s : Store) (id : LunId) (uuid : String) : Except Stop (Unit × Store) := do
  if s.uuidTaken uuid (some id) then throw (.refused (.conflict (.uuidTaken uuid)))
  let l ← fetch s.luns .lun id
  return ((), { s with luns := s.luns.insert { l with fsUuid := some uuid } })

def setVersionApplied (s : Store) (target : TargetId) (version : UInt64) : Except Stop (Unit × Store) := do
  let m ← fetch s.mgs .mgs target
  return ((), { s with mgs := s.mgs.insert { m with versionApplied := version } })

/-- What the store does with a call: its answer and the store after it. -/
def handle (s : Store) : (c : Call) → Except Stop (c.Answer × Store)
  | .host id => s.reading (fetch s.hosts .host id)
  | .target id => s.reading (fetch s.targets .target id)
  | .targetMount id => s.reading (fetch s.targetMounts .targetMount id)
  | .targetMounts target => s.reading (.ok (s.targetMounts.filter fun m => m.target == target))
  | .lunNode id => s.reading (fetch s.lunNodes .lunNode id)
  | .findLunNode host path => s.reading (.ok (s.lunNodes.records.find? (isDevice host path)))
  | .lun id => s.reading (fetch s.luns .lun id)
  | .filesystem id => s.reading (fetch s.filesystems .filesystem id)
  | .mgs target => s.reading (fetch s.mgs .mgs target)
  | .confParam id => s.reading (fetch s.confParams .confParam id)
  | .setTargetName id name => s.setTargetName id name
  | .setBlockDevice id node => s.setBlockDevice id node
  | .createLunNode device lun => s.createLunNode device lun
  | .attachLun node lun => s.attachLun node lun
  | .createLun uuid => s.createLun uuid
  | .setLunUuid id uuid => s.setLunUuid id uuid
  | .setVersionApplied target version => s.setVersionApplied target version

end Store

end FleetJobs
