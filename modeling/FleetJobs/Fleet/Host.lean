import FleetJobs.Data.Variant
import FleetJobs.Fleet.Id

/-! Hosts: the servers that commands are sent to. -/
namespace FleetJobs.Fleet

open FleetJobs.Calendar (Instant)
open FleetJobs.Data

/-- State of the transport layer of a host, as monitoring last saw it. -/
inductive LnetState where
  | unloaded
  | down
  | up
  deriving DecidableEq, Repr

namespace LnetState

def name : LnetState → String
  | unloaded => "unloaded"
  | down => "down"
  | up => "up"

def all : List LnetState := [unloaded, down, up]

def reader : Reader LnetState :=
  Reader.choice "LnetState" (all.map fun s => (s.name, s))

end LnetState

structure Host where
  id : HostId
  address : String
  port : Option UInt16
  /-- The login to use; the command line may name one for hosts without. -/
  user : Option String
  lnetState : LnetState
  /-- When monitoring last reached the host. -/
  lastSuccess : Option Instant
  /-- Names of the host's transport network interfaces. -/
  nids : List String
  deriving DecidableEq

namespace Host

/-- How messages name a host. -/
def display (h : Host) : String :=
  match h.port with
  | some port => s!"[{h.address}:{port}]"
  | none => s!"[{h.address}]"

def toDatum (h : Host) : Datum := .record
  [("id", h.id.toDatum), ("address", .text h.address),
    ("port", .optional (fun p : UInt16 => .natural p.toNat) h.port),
    ("user", .optional .text h.user), ("lnet_state", .text h.lnetState.name),
    ("last_success", .optional (fun t => .text t.write) h.lastSuccess),
    ("nids", .strings h.nids)]

def reader : Reader Host := Reader.record "struct Host" <|
  (Fields.pure Host.mk).and (.required "id" Id.reader)
    |>.and (.required "address" Reader.text)
    |>.and (.optional "port" Reader.uint16)
    |>.and (.optional "user" Reader.text)
    |>.and (.orElse "lnet_state" LnetState.reader .unloaded)
    |>.and (.optional "last_success" Reader.instant)
    |>.and (.orElse "nids" (Reader.list Reader.text) [])

end Host

end FleetJobs.Fleet
