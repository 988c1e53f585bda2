import FleetJobs.Fleet.Host
import FleetJobs.Fleet.Target

/-! Which hosts may run a command for a target, and in which order to try them.

A host can start or stop a target if a configured mount of the target is on it and
its transport layer is up. The host that monitoring reached last comes first; hosts
that it never reached come last, and of equals the order stays. -/
namespace FleetJobs.Step

open FleetJobs.Fleet

/-- A mount and the host it is on. -/
structure Candidate where
  mount : TargetMount
  host : Host
  deriving DecidableEq

namespace Candidate

def isUsable (c : Candidate) : Bool :=
  c.mount.state == .configured && c.host.lnetState == .up

/-- Whether `a` may stand before `b`: it was not reached earlier. -/
def notOlder (a b : Candidate) : Bool :=
  match a.host.lastSuccess, b.host.lastSuccess with
  | _, none => true
  | none, some _ => false
  | some t, some u => decide (u.rank ≤ t.rank)

end Candidate

/-- The usable pairs, the freshest first. -/
def candidates (pairs : List Candidate) : List Candidate :=
  (pairs.filter Candidate.isUsable).mergeSort Candidate.notOlder

end FleetJobs.Step
