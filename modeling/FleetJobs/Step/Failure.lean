import FleetJobs.Data.Reader
import FleetJobs.Data.Variant
import FleetJobs.Gateway.Reply
import FleetJobs.Json.Read
import FleetJobs.Store.Basic

/-! How a step ends.

A step that fails says how safe it is to try again. A *clean* failure has changed
nothing, here or on a host. A *dirty* one may have left a command half done and wants
an operator. A step has *failed* outright when the command did its work, or was never
sent, and the records or the answer make no sense. -/
namespace FleetJobs.Step

open FleetJobs.Data
open FleetJobs.Fleet
open FleetJobs.Gateway

/-- Why a step fails clean or dirty. Hosts, targets and commands go by the names that
messages give them. -/
inductive Reason where
  | transport (error : TransportError)
  | exited (action : String) (code : Int32) (host : String)
  | noCandidate (target line : String)
  | mountWithoutDevice (mount : TargetMountId)
  | unregistered (target : String)
  /-- A reason that is known by its words only. -/
  | told (text : String)
  deriving DecidableEq, Repr

def Reason.message : Reason → String
  | transport e => e.message
  | exited action code host => s!"{action} exited {code.toInt} on {host}"
  | noCandidate target line => s!"no target mounts of {target} could run '{line}'"
  | mountWithoutDevice mount => s!"target mount {mount.text} has no block device"
  | unregistered target => s!"target {target} has not been registered"
  | told text => text

/-- What makes no sense about the records or an answer. -/
inductive Inconsistency where
  | noPrimaryMount (target : TargetId)
  | primaryMountWithoutDevice (mount : TargetMountId)
  | primaryWithoutDevice (target : String)
  | unformatted (target : TargetId)
  | notLocated (target : TargetId) (host uuid : String)
  | paramOfUnregistered (param : ConfParamId) (target : TargetId)
  /-- An inconsistency that is known by its words only. -/
  | told (text : String)
  deriving DecidableEq, Repr

def Inconsistency.message : Inconsistency → String
  | noPrimaryMount target => s!"target {target.text} has no primary mount"
  | primaryMountWithoutDevice mount => s!"primary target mount {mount.text} has no block device"
  | primaryWithoutDevice target => s!"primary mount of target {target} has no block device"
  | unformatted target => s!"target {target.text} has not been formatted"
  | notLocated target host uuid =>
    s!"cannot locate target {target.text} device on {host} by uuid {uuid}"
  | paramOfUnregistered param target =>
    s!"conf param {param.text} applies to unregistered target {target.text}"
  | told text => text

/-- Why a step has failed outright. -/
inductive Cause where
  | response (error : ReadError)
  | store (refusal : Store.Refusal)
  | inconsistent (what : Inconsistency)
  deriving DecidableEq, Repr

def Cause.message : Cause → String
  | response e => "Malformed agent response: " ++ Json.message e
  | store r => "Persistence error: " ++ r.message
  | inconsistent i => "Inconsistent state: " ++ i.message

/-- How a step goes wrong. -/
inductive Failure where
  | clean (reason : Reason)
  | dirty (reason : Reason)
  | failed (cause : Cause)
  deriving DecidableEq, Repr

namespace Failure

def message : Failure → String
  | clean r => "Step failed cleanly: " ++ r.message
  | dirty r => "Step failed leaving the system in an unknown state: " ++ r.message
  | failed c => "Step raised an error: " ++ c.message

/-- A transport error leaves a step clean if its command never started or may run twice. -/
def ofTransport (idempotent : Bool) (e : TransportError) : Failure :=
  if !e.started || idempotent then clean (.transport e) else dirty (.transport e)

def inconsistent (i : Inconsistency) : Failure := failed (.inconsistent i)

end Failure

/-- What a report says of a step. -/
inductive Outcome where
  | notRun
  | succeeded
  /-- The job was paused before the step. -/
  | paused
  /-- The job was aborted before the step. -/
  | aborted
  | cleanFailed (reason : String)
  | dirtyFailed (reason : String)
  | failed (error : String)
  deriving DecidableEq, Repr

namespace Outcome

/-- Whether the job goes on to the next step. -/
def allowsNext (o : Outcome) : Bool := o == succeeded

def ofFailure : Failure → Outcome
  | .clean r => cleanFailed r.message
  | .dirty r => dirtyFailed r.message
  | .failed c => failed c.message

def name : Outcome → String
  | notRun => "not_run"
  | succeeded => "succeeded"
  | paused => "paused"
  | aborted => "aborted"
  | cleanFailed _ => "clean_failed"
  | dirtyFailed _ => "dirty_failed"
  | failed _ => "failed"

/-- The entries that an outcome adds to the record it is part of. -/
def entries (o : Outcome) : List (String × Datum) :=
  ("outcome", .text o.name) ::
    match o with
    | cleanFailed reason | dirtyFailed reason => [("reason", .text reason)]
    | failed error => [("error", .text error)]
    | _ => []

def cases : List (Case Outcome) :=
  let worded (field : String) (f : String → Outcome) : Content Outcome :=
    .fields ((Fields.pure f).and (.required field Reader.text))
  [⟨"not_run", "StepOutcome::NotRun", .nothing notRun⟩,
    ⟨"succeeded", "StepOutcome::Succeeded", .nothing succeeded⟩,
    ⟨"paused", "StepOutcome::Paused", .nothing paused⟩,
    ⟨"aborted", "StepOutcome::Aborted", .nothing aborted⟩,
    ⟨"clean_failed", "StepOutcome::CleanFailed", worded "reason" cleanFailed⟩,
    ⟨"dirty_failed", "StepOutcome::DirtyFailed", worded "reason" dirtyFailed⟩,
    ⟨"failed", "StepOutcome::Failed", worded "error" failed⟩]

def toDatum (o : Outcome) : Datum := .record o.entries

def reader : Reader Outcome := Reader.tagged "outcome" "StepOutcome" cases

end Outcome

end FleetJobs.Step
