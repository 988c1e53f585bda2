import FleetJobs.Step.Basic

/-! Jobs: steps in order that move one entity from one state to another.

The transition is committed by the final step, so a job is valid if it has steps and
none but the last is final. `Job.of` makes the last step final; `Job.settled` does so
for a job that was read, unless it has a final step of its own. -/
namespace FleetJobs

open FleetJobs.Data

namespace Job

/-- The kinds of entities that jobs move. -/
inductive EntityKind where
  | host
  | target
  | targetMount
  deriving DecidableEq, Repr

namespace EntityKind

def name : EntityKind → String
  | host => "host"
  | target => "target"
  | targetMount => "target_mount"

/-- What messages call the kind. -/
def label : EntityKind → String
  | host => "Host"
  | target => "Target"
  | targetMount => "TargetMount"

def all : List EntityKind := [host, target, targetMount]

def reader : Reader EntityKind := Reader.choice "EntityKind" (all.map fun k => (k.name, k))

end EntityKind

/-- Which entity a job moves, and between which states. -/
structure Transition where
  entity : EntityKind
  entityId : UInt32
  oldState : String
  newState : String
  deriving DecidableEq, Repr

namespace Transition

def display (t : Transition) : String :=
  s!"{t.entity.label} {t.entityId.toNat}: {t.oldState} -> {t.newState}"

def toDatum (t : Transition) : Datum := .record
  [("entity", .text t.entity.name), ("entity_id", .natural t.entityId.toNat),
    ("old_state", .text t.oldState), ("new_state", .text t.newState)]

def reader : Reader Transition := Reader.record "struct StateTransition" <|
  (Fields.pure Transition.mk).and (.required "entity" EntityKind.reader)
    |>.and (.required "entity_id" Reader.uint32)
    |>.and (.required "old_state" Reader.text)
    |>.and (.required "new_state" Reader.text)

end Transition

end Job

structure Job where
  id : UInt64
  description : String
  transition : Option Job.Transition
  steps : List Step
  deriving DecidableEq, Repr

namespace Job

/-- The steps with the last one made final. -/
def markLast : List Step → List Step
  | [] => []
  | [s] => [s.markFinal]
  | s :: rest => s :: markLast rest

theorem markLast_append_singleton (steps : List Step) (s : Step) :
    markLast (steps ++ [s]) = steps ++ [s.markFinal] := by
  induction steps with
  | nil => rfl
  | cons s' steps ih =>
    cases steps with
    | nil => rfl
    | cons s'' steps => exact congrArg (s' :: ·) ih

/-- A job whose last step is final. -/
def of (id : UInt64) (description : String) (transition : Option Transition)
    (kinds : List Step.StepKind) : Job :=
  ⟨id, description, transition, markLast (kinds.map fun k => ⟨k, false⟩)⟩

/-- The job with its last step made final, if it has no final step. -/
def settled (j : Job) : Job :=
  if j.steps.any Step.isFinal then j else { j with steps := markLast j.steps }

/-- Why a job is not valid. -/
inductive Invalid where
  | noSteps (job : UInt64)
  | misplacedFinal (index : Nat) (step : Step)
  deriving DecidableEq, Repr

def Invalid.message : Invalid → String
  | noSteps job => s!"job {job.toNat} has no steps"
  | misplacedFinal index step =>
    s!"step {index} ({step.display}) is marked final but is not the last step"

/-- The first step marked final with others after it; steps are counted from `i`. -/
def misplaced? : Nat → List Step → Option Invalid
  | _, [] | _, [_] => none
  | i, s :: rest => if s.isFinal then some (.misplacedFinal i s) else misplaced? (i + 1) rest

def invalid? (j : Job) : Option Invalid :=
  if j.steps.isEmpty then some (.noSteps j.id) else misplaced? 0 j.steps

def toDatum (j : Job) : Datum := .record
  [("id", .natural j.id.toNat), ("description", .text j.description),
    ("transition", .optional Transition.toDatum j.transition),
    ("steps", .list (j.steps.map Step.toDatum))]

def reader : Reader Job := Reader.record "struct Job" <|
  (Fields.pure Job.mk).and (.required "id" Reader.uint64)
    |>.and (.orElse "description" Reader.text "")
    |>.and (.optional "transition" Transition.reader)
    |>.and (.required "steps" (Reader.list Step.reader))

end Job

end FleetJobs
