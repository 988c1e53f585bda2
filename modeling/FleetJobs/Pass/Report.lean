import FleetJobs.Gateway.Reply
import FleetJobs.Job.Basic
import FleetJobs.Step.Failure

/-! Reports: what came of one pass over a job. -/
namespace FleetJobs.Pass

open FleetJobs.Data
open FleetJobs.Gateway (CommandRecord)
open FleetJobs.Step (Outcome)

/-- How a pass ended. -/
inductive State where
  | complete
  /-- Paused before `nextStep`, from which a later pass may start. -/
  | paused (nextStep : Nat)
  | aborted
  | errored (failedStep : Nat)
  /-- There was nothing to run. -/
  | rejected (reason : String)
  deriving DecidableEq, Repr

namespace State

def name : State → String
  | complete => "complete"
  | paused _ => "paused"
  | aborted => "aborted"
  | errored _ => "errored"
  | rejected _ => "rejected"

/-- The entries that a state adds to the record it is part of. -/
def entries (s : State) : List (String × Datum) :=
  ("state", .text s.name) ::
    match s with
    | paused n => [("next_step", .natural n)]
    | errored n => [("failed_step", .natural n)]
    | rejected reason => [("reason", .text reason)]
    | _ => []

def cases : List (Case State) :=
  [⟨"complete", "JobState::Complete", .nothing complete⟩,
    ⟨"paused", "JobState::Paused", .fields ((Fields.pure paused).and (.required "next_step" Reader.index))⟩,
    ⟨"aborted", "JobState::Aborted", .nothing aborted⟩,
    ⟨"errored", "JobState::Errored",
      .fields ((Fields.pure errored).and (.required "failed_step" Reader.index))⟩,
    ⟨"rejected", "JobState::Rejected",
      .fields ((Fields.pure rejected).and (.required "reason" Reader.text))⟩]

end State

/-- What came of one step. -/
structure StepRecord where
  index : Nat
  name : String
  outcome : Outcome
  deriving DecidableEq, Repr

namespace StepRecord

def toDatum (r : StepRecord) : Datum := .record <|
  [("index", .natural r.index), ("name", .text r.name)] ++ r.outcome.entries

def reader : Reader StepRecord := Reader.openRecord "struct StepRecord" <|
  (Fields.pure StepRecord.mk).and (.required "index" Reader.index)
    |>.and (.required "name" Reader.text)
    |>.and (.union "outcome" "StepOutcome" Outcome.cases)

end StepRecord

end FleetJobs.Pass

namespace FleetJobs

open FleetJobs.Data
open FleetJobs.Gateway (CommandRecord)
open FleetJobs.Step (Outcome)

structure Report where
  jobId : UInt64
  state : Pass.State
  /-- The steps from where the pass started, in order. -/
  steps : List Pass.StepRecord
  /-- Set only if a final step succeeded. -/
  committed : Option Job.Transition
  lastCommand : Option CommandRecord
  deriving DecidableEq, Repr

namespace Report

/-- The outcome of a step, if the pass got to know it. -/
def outcome? (r : Report) (index : Nat) : Option Outcome :=
  (r.steps.find? fun s => s.index == index).map (·.outcome)

/-- The outcome that ended the pass, if it ended in error. -/
def failure? (r : Report) : Option Outcome :=
  match r.state with
  | .errored failedStep => r.outcome? failedStep
  | _ => none

def toDatum (r : Report) : Datum := .record <|
  ("job_id", .natural r.jobId.toNat) :: r.state.entries ++
    [("steps", .list (r.steps.map Pass.StepRecord.toDatum)),
      ("committed", .optional Job.Transition.toDatum r.committed),
      ("last_command", .optional CommandRecord.toDatum r.lastCommand)]

def reader : Reader Report := Reader.openRecord "struct JobReport" <|
  (Fields.pure Report.mk).and (.required "job_id" Reader.uint64)
    |>.and (.union "state" "JobState" Pass.State.cases)
    |>.and (.required "steps" (Reader.list Pass.StepRecord.reader))
    |>.and (.nullable "committed" Job.Transition.reader)
    |>.and (.nullable "last_command" CommandRecord.reader)

end Report

end FleetJobs
