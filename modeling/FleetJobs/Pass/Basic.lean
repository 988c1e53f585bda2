import FleetJobs.Pass.Report
import FleetJobs.Program.Run
import FleetJobs.Step.Execute

/-! One pass over a job.

The steps run in order, each only once the one before has succeeded, and before every
step the pass looks at the flags: an abort counts more than a pause. The first step
that does not succeed ends the pass. What has become of each step, how the pass ended
and what is committed is the pass's `Verdict`; with the last command it makes a
report. A pass that starts past the last step is rejected and does nothing. -/
namespace FleetJobs.Pass

open FleetJobs.Step (Outcome)

/-- What came of the steps that a pass was to run. -/
structure Verdict where
  state : State
  steps : List StepRecord
  committed : Option Job.Transition
  deriving DecidableEq, Repr

namespace Verdict

/-- Nothing was left to run. -/
def nil : Verdict := ⟨.complete, [], none⟩

/-- All steps from `i` on have the same outcome. -/
def stopped (state : State) (outcome : Outcome) (i : Nat) (steps : List Step) : Verdict :=
  ⟨state, steps.mapIdx fun k s => ⟨i + k, s.name, outcome⟩, none⟩

/-- The step at `i` failed, and those after it were not run. -/
def failedAt (i : Nat) (s : Step) (outcome : Outcome) (rest : List Step) : Verdict :=
  ⟨.errored i, ⟨i, s.name, outcome⟩ :: (stopped .complete .notRun (i + 1) rest).steps, none⟩

/-- The step at `i` succeeded before all this. What a later step committed counts. -/
def after (i : Nat) (s : Step) (transition : Option Job.Transition) (v : Verdict) : Verdict where
  state := v.state
  steps := ⟨i, s.name, .succeeded⟩ :: v.steps
  committed := v.committed <|> if s.isFinal then transition else none

end Verdict

/-- The program of the steps from `i` on. It never fails itself. -/
def stepsProgram (agent : String) (transition : Option Job.Transition) :
    Nat → List Step → Program Empty Verdict
  | _, [] => .done .nil
  | i, s :: rest => .look fun flags =>
    if flags.aborted then .done (.stopped .aborted .aborted i (s :: rest))
    else if flags.paused then .done (.stopped (.paused i) .paused i (s :: rest))
    else (s.program agent).attempt.bind fun
      | .error e => .done (.failedAt i s (.ofFailure e) rest)
      | .ok () => (stepsProgram agent transition (i + 1) rest).bind fun v =>
        .done (v.after i s transition)

/-- Why a pass has nothing to run. -/
def rejection (start steps : Nat) : String :=
  s!"cannot start at step {start} of a job with {steps} steps"

/-- The program of a pass from the given step on. -/
def program (agent : String) (job : Job) (start : Nat) : Program Empty Verdict :=
  if job.steps.length ≤ start then
    .done ⟨.rejected (rejection start job.steps.length), [], none⟩
  else stepsProgram agent job.transition start (job.steps.drop start)

/-- The report on a pass, given the last command that it sent. -/
def report (job : Job) (v : Verdict) (lastCommand : Option Gateway.CommandRecord) : Report :=
  ⟨job.id, v.state, v.steps, v.committed, lastCommand⟩

/-- Runs a pass. There is no report if the store had no number left for a new record. -/
def run (o : Outside σ) (agent : String) (job : Job) (start : Nat) (w : World σ) :
    Option Report × World σ :=
  let (ending, w) := (program agent job start).run o w.clearNote
  match ending with
  | .done v => (some (report job v w.lastCommand), w)
  | .failed e => nomatch e
  | .exhausted => (none, w)

end FleetJobs.Pass
