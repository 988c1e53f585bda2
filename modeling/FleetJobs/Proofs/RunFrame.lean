import FleetJobs.Pass.Batch
import FleetJobs.Proofs.PassTrace
import FleetJobs.Proofs.StepChanges
import Mathlib

/-! What passes leave as it was.

Passes that are run one after another, of whatever jobs and with whatever outside, leave a
trail of executions: each takes the store from where the one before it has left it
(`Execution.Linked`), and those of a pass that reports are the attempts on its report
(`Pass.attempts_of_report`). `passes_change_only`: every execution changes no more than its
step may change, and so from the first store to the last no record is lost, none changes but
in the few fields that are there to be found out, and those keep what was found. -/
namespace FleetJobs

open FleetJobs.Fleet

/-! ### Later states of stores -/

/-- Hosts, filesystems and parameters are the same, and every other record is a later state
of itself. -/
structure Store.Becomes (s s' : Store) : Prop where
  hosts : s'.hosts = s.hosts
  filesystems : s'.filesystems = s.filesystems
  confParams : s'.confParams = s.confParams
  targets : s.targets.Follows Target.Becomes s'.targets
  targetMounts : s.targetMounts.Follows TargetMount.Becomes s'.targetMounts
  luns : s.luns.Follows Lun.Becomes s'.luns
  lunNodes : s.lunNodes.Follows LunNode.Becomes s'.lunNodes
  mgs : s.mgs.Follows Mgs.Becomes s'.mgs

namespace Store.Becomes

variable {s s' s'' : Store}

theorem refl (s : Store) : s.Becomes s where
  hosts := rfl
  filesystems := rfl
  confParams := rfl
  targets := .refl Target.Becomes.refl _
  targetMounts := .refl TargetMount.Becomes.refl _
  luns := .refl Lun.Becomes.refl _
  lunNodes := .refl LunNode.Becomes.refl _
  mgs := .refl Mgs.Becomes.refl _

theorem trans (h : s.Becomes s') (h' : s'.Becomes s'') : s.Becomes s'' where
  hosts := h'.hosts.trans h.hosts
  filesystems := h'.filesystems.trans h.filesystems
  confParams := h'.confParams.trans h.confParams
  targets := h.targets.trans Target.Becomes.trans h'.targets
  targetMounts := h.targetMounts.trans TargetMount.Becomes.trans h'.targetMounts
  luns := h.luns.trans Lun.Becomes.trans h'.luns
  lunNodes := h.lunNodes.trans LunNode.Becomes.trans h'.lunNodes
  mgs := h.mgs.trans Mgs.Becomes.trans h'.mgs

end Store.Becomes

theorem Step.Changes.becomes {k : Step.StepKind} {s s' : Store} (h : Step.Changes k s s') :
    s.Becomes s' where
  hosts := h.hosts
  filesystems := h.filesystems
  confParams := h.confParams
  targets := h.targets.follows.mono Step.TargetAfter.becomes
  targetMounts := h.targetMounts.follows.mono Step.MountAfter.becomes
  luns := h.luns.follows.mono Step.LunAfter.becomes
  lunNodes := h.lunNodes.follows
  mgs := h.mgs.follows

/-! ### Executions -/

/-- A step that was run, and the stores that it found and left. -/
structure Execution where
  step : Step
  before : Store
  after : Store

namespace Execution

/-- It is what running the step does to the store. -/
def Ran (σ : Type) (e : Execution) : Prop :=
  ∃ (o : Outside σ) (agent : String) (w : World σ),
    w.store = e.before ∧ ((e.step.program agent).run o w).2.store = e.after

/-- The executions take the store from one state to another. -/
def Linked : Store → List Execution → Store → Prop
  | s, [], s' => s' = s
  | s, e :: rest, s' => e.before = s ∧ Linked e.after rest s'

variable {σ : Type} {e : Execution} {s s' s'' : Store} {executions : List Execution}

theorem Ran.changes (h : e.Ran σ) : Step.Changes e.step.kind e.before e.after := by
  obtain ⟨o, agent, w, hbefore, hafter⟩ := h
  rw [← hbefore, ← hafter]
  exact e.step.run_changes agent o w

theorem Linked.append (h : Linked s executions s') {others : List Execution}
    (h' : Linked s' others s'') : Linked s (executions ++ others) s'' := by
  induction executions generalizing s with
  | nil => exact (show s' = s from h) ▸ h'
  | cons e rest ih => exact ⟨h.1, ih h.2⟩

theorem Linked.becomes (h : Linked s executions s') (ran : ∀ e ∈ executions, e.Ran σ) :
    s.Becomes s' := by
  induction executions generalizing s with
  | nil => exact (show s' = s from h) ▸ .refl s'
  | cons e rest ih =>
    obtain ⟨he, hrest⟩ := List.forall_mem_cons.mp ran
    exact h.1 ▸ he.changes.becomes.trans (ih h.2 hrest)

end Execution

namespace Pass

open FleetJobs.Step (Outcome)

variable {σ : Type} {o : Outside σ} {agent : String} {transition : Option Job.Transition} {i : Nat}
  {steps : List Step} {w w' : World σ}

/-- The executions that a pass over the steps comes to. -/
def stepExecutions (o : Outside σ) (agent : String) : List Step → World σ → List Execution
  | [], _ => []
  | s :: rest, w =>
    let (flags, looked) := w.look o
    if flags.aborted then []
    else if flags.paused then []
    else
      let (ending, w') := (s.program agent).run o looked
      ⟨s, looked.store, w'.store⟩ ::
        match ending with
        | .done () => stepExecutions o agent rest w'
        | .failed _ | .exhausted => []

/-- The executions of a pass, first to last. -/
def executions (o : Outside σ) (agent : String) (job : Job) (start : Nat) (w : World σ) :
    List Execution :=
  stepExecutions o agent (job.steps.drop start) w.clearNote

theorem ran_of_stepExecutions : ∀ e ∈ stepExecutions o agent steps w, e.Ran σ := by
  have hnone : ∀ e ∈ ([] : List Execution), e.Ran σ := fun _ he => absurd he List.not_mem_nil
  induction steps generalizing w with
  | nil => exact hnone
  | cons s rest ih =>
    simp only [stepExecutions]
    split
    · exact hnone
    split
    · exact hnone
    refine List.forall_mem_cons.mpr ⟨⟨o, agent, (w.look o).2, rfl, rfl⟩, ?_⟩
    split
    · exact ih
    · exact hnone
    · exact hnone

/-- A pass takes the store through its executions. -/
theorem linked_stepExecutions :
    Execution.Linked w.store (stepExecutions o agent steps w)
      ((stepsProgram agent transition i steps).run o w).2.store := by
  induction steps generalizing i w with
  | nil => rfl
  | cons s rest ih =>
    rw [run_stepsProgram_cons]
    simp only [stepExecutions]
    split
    · rfl
    split
    · rfl
    refine ⟨rfl, ?_⟩
    rcases (s.program agent).run o (w.look o).2 with ⟨⟨⟩ | e | _, w'⟩
    · have hrest := ih (i := i + 1) (w := w')
      dsimp only
      revert hrest
      rcases (stepsProgram agent transition (i + 1) rest).run o w' with ⟨v | e | _, w''⟩ <;> exact id
    · rfl
    · rfl

/-- What is recorded of the attempts of a pass are its executions, by index and name. -/
theorem attempts_of_stepExecutions {v : Verdict}
    (h : (stepsProgram agent transition i steps).run o w = (.done v, w')) :
    (v.steps.filter (·.outcome.attempted)).map (fun r => (r.index, r.name)) =
      (stepExecutions o agent steps w).mapIdx fun k e => (i + k, e.step.name) := by
  induction steps generalizing i w v with
  | nil =>
    cases h
    rfl
  | cons s rest ih =>
    rw [run_stepsProgram_cons] at h
    simp only [stepExecutions]
    revert h
    split
    · rintro ⟨⟩
      exact congrArg _ (filter_records_of_neg rfl)
    split
    · rintro ⟨⟩
      exact congrArg _ (filter_records_of_neg rfl)
    rcases (s.program agent).run o (w.look o).2 with ⟨⟨⟩ | e | _, w₁⟩
    · dsimp only
      split
      · rename_i v' w'' hrest
        rintro ⟨⟩
        rw [show (v'.after i s transition).steps = ⟨i, s.name, .succeeded⟩ :: v'.steps from rfl,
          List.filter_cons_of_pos rfl, List.map_cons, ih hrest]
        simp [List.mapIdx_cons, Nat.add_assoc, Nat.add_comm 1]
      · rintro ⟨⟩
      · rintro ⟨⟩
    · rintro ⟨⟩
      have hnone : (records .notRun (i + 1) rest).filter (·.outcome.attempted) = [] :=
        filter_records_of_neg rfl
      simp only [records] at hnone
      simp [Verdict.failedAt, Verdict.stopped, hnone]
    · rintro ⟨⟩

variable {job : Job} {start : Nat} {r : Report}

/-- **A pass takes the store through its executions**, whether there is a report on it or not. -/
theorem linked_executions :
    Execution.Linked w.store (executions o agent job start w) (run o agent job start w).2.store := by
  by_cases hstart : job.steps.length ≤ start
  · have hnone : job.steps.drop start = [] := List.drop_eq_nil_iff.mpr hstart
    simp only [executions, run, program, if_pos hstart, hnone]
    rfl
  · rw [run_of_inside o agent (Nat.lt_of_not_le hstart)]
    exact linked_stepExecutions (w := w.clearNote)

/-- **The attempts on a report are the executions of its pass**, by index and name. -/
theorem attempts_of_report (h : run o agent job start w = (some r, w')) :
    r.attempts.map (fun a => (a.index, a.name)) =
      (executions o agent job start w).mapIdx fun k e => (start + k, e.step.name) := by
  by_cases hstart : job.steps.length ≤ start
  · have hnone : job.steps.drop start = [] := List.drop_eq_nil_iff.mpr hstart
    simp only [run, program, if_pos hstart] at h
    cases h
    simp only [executions, hnone]
    rfl
  · obtain ⟨v, hrun, rfl⟩ := exists_verdict (Nat.lt_of_not_le hstart) h
    exact attempts_of_stepExecutions hrun

/-! ### Passes one after another -/

/-- A pass to be run: of which job and from where, and with what outside. -/
structure Order (σ : Type) where
  outside : Outside σ
  agent : String
  job : Job
  start : Nat
  /-- What goes on outside before the pass. -/
  meanwhile : σ → σ

namespace Order

/-- The world in which the pass begins. -/
def world (p : Order σ) (w : World σ) : World σ := { w with outside := p.meanwhile w.outside }

def run (p : Order σ) (w : World σ) : Option Report × World σ :=
  Pass.run p.outside p.agent p.job p.start (p.world w)

end Order

/-- Runs the passes and gives their reports, where there are any. -/
def runEach : List (Order σ) → World σ → List (Option Report) × World σ
  | [], w => ([], w)
  | p :: rest, w =>
    let (report, w) := p.run w
    let (reports, w) := runEach rest w
    (report :: reports, w)

/-- The executions of all the passes, first to last. -/
def allExecutions : List (Order σ) → World σ → List Execution
  | [], _ => []
  | p :: rest, w =>
    executions p.outside p.agent p.job p.start (p.world w) ++ allExecutions rest (p.run w).2

/-- Jobs that take their turns are passes one after another. -/
theorem runAll_eq_runEach (r : Gateway.Remote σ) (agent : String) (assignments : List Assignment)
    (w : World (σ × Job.Control)) :
    let orders := assignments.map fun a =>
      Order.mk r.outside agent a.job a.start fun outside => (outside.1, a.control)
    runAll r agent assignments w =
      ((runEach orders w).1.flatMap Option.toList, (runEach orders w).2) := by
  induction assignments generalizing w with
  | nil => rfl
  | cons a rest ih =>
    simp only [List.map_cons, runAll, runEach, List.flatMap_cons, ih]
    rfl

end Pass

/-- **Whatever passes are run one after another, each execution of a step changes what the
step is there to change and nothing else.** The executions take the store from its first state
to its last, and so no record is lost on the way, and none changes but in those few fields. -/
theorem passes_change_only {σ : Type} (passes : List (Pass.Order σ)) (w : World σ) :
    w.store.Becomes (Pass.runEach passes w).2.store ∧
    Execution.Linked w.store (Pass.allExecutions passes w) (Pass.runEach passes w).2.store ∧
    ∀ e ∈ Pass.allExecutions passes w, e.Ran σ ∧ Step.Changes e.step.kind e.before e.after := by
  have hran : ∀ e ∈ Pass.allExecutions passes w, e.Ran σ := by
    induction passes generalizing w with
    | nil => exact fun _ he => absurd he List.not_mem_nil
    | cons p rest ih => exact List.forall_mem_append.mpr ⟨Pass.ran_of_stepExecutions, ih _⟩
  have hlinked : Execution.Linked w.store (Pass.allExecutions passes w)
      (Pass.runEach passes w).2.store := by
    clear hran
    induction passes generalizing w with
    | nil => rfl
    | cons p rest ih =>
      exact Execution.Linked.append (Pass.linked_executions (w := p.world w)) (ih (p.run w).2)
  exact ⟨hlinked.becomes hran, hlinked, fun e he => ⟨hran e he, (hran e he).changes⟩⟩

end FleetJobs
