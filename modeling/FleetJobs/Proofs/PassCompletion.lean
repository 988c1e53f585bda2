import FleetJobs.Pass.Batch
import FleetJobs.Proofs.PassCourse

/-! Jobs that complete.

If hosts raise no flags and all steps of a job succeed, its pass completes, and with a
final step among them its transition is committed (`Pass.run_completes`). Jobs that
complete one after another (`Job.CompleteInTurn`) do so when they are run together
(`Pass.runAll_completes`). -/
namespace FleetJobs

open FleetJobs.Gateway
open FleetJobs.Pass (Verdict Assignment)

variable {κ τ : Type}

/-- The hosts raise no flags. -/
def Gateway.Remote.Calm (r : Remote κ) : Prop :=
  ∀ s host line, (r.answer s host line).signals = []

namespace Pass

/-- Steps that succeed and hear of no flag complete the pass. -/
theorem run_stepsProgram_of_allSucceed (transition : Option Job.Transition) (i : Nat)
    {x : Hosts κ} {u : Watch κ τ} {t : τ} (unset : u.flags t = (.unset, t))
    (unheard : ∀ k t host line, u.heard k t host line = t) {agent : String} {steps : List Step}
    {w w' : World κ} (h : Step.AllSucceed x agent steps w w') :
    (stepsProgram agent transition i steps).run (x.watched u) (w.beside t) =
      (.done (Verdict.nil.afterAll i transition steps), w'.beside t) := by
  induction steps generalizing i w with
  | nil =>
    obtain rfl : w = w' := congrArg Prod.snd h
    rfl
  | cons s rest ih =>
    obtain ⟨w₁, hs, hrest⟩ := h.uncons
    have hlook : (w.beside t).look (x.watched u) = (.unset, w.beside t) := by
      show ((u.flags t).1, { w.beside t with outside := (w.outside, (u.flags t).2) }) = _
      rw [unset]
      rfl
    rw [run_stepsProgram_cons, hlook]
    simp only [Job.Control.unset, Bool.false_eq_true, if_false]
    rw [s.run_unheard agent x unheard, hs]
    dsimp only
    rw [ih (i + 1) hrest]
    rfl

variable {r : Remote κ} (calm : r.Calm) {agent : String}

include calm

/-- **A job whose steps all succeed completes**, and a final step commits its transition. -/
theorem run_completes {job : Job} (final : job.steps.any Step.isFinal = true) {w w' : World κ}
    (h : Step.AllSucceed r.hosts agent job.steps w.clearNote w') :
    ∃ report, run r.outside agent job 0 (w.beside .unset) = (some report, w'.beside .unset) ∧
      report.jobId = job.id ∧ report.state = .complete ∧ report.committed = job.transition := by
  have unheard : ∀ (k : κ) (c : Job.Control) (host : Fleet.Host) (line : String),
      c.applyAll (r.answer k host line).signals = c := by
    intro k c host line
    rw [calm k host line]
    rfl
  -- a job without steps would be rejected before it starts
  have hnonempty : ¬ job.steps.length ≤ 0 := by
    intro hempty
    rw [List.eq_nil_of_length_eq_zero (Nat.le_zero.mp hempty)] at final
    cases final
  have hrun := run_stepsProgram_of_allSucceed job.transition 0
    (u := r.signals) (t := .unset) rfl unheard h
  let v := Verdict.nil.afterAll 0 job.transition job.steps
  refine ⟨report job v w'.lastCommand, ?_, rfl, Verdict.afterAll_state _ _ _ _, ?_⟩
  · unfold run program
    have hworld : (w.beside Job.Control.unset).clearNote = w.clearNote.beside .unset := rfl
    rw [if_neg hnonempty, r.outside_eq_watched, List.drop_zero, hworld, hrun]
    rfl
  · show v.committed = job.transition
    rw [Verdict.committed_afterAll _ _ _ _ rfl, if_pos final]

end Pass

/-- The steps of the jobs succeed, job after job, and leave the world so. -/
inductive Job.CompleteInTurn (x : Hosts κ) (agent : String) : List Job → World κ → World κ → Prop
  | nil (w : World κ) : CompleteInTurn x agent [] w w
  | cons {job : Job} {rest : List Job} {w w₁ w' : World κ} (final : job.steps.any Step.isFinal = true)
    (h : Step.AllSucceed x agent job.steps w.clearNote w₁) (next : CompleteInTurn x agent rest w₁ w') :
    CompleteInTurn x agent (job :: rest) w w'

/-- **Jobs that succeed in turn complete when they are run together**, each with its
transition committed. -/
theorem Pass.runAll_completes {r : Remote κ} (calm : r.Calm) {agent : String} {jobs : List Job}
    {w w' : World κ} (h : Job.CompleteInTurn r.hosts agent jobs w w') :
    ∃ reports, Pass.runAll r agent (jobs.map fun j => { job := j }) (w.beside .unset) =
        (reports, w'.beside .unset) ∧
      reports.map (fun r => (r.jobId, r.state, r.committed)) =
        jobs.map fun j => (j.id, .complete, j.transition) := by
  induction h with
  | nil w => exact ⟨[], rfl, rfl⟩
  | @cons job rest w w₁ w' final h _ ih =>
    obtain ⟨report, hrun, hid, hstate, hcommitted⟩ := Pass.run_completes calm final h
    obtain ⟨reports, hrest, hreports⟩ := ih
    refine ⟨report :: reports, ?_, ?_⟩
    · have hunset : { w.beside Job.Control.unset with
          outside := ((w.beside Job.Control.unset).outside.1, Job.Control.unset) } =
        w.beside Job.Control.unset := rfl
      simp only [List.map_cons, Pass.runAll, hunset, hrun, hrest]
      rfl
    · rw [List.map_cons, List.map_cons, hreports, hid, hstate, hcommitted]

end FleetJobs
