import FleetJobs.Files.Document
import FleetJobs.Job.Catalogue
import FleetJobs.Proofs.PassResume

/-! What a pass commits.

A pass commits its job's transition exactly if a final step succeeded in it, whatever the
job, the outside and the flags: the steps that succeeded come first, and what halts the
pass after them commits nothing (`Pass.verdict_of_run`). The pass never asks whether the job
is valid. But the jobs there are, however they were made, have one final step, the last
(`Job.Made.endsFinal`), and for these to commit is to complete. -/
namespace FleetJobs

open FleetJobs.Pass (Verdict records)

variable {σ : Type}

/-! ### How jobs are made -/

namespace Job

/-- How a job comes about: from its steps, from the catalogue or from a file. -/
inductive Made : Job → Prop
  | of (id : UInt64) (description : String) (transition : Option Transition)
    (kinds : List Step.StepKind) : Made (Job.of id description transition kinds)
  | formatTarget (id : UInt64) (target : Fleet.TargetId) : Made (Job.formatTarget id target)
  | registerTarget (id : UInt64) (target : Fleet.TargetId) (primary : Fleet.TargetMountId) :
    Made (Job.registerTarget id target primary)
  | configureTargetMount (id : UInt64) (mount : Fleet.TargetMountId) :
    Made (Job.configureTargetMount id mount)
  | startTarget (id : UInt64) (target : Fleet.TargetId) : Made (Job.startTarget id target)
  | stopTarget (id : UInt64) (target : Fleet.TargetId) : Made (Job.stopTarget id target)
  | loadLnet (id : UInt64) (host : Fleet.HostId) : Made (Job.loadLnet id host)
  | startLnet (id : UInt64) (host : Fleet.HostId) : Made (Job.startLnet id host)
  | stopLnet (id : UInt64) (host : Fleet.HostId) : Made (Job.stopLnet id host)
  | unloadLnet (id : UInt64) (host : Fleet.HostId) : Made (Job.unloadLnet id host)
  | applyConfParams (id : UInt64) (mgs : Fleet.TargetId) (params : List Fleet.ConfParamId)
    (version : UInt64) : Made (Job.applyConfParams id mgs params version)
  | loaded {path : String} {d d' : Files.Directory} {job : Job}
    (h : (Files.loadJob path).run d = some (.ok job, d')) : Made job

/-- The job is valid and has a final step, which can only be the last. -/
structure EndsFinal (job : Job) : Prop where
  valid : job.invalid? = none
  final : job.steps.any Step.isFinal = true

theorem misplaced?_append_singleton {i : Nat} {before : List Step} {last : Step}
    (h : ∀ s ∈ before, s.isFinal = false) : misplaced? i (before ++ [last]) = none := by
  induction before generalizing i with
  | nil => rfl
  | cons s before ih =>
    obtain ⟨hs, hbefore⟩ := List.forall_mem_cons.mp h
    obtain ⟨s', rest, hrest⟩ := List.exists_cons_of_ne_nil
      (List.append_ne_nil_of_right_ne_nil before (List.cons_ne_nil last []))
    rw [List.cons_append, hrest, misplaced?, hs, ← hrest]
    · exact ih hbefore
    · simp

theorem endsFinal_of {id : UInt64} {description : String} {transition : Option Transition}
    {kinds : List Step.StepKind} (h : kinds ≠ []) : (Job.of id description transition kinds).EndsFinal := by
  obtain ⟨front, last, rfl⟩ := (List.eq_nil_or_concat kinds).resolve_left h
  have hsteps : (Job.of id description transition (front.concat last)).steps =
      front.map (fun k => ⟨k, false⟩) ++ [⟨last, true⟩] := by
    simp only [Job.of, List.concat_eq_append, List.map_append]
    exact markLast_append_singleton _ _
  have hfront : ∀ s ∈ front.map (fun k => (⟨k, false⟩ : Step)), s.isFinal = false := by simp
  constructor
  · rw [invalid?, hsteps, misplaced?_append_singleton hfront]
    simp
  · rw [hsteps]
    simp

/-- A settled job that has steps has a final one. -/
theorem any_isFinal_settled {job : Job} (h : job.settled.steps ≠ []) :
    job.settled.steps.any Step.isFinal = true := by
  unfold settled at h ⊢
  split
  · assumption
  · rename_i hnone
    rw [if_neg hnone] at h
    have hsteps : job.steps ≠ [] := fun hnil => h (by rw [hnil]; rfl)
    obtain ⟨front, last, hlast⟩ := (List.eq_nil_or_concat job.steps).resolve_left hsteps
    simp [hlast, markLast_append_singleton, Step.markFinal]

/-- A job that was loaded is one that was read, settled and valid. -/
theorem settled_of_loaded {path : String} {d d' : Files.Directory} {job : Job}
    (h : (Files.loadJob path).run d = some (.ok job, d')) :
    ∃ read : Job, job = read.settled ∧ read.settled.invalid? = none := by
  have haccept : ∃ read, Files.accept path read = .ok job := by
    simp only [Files.loadJob, Files.loadAs, Files.operate, bind, Files.FileProgram.bind,
      Files.FileProgram.run, Files.Directory.perform] at h
    revert h
    split
    · exact nofun
    · exact nofun
    · rename_i content _
      cases hread : (Files.decode reader content).mapError (Files.FileError.content path) with
      | error e => exact nofun
      | ok read =>
        intro h
        have h : some (Files.accept path read, d) = some (.ok job, d') := h
        exact ⟨read, congrArg Prod.fst (Option.some.inj h)⟩
  obtain ⟨read, hread⟩ := haccept
  unfold Files.accept at hread
  split at hread
  · cases hread
  · cases hread
    exact ⟨read, rfl, ‹_›⟩

/-- **A job with steps has one final step, its last**, however it was made. -/
theorem Made.endsFinal {job : Job} (made : job.Made) (h : job.steps ≠ []) : job.EndsFinal := by
  cases made with
  | of id description transition kinds =>
    refine endsFinal_of fun hnil => h ?_
    rw [hnil]
    rfl
  | applyConfParams => exact endsFinal_of (List.append_ne_nil_of_right_ne_nil _ (List.cons_ne_nil _ _))
  | loaded hload =>
    obtain ⟨read, rfl, valid⟩ := settled_of_loaded hload
    exact ⟨valid, any_isFinal_settled h⟩
  | _ => exact endsFinal_of (List.cons_ne_nil _ _)

end Job

/-! ### Where a pass halts -/

namespace Pass

/-- **The verdict on a pass tells of some successes and then of a halt**, whatever the
outside answers and shows. -/
theorem verdict_of_run {o : Outside σ} {agent : String} {transition : Option Job.Transition} {i : Nat}
    {steps : List Step} {w w' : World σ} {v : Verdict}
    (h : (stepsProgram agent transition i steps).run o w = (.done v, w')) :
    ∃ before rest, ∃ u : Verdict,
      steps = before ++ rest ∧ v = u.afterAll i transition before ∧ u.Halts rest := by
  induction steps generalizing i w v with
  | nil =>
    cases h
    exact ⟨[], [], .nil, rfl, rfl, Verdict.halts_nil⟩
  | cons s rest ih =>
    rw [run_stepsProgram_cons] at h
    split at h
    · cases h
      exact ⟨[], _, _, rfl, rfl, Verdict.halts_aborted i s rest⟩
    split at h
    · cases h
      exact ⟨[], _, _, rfl, rfl, Verdict.halts_paused i s rest⟩
    split at h
    · cases h
      exact ⟨[], _, _, rfl, rfl, Verdict.halts_failedAt i s _ rest⟩
    · cases h
    · split at h
      · rename_i hrest
        cases h
        obtain ⟨before, halted, u, rfl, rfl, hu⟩ := ih hrest
        exact ⟨s :: before, halted, u, rfl, rfl, hu⟩
      · cases h
      · cases h

end Pass

/-! ### What is committed -/

/-- Whether a step of the job that is final has succeeded in the pass. -/
def Report.finalSucceeded (r : Report) (job : Job) : Bool :=
  (r.successes.filterMap fun s => job.steps[s.index]?).any Step.isFinal

section

variable {o : Outside σ} {agent : String} {job : Job} {start : Nat} {w w' : World σ} {r : Report}

/-- A report is that of a rejected pass, or it tells of some successes and then of a halt. -/
theorem Pass.cut_of_report (h : Pass.run o agent job start w = (some r, w')) :
    (r.state = .rejected (Pass.rejection start job.steps.length) ∧ r.steps = [] ∧ r.committed = none) ∨
    ∃ before rest, ∃ u : Verdict, start < job.steps.length ∧
      job.steps.drop start = before ++ rest ∧ u.Halts rest ∧
      r = Pass.report job (u.afterAll start job.transition before) w'.lastCommand := by
  by_cases hstart : job.steps.length ≤ start
  · simp only [Pass.run, Pass.program, if_pos hstart, Program.run] at h
    cases h
    exact .inl ⟨rfl, rfl, rfl⟩
  · have inside := Nat.lt_of_not_le hstart
    obtain ⟨v, hrun, rfl⟩ := Pass.exists_verdict inside h
    obtain ⟨before, rest, u, hdrop, rfl, hu⟩ := Pass.verdict_of_run hrun
    exact .inr ⟨before, rest, u, inside, hdrop, hu, rfl⟩

/-- The steps that succeeded, looked up by the indices on record. -/
theorem Report.finalSucceeded_eq {v : Verdict} {before rest : List Step}
    (hdrop : job.steps.drop start = before ++ rest) (hv : v.Halts rest) (note) :
    (Pass.report job (v.afterAll start job.transition before) note).finalSucceeded job =
      before.any Step.isFinal := by
  have hsuccesses := Report.successes_eq (r := Pass.report job (v.afterAll start job.transition before) note)
    (Verdict.afterAll_steps start job.transition before v) hv.unsucceeded
  rw [finalSucceeded, hsuccesses, job.steps_of_records (Pass.records_index _ _ _), hdrop, List.take_left]

/-- Of the steps of a valid job that others come after none is final. -/
theorem Job.any_isFinal_of_valid (valid : job.invalid? = none) {before rest : List Step}
    (hsteps : job.steps = before ++ rest) (hrest : rest ≠ []) : before.any Step.isFinal = false := by
  refine List.any_eq_false.mpr fun s hs => ?_
  simp [Job.not_final_of_valid valid hsteps hrest s hs]

/-- The final step is among the last ones, however few. -/
theorem Job.EndsFinal.any_isFinal_drop (final : job.EndsFinal) (hstart : start < job.steps.length) :
    (job.steps.drop start).any Step.isFinal = true := by
  have hall := final.final
  have hrest : job.steps.drop start ≠ [] := by simpa using hstart
  have hbefore : (job.steps.take start).any Step.isFinal = false :=
    Job.any_isFinal_of_valid final.valid (List.take_append_drop start job.steps).symm hrest
  rw [← List.take_append_drop start job.steps, List.any_append, hbefore] at hall
  exact hall

/-- **A pass commits its job's transition exactly if a final step succeeded in it.** For a job
that is valid to commit is thus to complete; and a job that was made as jobs are commits its
transition if it completes, and nothing if it is paused, aborted, rejected or ends in error. -/
theorem committed_by_final_step (h : Pass.run o agent job start w = (some r, w')) :
    r.committed = (if r.finalSucceeded job then job.transition else none) ∧
    (job.invalid? = none → r.committed ≠ none → r.state = .complete) ∧
    (job.Made → (r.state = .complete → r.committed = job.transition) ∧
      (r.state ≠ .complete → r.committed = none)) := by
  rcases Pass.cut_of_report h with ⟨hstate, hsteps, hcommitted⟩ |
    ⟨before, rest, v, hstart, hdrop, hv, rfl⟩
  · have hnone : r.finalSucceeded job = false := by simp [Report.finalSucceeded, Report.successes, hsteps]
    rw [hnone, hcommitted, hstate]
    exact ⟨rfl, fun _ h => absurd rfl h, fun _ => ⟨nofun, fun _ => rfl⟩⟩
  · have hcommitted := Verdict.committed_afterAll start job.transition before v hv.uncommitted
    rw [Report.finalSucceeded_eq hdrop hv]
    -- the pass is complete exactly if nothing is left
    have hcomplete : (v.afterAll start job.transition before).state = .complete ↔ rest = [] := by
      rw [Verdict.afterAll_state]
      exact hv.complete
    have hunfinished (valid : job.invalid? = none) (hrest : rest ≠ []) :
        (v.afterAll start job.transition before).committed = none := by
      have hsteps : job.steps = (job.steps.take start ++ before) ++ rest := by
        rw [List.append_assoc, ← hdrop, List.take_append_drop]
      have hnone := Job.any_isFinal_of_valid valid hsteps hrest
      rw [List.any_append, Bool.or_eq_false_iff] at hnone
      rw [hcommitted, hnone.2]
      rfl
    refine ⟨hcommitted, fun valid hne => ?_, fun made => ?_⟩
    · by_cases hrest : rest = []
      · exact hcomplete.mpr hrest
      · exact absurd (hunfinished valid hrest) hne
    · have final := made.endsFinal (List.ne_nil_of_length_pos (Nat.zero_lt_of_lt hstart))
      refine ⟨fun hstate => ?_, fun hstate => hunfinished final.valid fun hrest =>
        hstate (hcomplete.mpr hrest)⟩
      obtain rfl := hcomplete.mp hstate
      rw [List.append_nil] at hdrop
      show (v.afterAll start job.transition before).committed = job.transition
      rw [hcommitted, ← hdrop, if_pos (final.any_isFinal_drop hstart)]

end

/-- A job is paused after its first step, and another pass takes it to its end. -/
theorem restart_commits_at_the_end :
    let i : Fleet.Inventory := { hosts := [⟨⟨1⟩, "oss1", none, none, .up, none, []⟩] }
    let up : Job.Transition := ⟨.host, 1, "lnet_up", "lnet_up"⟩
    let job : Job := .of 7 "Restart LNet" (some up) [.stopLnet ⟨1⟩, .startLnet ⟨1⟩]
    let r : Gateway.Remote Unit := ⟨fun _ _ _ => ⟨.ok ⟨0, "", ""⟩, [.pause], ()⟩⟩
    let pass := fun start =>
      Pass.run r.outside "agent" job start (World.start (Store.ofInventory i) ((), .unset))
    (∃ first, pass 0 = (some first, (pass 0).2) ∧ first.state = .paused 1 ∧ first.committed = none) ∧
    ∃ second, pass 1 = (some second, (pass 1).2) ∧ second.state = .complete ∧
      second.committed = some up := by
  intro i up job r pass
  have made : job.Made := .of ..
  have hfirst : (pass 0).1.map (·.state) = some (.paused 1) := by decide +kernel
  have hsecond : (pass 1).1.map (·.state) = some .complete := by decide +kernel
  obtain ⟨first, hfirst, hpaused⟩ := Option.map_eq_some_iff.mp hfirst
  obtain ⟨second, hsecond, hcomplete⟩ := Option.map_eq_some_iff.mp hsecond
  have hpass₀ : pass 0 = (some first, (pass 0).2) := Prod.ext hfirst rfl
  have hpass₁ : pass 1 = (some second, (pass 1).2) := Prod.ext hsecond rfl
  refine ⟨⟨first, hpass₀, hpaused, ?_⟩, second, hpass₁, hcomplete, ?_⟩
  · exact ((committed_by_final_step hpass₀).2.2 made).2 (by rw [hpaused]; exact nofun)
  · exact ((committed_by_final_step hpass₁).2.2 made).1 hcomplete

end FleetJobs
