import FleetJobs.Pass.Basic
import FleetJobs.Proofs.Hosts

/-! The course of a pass, told without its flags.

Whatever its watch shows, a pass runs some steps one after another, each of which
succeeds, and then comes to a halt: at the end of the job, before a step, at a step that
fails, or at one that runs out of numbers (`Halt`). A `Course` is such a run of steps,
and every pass follows one (`Pass.under_ran`). A course can be cut where it halts
(`Course.cut`) and put before another (`Course.after_successes`), and two that nothing
interrupts are the same (`Course.unique`). -/
namespace FleetJobs

open FleetJobs.Gateway (CommandRecord)
open FleetJobs.Step (Failure Outcome)

variable {κ τ σ : Type}

/-- What came of a program, if it has a result. -/
def Ending.result? {ε α : Type} : Ending ε α → Option α
  | .done a => some a
  | .failed _ | .exhausted => none

theorem Ending.eq_done {ε α : Type} {e : Ending ε α} {a : α} (h : e.result? = some a) :
    e = .done a := by
  cases e with
  | done b => exact congrArg _ (Option.some.inj h)
  | failed e => cases h
  | exhausted => cases h

/-- What cannot fail has a result unless no number is left. -/
theorem Ending.eq_exhausted {α : Type} {e : Ending Empty α} (h : e.result? = none) :
    e = .exhausted := by
  cases e with
  | done a => cases h
  | failed e => exact e.elim
  | exhausted => rfl

/-- The report on a pass is made of what its program comes to and of the note that it leaves. -/
theorem Pass.run_eq (o : Outside σ) (agent : String) (job : Job) (start : Nat) (w : World σ) :
    Pass.run o agent job start w =
      let r := (Pass.program agent job start).run o w.clearNote
      (r.1.result?.map (Pass.report job · r.2.lastCommand), r.2) := by
  unfold Pass.run
  rcases (Pass.program agent job start).run o w.clearNote with ⟨v | e | _, w'⟩
  · rfl
  · exact e.elim
  · rfl

/-- A pass that is not rejected runs the steps from where it starts. -/
theorem Pass.run_of_inside (o : Outside σ) (agent : String) {job : Job} {start : Nat}
    (inside : start < job.steps.length) (w : World σ) :
    Pass.run o agent job start w =
      let r := (Pass.stepsProgram agent job.transition start (job.steps.drop start)).run o w.clearNote
      (r.1.result?.map (Pass.report job · r.2.lastCommand), r.2) := by
  rw [run_eq, program, if_neg (Nat.not_le.mpr inside)]

/-- If there is a report on a pass that is not rejected, its steps have come to a verdict. -/
theorem Pass.exists_verdict {o : Outside σ} {agent : String} {job : Job} {start : Nat} {w w' : World σ}
    {r : Report} (inside : start < job.steps.length)
    (h : Pass.run o agent job start w = (some r, w')) :
    ∃ v, (Pass.stepsProgram agent job.transition start (job.steps.drop start)).run o w.clearNote =
        (.done v, w') ∧ r = Pass.report job v w'.lastCommand := by
  rw [run_of_inside o agent inside] at h
  obtain ⟨hreport, rfl⟩ := Prod.mk.inj h
  obtain ⟨v, hv, rfl⟩ := Option.map_eq_some_iff.mp hreport
  exact ⟨v, Prod.ext (Ending.eq_done hv) rfl, rfl⟩

/-! ### Steps one after another -/

/-- Runs steps one after another, whatever becomes of each. -/
def Step.executeEach (x : Hosts κ) (agent : String) :
    List Step → World κ → List (Ending Failure Unit) × World κ
  | [], w => ([], w)
  | s :: rest, w =>
    let (ending, w) := (s.program agent).run x.alone w
    let (endings, w) := executeEach x agent rest w
    (ending :: endings, w)

theorem Step.executeEach_append (x : Hosts κ) (agent : String) (a b : List Step) (w : World κ) :
    Step.executeEach x agent (a ++ b) w =
      ((Step.executeEach x agent a w).1 ++
          (Step.executeEach x agent b (Step.executeEach x agent a w).2).1,
        (Step.executeEach x agent b (Step.executeEach x agent a w).2).2) := by
  induction a generalizing w with
  | nil => rfl
  | cons s rest ih =>
    simp only [List.cons_append, Step.executeEach, ih]

/-- The steps succeed one after another and leave the world so. -/
def Step.AllSucceed (x : Hosts κ) (agent : String) (steps : List Step) (w w' : World κ) : Prop :=
  Step.executeEach x agent steps w = (steps.map fun _ => .done (), w')

theorem Step.AllSucceed.cons {x : Hosts κ} {agent : String} {s : Step} {rest : List Step}
    {w w₁ w₂ : World κ} (h : (s.program agent).run x.alone w = (.done (), w₁))
    (hrest : Step.AllSucceed x agent rest w₁ w₂) : Step.AllSucceed x agent (s :: rest) w w₂ := by
  unfold Step.AllSucceed at hrest ⊢
  simp only [Step.executeEach, h, hrest, List.map_cons]

theorem Step.AllSucceed.uncons {x : Hosts κ} {agent : String} {s : Step} {rest : List Step}
    {w w₂ : World κ} (h : Step.AllSucceed x agent (s :: rest) w w₂) :
    ∃ w₁, (s.program agent).run x.alone w = (.done (), w₁) ∧ Step.AllSucceed x agent rest w₁ w₂ := by
  unfold Step.AllSucceed at h
  simp only [Step.executeEach, List.map_cons, Prod.mk.injEq, List.cons.injEq] at h
  obtain ⟨⟨hs, hrest⟩, hw⟩ := h
  exact ⟨_, Prod.ext hs rfl, Prod.ext hrest hw⟩

/-! ### Verdicts after some successes -/

namespace Pass

/-- Records of steps, counted from `i`, that have the same outcome. -/
def records (outcome : Outcome) (i : Nat) (steps : List Step) : List StepRecord :=
  steps.mapIdx fun k s => ⟨i + k, s.name, outcome⟩

@[simp] theorem records_nil (outcome : Outcome) (i : Nat) : records outcome i [] = [] := rfl

@[simp] theorem records_cons (outcome : Outcome) (i : Nat) (s : Step) (rest : List Step) :
    records outcome i (s :: rest) = ⟨i, s.name, outcome⟩ :: records outcome (i + 1) rest := by
  simp [records, Nat.add_assoc, Nat.add_comm 1]

section Records

variable (outcome : Outcome) (i : Nat) (steps : List Step)

theorem records_append (rest : List Step) :
    records outcome i (steps ++ rest) =
      records outcome i steps ++ records outcome (i + steps.length) rest := by
  induction steps generalizing i with
  | nil => rfl
  | cons s steps ih => simp [ih, Nat.add_assoc, Nat.add_comm 1]

theorem records_index : (records outcome i steps).map (·.index) = List.range' i steps.length := by
  induction steps generalizing i with
  | nil => rfl
  | cons s rest ih => simp [ih, List.range'_succ]

theorem records_name : (records outcome i steps).map (·.name) = steps.map Step.name := by
  induction steps generalizing i with
  | nil => rfl
  | cons s rest ih => simp [ih]

theorem records_outcome :
    (records outcome i steps).map (·.outcome) = List.replicate steps.length outcome := by
  induction steps generalizing i with
  | nil => rfl
  | cons s rest ih => simp [ih, List.replicate_succ]

variable {outcome i steps} {s : StepRecord}

theorem outcome_of_mem_records (h : s ∈ records outcome i steps) : s.outcome = outcome := by
  have hs : s.outcome ∈ (records outcome i steps).map (·.outcome) := List.mem_map_of_mem h
  rw [records_outcome] at hs
  exact List.eq_of_mem_replicate hs

theorem filter_records_of_pos {p : Outcome → Bool} (h : p outcome = true) :
    (records outcome i steps).filter (fun s => p s.outcome) = records outcome i steps := by
  refine List.filter_eq_self.mpr fun s hs => ?_
  rw [outcome_of_mem_records hs, h]

theorem filter_records_of_neg {p : Outcome → Bool} (h : p outcome = false) :
    (records outcome i steps).filter (fun s => p s.outcome) = [] := by
  refine List.filter_eq_nil_iff.mpr fun s hs => ?_
  rw [outcome_of_mem_records hs, h]
  exact Bool.false_ne_true

end Records

namespace Verdict

/-- These steps, counted from `i`, succeeded before all this. -/
def afterAll (i : Nat) (transition : Option Job.Transition) : List Step → Verdict → Verdict
  | [], v => v
  | s :: rest, v => (afterAll (i + 1) transition rest v).after i s transition

variable (i : Nat) (transition : Option Job.Transition) (before : List Step) (v : Verdict)

@[simp] theorem afterAll_state : (v.afterAll i transition before).state = v.state := by
  induction before generalizing i with
  | nil => rfl
  | cons s rest ih => exact ih (i + 1)

@[simp] theorem afterAll_steps :
    (v.afterAll i transition before).steps = records .succeeded i before ++ v.steps := by
  induction before generalizing i with
  | nil => rfl
  | cons s rest ih =>
    rw [records_cons, List.cons_append, ← ih (i + 1)]
    rfl

/-- Steps that are not final commit nothing. -/
theorem afterAll_committed (h : ∀ s ∈ before, s.isFinal = false) :
    (v.afterAll i transition before).committed = v.committed := by
  induction before generalizing i with
  | nil => rfl
  | cons s rest ih =>
    obtain ⟨hs, hrest⟩ := List.forall_mem_cons.mp h
    show ((v.afterAll (i + 1) transition rest).committed <|> if s.isFinal then transition else none) = _
    rw [ih (i + 1) hrest, hs]
    simp

/-- If nothing is committed later, the transition is if any of the steps is final. -/
theorem committed_afterAll (h : v.committed = none) :
    (v.afterAll i transition before).committed =
      if before.any Step.isFinal then transition else none := by
  induction before generalizing i with
  | nil => exact h
  | cons s rest ih =>
    show ((v.afterAll (i + 1) transition rest).committed <|> if s.isFinal then transition else none) = _
    rw [ih, List.any_cons]
    cases s.isFinal <;> cases rest.any Step.isFinal <;> cases transition <;> rfl

end Verdict

/-- What is said of steps none of which has succeeded: nothing is committed, and the pass
is complete only if there are none. -/
structure Verdict.Halts (steps : List Step) (v : Verdict) : Prop where
  uncommitted : v.committed = none
  unsucceeded : ∀ r ∈ v.steps, r.outcome ≠ .succeeded
  complete : v.state = .complete ↔ steps = []

namespace Verdict

theorem halts_nil : nil.Halts [] := ⟨rfl, nofun, by simp [nil]⟩

theorem halts_stopped {state : State} {outcome : Outcome} (hs : state ≠ .complete)
    (ho : outcome ≠ .succeeded) (i : Nat) (s : Step) (rest : List Step) :
    (stopped state outcome i (s :: rest)).Halts (s :: rest) where
  uncommitted := rfl
  unsucceeded r hr := by
    have hr : r ∈ records outcome i (s :: rest) := hr
    rwa [outcome_of_mem_records hr]
  complete := ⟨fun h => absurd h hs, nofun⟩

theorem halts_aborted (i : Nat) (s : Step) (rest : List Step) :
    (stopped .aborted .aborted i (s :: rest)).Halts (s :: rest) :=
  halts_stopped (by simp) (by simp) i s rest

theorem halts_paused (i : Nat) (s : Step) (rest : List Step) :
    (stopped (.paused i) .paused i (s :: rest)).Halts (s :: rest) :=
  halts_stopped (by simp) (by simp) i s rest

theorem halts_failedAt (i : Nat) (s : Step) (e : Failure) (rest : List Step) :
    (failedAt i s (.ofFailure e) rest).Halts (s :: rest) where
  uncommitted := rfl
  unsucceeded r hr := by
    rcases List.mem_cons.mp hr with rfl | hr
    · cases e <;> exact nofun
    · have hr : r ∈ records .notRun (i + 1) rest := hr
      rw [outcome_of_mem_records hr]
      exact nofun
  complete := ⟨nofun, nofun⟩

end Verdict

/-- The pass was ended by a flag. -/
def State.interrupted : State → Bool
  | .paused _ | .aborted => true
  | _ => false

end Pass

/-! ### Courses -/

open FleetJobs.Pass (Verdict)

/-- How a pass comes to a halt before the steps from `i` on, or at the first of them. If
it has no verdict, that step ran out of numbers. -/
inductive Halt (x : Hosts κ) (agent : String) :
    Nat → List Step → World κ → Option Verdict → World κ → Prop
  | finished (i : Nat) (w : World κ) : Halt x agent i [] w (some .nil) w
  | aborted (i : Nat) (s : Step) (rest : List Step) (w : World κ) :
    Halt x agent i (s :: rest) w (some (.stopped .aborted .aborted i (s :: rest))) w
  | paused (i : Nat) (s : Step) (rest : List Step) (w : World κ) :
    Halt x agent i (s :: rest) w (some (.stopped (.paused i) .paused i (s :: rest))) w
  | failed (i : Nat) {s : Step} (rest : List Step) {w w' : World κ} {e : Failure}
    (h : (s.program agent).run x.alone w = (.failed e, w')) :
    Halt x agent i (s :: rest) w (some (.failedAt i s (.ofFailure e) rest)) w'
  | exhausted (i : Nat) {s : Step} (rest : List Step) {w w' : World κ}
    (h : (s.program agent).run x.alone w = (.exhausted, w')) :
    Halt x agent i (s :: rest) w none w'

/-- Steps, counted from `i`, that succeed until the pass comes to a halt. -/
inductive Course (x : Hosts κ) (agent : String) (transition : Option Job.Transition) :
    Nat → List Step → World κ → Option Verdict → World κ → Prop
  | halted {i : Nat} {steps : List Step} {w w' : World κ} {v : Option Verdict}
    (h : Halt x agent i steps w v w') : Course x agent transition i steps w v w'
  | succeeded {i : Nat} {s : Step} {rest : List Step} {w w₁ w' : World κ} {v : Option Verdict}
    (h : (s.program agent).run x.alone w = (.done (), w₁))
    (next : Course x agent transition (i + 1) rest w₁ v w') :
    Course x agent transition i (s :: rest) w (v.map (·.after i s transition)) w'

section

variable {x : Hosts κ} {agent : String} {transition : Option Job.Transition}
  {i : Nat} {steps : List Step} {w w₁ w₂ : World κ} {v v' : Option Verdict}

/-- One turn of a pass: a look at the flags, and a step if none is raised. -/
theorem Pass.run_stepsProgram_cons (o : Outside σ) (s : Step) (rest : List Step) (w : World σ) :
    (Pass.stepsProgram agent transition i (s :: rest)).run o w =
      if (w.look o).1.aborted then
        (.done (.stopped .aborted .aborted i (s :: rest)), (w.look o).2)
      else if (w.look o).1.paused then
        (.done (.stopped (.paused i) .paused i (s :: rest)), (w.look o).2)
      else match (s.program agent).run o (w.look o).2 with
        | (.failed e, w') => (.done (.failedAt i s (.ofFailure e) rest), w')
        | (.exhausted, w') => (.exhausted, w')
        | (.done (), w') =>
          match (Pass.stepsProgram agent transition (i + 1) rest).run o w' with
          | (.done v, w'') => (.done (v.after i s transition), w'')
          | (.failed e, w'') => (.failed e, w'')
          | (.exhausted, w'') => (.exhausted, w'') := by
  simp only [Pass.stepsProgram, Program.run]
  split
  · rfl
  split
  · rfl
  rw [Program.run_bind, Program.run_attempt]
  rcases (s.program agent).run o (w.look o).2 with ⟨⟨⟩ | e | _, w'⟩
  · dsimp only
    rw [Program.run_bind]
    rcases (stepsProgram agent transition (i + 1) rest).run o w' with ⟨v | e | _, w''⟩
    · rfl
    · rfl
    · rfl
  · rfl
  · rfl

/-- **The program of a pass follows a course**, whatever is shown to it. -/
theorem Course.of_run (u : Watch κ τ) (w : World (κ × τ)) :
    let r := (Pass.stepsProgram agent transition i steps).run (x.watched u) w
    Course x agent transition i steps w.hosts r.1.result? r.2.hosts := by
  induction steps generalizing i w with
  | nil => exact .halted (.finished i w.hosts)
  | cons s rest ih =>
    rw [Pass.run_stepsProgram_cons]
    -- a look leaves the hosts as they are
    have hlook : w.hosts = (w.look (x.watched u)).2.hosts := rfl
    rw [hlook]
    split
    · exact .halted (.aborted i s rest _)
    split
    · exact .halted (.paused i s rest _)
    have halone := s.run_watched agent x u (w.look (x.watched u)).2
    rcases hrun : (s.program agent).run (x.watched u) (w.look (x.watched u)).2 with ⟨⟨⟩ | e | _, w'⟩
    · rw [hrun] at halone
      have next : Course x agent transition i (s :: rest) _ _ _ := .succeeded halone (ih w')
      dsimp only
      revert next
      rcases (Pass.stepsProgram agent transition (i + 1) rest).run (x.watched u) w' with ⟨v | e | _, w''⟩
      · exact id
      · exact e.elim
      · exact id
    · rw [hrun] at halone
      exact .halted (.failed i rest halone)
    · rw [hrun] at halone
      exact .halted (.exhausted i rest halone)

/-- A course is some successes and then a halt. -/
theorem Course.cut (c : Course x agent transition i steps w v w₂) :
    ∃ before rest w₁ u, steps = before ++ rest ∧ Step.AllSucceed x agent before w w₁ ∧
      Halt x agent (i + before.length) rest w₁ u w₂ ∧ v = u.map (·.afterAll i transition before) := by
  induction c with
  | halted h => exact ⟨[], _, _, _, rfl, rfl, h, Option.map_id'.symm⟩
  | @succeeded i s rest w w₁ w₂ v h next ih =>
    obtain ⟨before, rest, w', u, rfl, hbefore, hhalt, rfl⟩ := ih
    refine ⟨s :: before, rest, w', u, rfl, hbefore.cons h, ?_, ?_⟩
    · have hi : i + (s :: before).length = i + 1 + before.length := by
        rw [List.length_cons]
        omega
      rw [hi]
      exact hhalt
    · rw [Option.map_map]
      rfl

/-- A course with a verdict is some successes and then a halt with a verdict. -/
theorem Course.cut_verdict {v : Verdict} (c : Course x agent transition i steps w (some v) w₂) :
    ∃ before rest w₁ u, steps = before ++ rest ∧ Step.AllSucceed x agent before w w₁ ∧
      Halt x agent (i + before.length) rest w₁ (some u) w₂ ∧ v = u.afterAll i transition before := by
  obtain ⟨before, rest, w₁, u, hsteps, hbefore, hhalt, hu⟩ := c.cut
  obtain ⟨u, rfl, rfl⟩ := Option.map_eq_some_iff.mp hu.symm
  exact ⟨before, rest, w₁, u, hsteps, hbefore, hhalt, rfl⟩

/-- A course may be put behind steps that succeed. -/
theorem Course.after_successes {before rest : List Step}
    (hbefore : Step.AllSucceed x agent before w w₁)
    (c : Course x agent transition (i + before.length) rest w₁ v w₂) :
    Course x agent transition i (before ++ rest) w (v.map (·.afterAll i transition before)) w₂ := by
  induction before generalizing i w with
  | nil =>
    obtain rfl : w = w₁ := congrArg Prod.snd hbefore
    rw [show v.map (·.afterAll i transition []) = v from Option.map_id']
    exact c
  | cons s before ih =>
    obtain ⟨w', hs, hbefore⟩ := hbefore.uncons
    have hi : i + (s :: before).length = i + 1 + before.length := by
      rw [List.length_cons]
      omega
    rw [hi] at c
    have next := Course.succeeded (i := i) hs (ih hbefore c)
    rw [Option.map_map] at next
    exact next

theorem Halt.halts {v : Verdict} (h : Halt x agent i steps w (some v) w₂) : v.Halts steps := by
  cases h with
  | finished => exact Verdict.halts_nil
  | aborted s rest => exact Verdict.halts_aborted i s rest
  | paused s rest => exact Verdict.halts_paused i s rest
  | failed rest => exact Verdict.halts_failedAt i _ _ rest

/-- A pause leaves the world and all steps from there on. -/
theorem Halt.of_paused {v : Verdict} (h : Halt x agent i steps w (some v) w₂) {n : Nat}
    (hv : v.state = .paused n) :
    n = i ∧ w₂ = w ∧ steps ≠ [] ∧ v.steps = Pass.records .paused i steps := by
  cases h with
  | paused s rest =>
    cases hv
    exact ⟨rfl, rfl, List.cons_ne_nil s rest, rfl⟩
  | _ => cases hv

/-- An error is that of the first step. -/
theorem Halt.of_errored {v : Verdict} (h : Halt x agent i steps w (some v) w₂) {f : Nat}
    (hv : v.state = .errored f) :
    f = i ∧ ∃ s rest e, steps = s :: rest ∧ (s.program agent).run x.alone w = (.failed e, w₂) ∧
      v.steps = ⟨i, s.name, .ofFailure e⟩ :: Pass.records .notRun (i + 1) rest := by
  cases h with
  | @failed s rest _ _ e h =>
    cases hv
    exact ⟨rfl, s, rest, e, rfl, h, rfl⟩
  | _ => cases hv

/-- Nothing in a halt hangs on the note of the last command. -/
theorem Halt.noted (note : Option CommandRecord) (h : Halt x agent i steps w v w₂) :
    Halt x agent i steps (w.noted note) v (w₂.noted note) := by
  cases h with
  | finished => exact .finished i _
  | aborted s rest => exact .aborted i s rest _
  | paused s rest => exact .paused i s rest _
  | failed rest h => exact .failed i rest (by rw [Program.run_noted, h])
  | exhausted rest h => exact .exhausted i rest (by rw [Program.run_noted, h])

theorem Course.noted (note : Option CommandRecord) (c : Course x agent transition i steps w v w₂) :
    Course x agent transition i steps (w.noted note) v (w₂.noted note) := by
  induction c with
  | halted h => exact .halted (h.noted note)
  | succeeded h next ih => exact .succeeded (by rw [Program.run_noted, h]) ih

/-- No flag has ended the pass. -/
def Uninterrupted (v : Option Verdict) : Prop := ∀ u ∈ v, u.state.interrupted = false

/-- **A pass that no flag ends can halt in one way only.** -/
theorem Halt.unique (h : Halt x agent i steps w v w₁) (hv : Uninterrupted v)
    (h' : Halt x agent i steps w v' w₂) (hv' : Uninterrupted v') : v = v' ∧ w₁ = w₂ := by
  have interrupted {u : Verdict} (hu : Uninterrupted (some u)) : u.state.interrupted = false :=
    hu u rfl
  cases h with
  | finished =>
    cases h'
    exact ⟨rfl, rfl⟩
  | aborted => cases interrupted hv
  | paused => cases interrupted hv
  | failed rest h =>
    cases h' with
    | aborted => cases interrupted hv'
    | paused => cases interrupted hv'
    | failed _ h' =>
      cases h.symm.trans h'
      exact ⟨rfl, rfl⟩
    | exhausted _ h' => cases h.symm.trans h'
  | exhausted rest h =>
    cases h' with
    | aborted => cases interrupted hv'
    | paused => cases interrupted hv'
    | failed _ h' => cases h.symm.trans h'
    | exhausted _ h' =>
      cases h.symm.trans h'
      exact ⟨rfl, rfl⟩

theorem Uninterrupted.of_after {s : Step}
    (h : Uninterrupted (v.map (·.after i s transition))) : Uninterrupted v :=
  fun u hu => h (u.after i s transition) (Option.mem_map_of_mem (·.after i s transition) hu)

/-- Steps that succeed do not halt a pass. -/
theorem Halt.not_done {s : Step} {rest : List Step}
    (h : Halt x agent i (s :: rest) w v w₂) (hv : Uninterrupted v) :
    (s.program agent).run x.alone w ≠ (.done (), w₁) := by
  intro hs
  cases h with
  | aborted => cases hv _ rfl
  | paused => cases hv _ rfl
  | failed _ h => cases h.symm.trans hs
  | exhausted _ h => cases h.symm.trans hs

/-- **There is one course only that no flag ends.** -/
theorem Course.unique (c : Course x agent transition i steps w v w₁) (hv : Uninterrupted v)
    (c' : Course x agent transition i steps w v' w₂) (hv' : Uninterrupted v') :
    v = v' ∧ w₁ = w₂ := by
  induction c generalizing v' with
  | halted h =>
    cases c' with
    | halted h' => exact h.unique hv h' hv'
    | succeeded hs => exact absurd hs (h.not_done hv)
  | succeeded hs next ih =>
    cases c' with
    | halted h' => exact absurd hs (h'.not_done hv')
    | succeeded hs' next' =>
      cases hs.symm.trans hs'
      obtain ⟨rfl, rfl⟩ := ih hv.of_after next' hv'.of_after
      exact ⟨rfl, rfl⟩

end

/-! ### Passes -/

namespace Pass

/-- Runs a pass with a watch over the job, and then forgets the watch. -/
def under (x : Hosts κ) (u : Watch κ τ) (t : τ) (agent : String) (job : Job) (start : Nat)
    (w : World κ) : Option Report × World κ :=
  let (r, w) := run (x.watched u) agent job start (w.beside t)
  (r, w.hosts)

variable (x : Hosts κ) (u : Watch κ τ) (t : τ) (agent : String) (job : Job) (start : Nat)
  (w : World κ)

/-- A pass that starts past the last step does nothing. -/
theorem under_rejected (h : job.steps.length ≤ start) :
    under x u t agent job start w =
      (some (report job ⟨.rejected (rejection start job.steps.length), [], none⟩ none),
        w.clearNote) := by
  simp only [under, run, program, if_pos h, Program.run]
  rfl

/-- Any other pass runs the steps from where it starts. -/
theorem under_eq (h : ¬ job.steps.length ≤ start) :
    under x u t agent job start w =
      let r := (stepsProgram agent job.transition start (job.steps.drop start)).run (x.watched u)
        (w.clearNote.beside t)
      (r.1.result?.map (report job · r.2.lastCommand), r.2.hosts) := by
  rw [under, run_of_inside (x.watched u) agent (Nat.not_le.mp h)]
  rfl

/-- **It follows a course**, and reports on it if there is a verdict. -/
theorem under_ran (h : ¬ job.steps.length ≤ start) :
    ∃ v w', under x u t agent job start w = (v.map (report job · w'.lastCommand), w') ∧
      Course x agent job.transition start (job.steps.drop start) w.clearNote v w' :=
  ⟨_, _, under_eq x u t agent job start w h, Course.of_run u (w.clearNote.beside t)⟩

end Pass

end FleetJobs
