import FleetJobs.Proofs.PassTrace

/-! Passes that are paused and gone on with.

A chain of passes, each started where the one before was paused, advances through the
job as one pass does (`PausedPasses.advance`), whoever watches over each of them. So
`resuming_is_invisible`: what the last of them reports and leaves behind, taken with the
successes before it, is what a single pass that no flag ends reports and leaves behind.
And a pass that ended in error has left the store as it would be had the job been paused
before the step that failed. -/
namespace FleetJobs

open FleetJobs.Gateway (CommandRecord)
open FleetJobs.Step (Failure Outcome)
open FleetJobs.Pass (Verdict records)

variable {κ τ : Type}

/-! ### Steps that succeed -/

namespace Step.AllSucceed

variable {x : Hosts κ} {agent : String} {steps rest : List Step} {w w₁ w₂ : World κ}

theorem append (h : Step.AllSucceed x agent steps w w₁) (hrest : Step.AllSucceed x agent rest w₁ w₂) :
    Step.AllSucceed x agent (steps ++ rest) w w₂ := by
  unfold Step.AllSucceed at *
  rw [Step.executeEach_append, h, hrest, List.map_append]

theorem noted (h : Step.AllSucceed x agent steps w w₁) (note : Option CommandRecord) :
    Step.AllSucceed x agent steps (w.noted note) (w₁.noted note) := by
  induction steps generalizing w with
  | nil =>
    obtain rfl : w = w₁ := congrArg Prod.snd h
    rfl
  | cons s rest ih =>
    obtain ⟨w', hs, hrest⟩ := h.uncons
    exact (ih hrest).cons (by rw [Program.run_noted, hs])

theorem unique (h : Step.AllSucceed x agent steps w w₁) (h' : Step.AllSucceed x agent steps w w₂) :
    w₁ = w₂ := congrArg Prod.snd (h.symm.trans h')

end Step.AllSucceed

/-- The job has been brought from step `start` to step `n`, each step before having
succeeded. -/
structure Advance (x : Hosts κ) (agent : String) (job : Job) (start : Nat) (w : World κ)
    (n : Nat) (w' : World κ) (before : List Step) : Prop where
  reached : start + before.length = n
  inside : n < job.steps.length
  cut : job.steps.drop start = before ++ job.steps.drop n
  succeed : Step.AllSucceed x agent before w w'

namespace Advance

variable {x : Hosts κ} {agent : String} {job : Job} {start n m : Nat} {w w₁ w₂ : World κ}
  {before rest : List Step} {v : Option Verdict}

theorem refl (h : n < job.steps.length) : Advance x agent job n w n w [] := ⟨rfl, h, rfl, rfl⟩

theorem trans (a : Advance x agent job start w n w₁ before)
    (b : Advance x agent job n w₁ m w₂ rest) :
    Advance x agent job start w m w₂ (before ++ rest) where
  reached := by rw [List.length_append, ← Nat.add_assoc, a.reached, b.reached]
  inside := b.inside
  cut := by rw [a.cut, b.cut, List.append_assoc]
  succeed := a.succeed.append b.succeed

theorem noted (a : Advance x agent job start w n w₁ before) (note : Option CommandRecord) :
    Advance x agent job start (w.noted note) n (w₁.noted note) before :=
  ⟨a.reached, a.inside, a.cut, a.succeed.noted note⟩

/-- A course from where the job has come to is the end of one from the start. -/
theorem course (a : Advance x agent job start w n w₁ before)
    (c : Course x agent job.transition n (job.steps.drop n) w₁ v w₂) :
    Course x agent job.transition start (job.steps.drop start) w
      (v.map (·.afterAll start job.transition before)) w₂ := by
  obtain ⟨rfl, _, hcut, hbefore⟩ := a
  rw [hcut]
  exact c.after_successes hbefore

theorem start_lt (a : Advance x agent job start w n w₁ before) : start < job.steps.length :=
  Nat.lt_of_le_of_lt (a.reached ▸ Nat.le_add_right start before.length) a.inside

theorem rest_ne_nil (a : Advance x agent job start w n w₁ before) : job.steps.drop n ≠ [] := by
  have hinside := a.inside
  simpa using hinside

/-- The steps that have succeeded are told by where they begin and end. -/
theorem before_eq (a : Advance x agent job start w n w₁ before) :
    before = (job.steps.drop start).take (n - start) := by
  rw [a.cut, ← a.reached, Nat.add_sub_cancel_left, List.take_left]

/-- A course that halts at some step has advanced to it. -/
theorem of_cut (h : job.steps.drop start = before ++ rest) (hrest : rest ≠ [])
    (hbefore : Step.AllSucceed x agent before w w₁) :
    Advance x agent job start w (start + before.length) w₁ before := by
  have hdrop : job.steps.drop (start + before.length) = rest := by
    rw [← List.drop_drop, h, List.drop_left]
  refine ⟨rfl, Nat.lt_of_not_le fun hle => hrest ?_, by rw [hdrop, h], hbefore⟩
  rw [← hdrop, List.drop_eq_nil_of_le hle]

end Advance

/-! ### What is committed -/

/-- No step that has others after it is final, if none is misplaced. -/
theorem Job.not_final_of_misplaced? {i : Nat} {before rest : List Step}
    (h : Job.misplaced? i (before ++ rest) = none) (hrest : rest ≠ []) :
    ∀ s ∈ before, s.isFinal = false := by
  induction before generalizing i with
  | nil => exact nofun
  | cons s before ih =>
    obtain ⟨s', rest', hs'⟩ := List.exists_cons_of_ne_nil (List.append_ne_nil_of_right_ne_nil before hrest)
    rw [List.cons_append, hs', Job.misplaced?] at h
    · split at h
      · cases h
      · rename_i hs
        rw [← hs'] at h
        exact List.forall_mem_cons.mpr ⟨by simpa using hs, ih h⟩
    · exact nofun

theorem Job.not_final_of_valid {job : Job} (valid : job.invalid? = none) {before rest : List Step}
    (hsteps : job.steps = before ++ rest) (hrest : rest ≠ []) : ∀ s ∈ before, s.isFinal = false := by
  have hmisplaced : Job.misplaced? 0 job.steps = none := by
    unfold Job.invalid? at valid
    split at valid
    · cases valid
    · exact valid
  rw [hsteps] at hmisplaced
  exact not_final_of_misplaced? hmisplaced hrest

/-- A valid job commits nothing until its last step. -/
theorem Advance.not_final {x : Hosts κ} {agent : String} {job : Job} {start n : Nat} {w w₁ : World κ}
    {before : List Step} (valid : job.invalid? = none)
    (a : Advance x agent job start w n w₁ before) : ∀ s ∈ before, s.isFinal = false := by
  have hsteps : job.steps = (job.steps.take start ++ before) ++ job.steps.drop n := by
    rw [List.append_assoc, ← a.cut, List.take_append_drop]
  exact fun s hs =>
    Job.not_final_of_valid valid hsteps a.rest_ne_nil s (List.mem_append_right _ hs)

/-! ### Where a pass stands when it ends -/

/-- The records of the steps that succeeded. -/
def Report.successes (r : Report) : List Pass.StepRecord :=
  r.steps.filter (fun s => s.outcome == .succeeded)

/-- The successes are those before the first step that did not succeed. -/
theorem Report.successes_eq {r : Report} {start : Nat} {before : List Step}
    {others : List Pass.StepRecord} (h : r.steps = records .succeeded start before ++ others)
    (hothers : ∀ s ∈ others, s.outcome ≠ .succeeded) :
    r.successes = records .succeeded start before := by
  unfold successes
  rw [h, List.filter_append, Pass.filter_records_of_pos (p := (· == .succeeded)) rfl,
    List.filter_eq_nil_iff.mpr fun s hs => by simpa using hothers s hs, List.append_nil]

section

variable {x : Hosts κ} {u : Watch κ τ} {t : τ} {agent : String} {job : Job} {start : Nat}
  {w w' : World κ} {r : Report}

/-- A report is that of a rejected pass or of a course. -/
theorem Pass.course_of_report (h : Pass.under x u t agent job start w = (some r, w')) :
    (job.steps.length ≤ start ∧
      r = ⟨job.id, .rejected (Pass.rejection start job.steps.length), [], none, none⟩ ∧
      w' = w.clearNote) ∨
    ∃ v, start < job.steps.length ∧ r = Pass.report job v w'.lastCommand ∧
      Course x agent job.transition start (job.steps.drop start) w.clearNote (some v) w' := by
  by_cases hstart : job.steps.length ≤ start
  · rw [Pass.under_rejected x u t agent job start w hstart] at h
    cases h
    exact .inl ⟨hstart, rfl, rfl⟩
  · obtain ⟨v, w₁, hunder, course⟩ := Pass.under_ran x u t agent job start w hstart
    rw [hunder, Prod.mk.injEq, Option.map_eq_some_iff] at h
    obtain ⟨⟨v, rfl, rfl⟩, rfl⟩ := h
    exact .inr ⟨v, Nat.lt_of_not_le hstart, rfl, course⟩

/-- A pass that was paused has brought the job to where it was paused. -/
theorem Pass.advance_of_paused {n : Nat} (h : Pass.under x u t agent job start w = (some r, w'))
    (hr : r.state = .paused n) :
    ∃ before, Advance x agent job start w.clearNote n w' before ∧
      r.successes = records .succeeded start before ∧ r.lastCommand = w'.lastCommand := by
  rcases Pass.course_of_report h with ⟨_, rfl, _⟩ | ⟨v, _, rfl, course⟩
  · cases hr
  obtain ⟨before, rest, w₁, v, hdrop, hbefore, hhalt, rfl⟩ := course.cut_verdict
  obtain ⟨rfl, rfl, hrest, _⟩ := hhalt.of_paused ((Verdict.afterAll_state _ _ _ v).symm.trans hr)
  exact ⟨before, Advance.of_cut hdrop hrest hbefore,
    Report.successes_eq (Verdict.afterAll_steps _ _ _ v) hhalt.halts.unsucceeded, rfl⟩

/-- A pass that ended in error has brought the job to the step that failed, and the store
is as it was there. -/
theorem Pass.advance_of_errored {f : Nat} (h : Pass.under x u t agent job start w = (some r, w'))
    (hr : r.state = .errored f) :
    ∃ before w₁, Advance x agent job start w.clearNote f w₁ before ∧ w'.store = w₁.store ∧
      r.successes = records .succeeded start before := by
  rcases Pass.course_of_report h with ⟨_, rfl, _⟩ | ⟨v, _, rfl, course⟩
  · cases hr
  obtain ⟨before, rest, w₁, v, hdrop, hbefore, hhalt, rfl⟩ := course.cut_verdict
  have unsucceeded := hhalt.halts.unsucceeded
  obtain ⟨rfl, s, rest, e, rfl, hs, _⟩ :=
    hhalt.of_errored ((Verdict.afterAll_state _ _ _ v).symm.trans hr)
  refine ⟨before, w₁, Advance.of_cut hdrop (List.cons_ne_nil s rest) hbefore, ?_,
    Report.successes_eq (Verdict.afterAll_steps _ _ _ v) unsucceeded⟩
  have hstore : ((s.program agent).run x.alone w₁).2.store = w₁.store := by
    refine Step.store_of_run_ne_done ?_
    rw [hs]
    exact nofun
  rw [hs] at hstore
  exact hstore

end

/-! ### Chains of paused passes -/

/-- The last command of the latest pass that sent one. -/
def Report.latestCommand (rs : List Report) : Option CommandRecord :=
  rs.reverse.findSome? Report.lastCommand

theorem Report.latestCommand_cons (r : Report) (rs : List Report) :
    latestCommand (r :: rs) = (latestCommand rs <|> r.lastCommand) := by
  unfold latestCommand
  rw [List.reverse_cons, List.findSome?_append]
  cases rs.reverse.findSome? Report.lastCommand <;> cases h : r.lastCommand <;> simp [h]

theorem Report.latestCommand_append (rs : List Report) (r : Report) :
    latestCommand (rs ++ [r]) = (r.lastCommand <|> latestCommand rs) := by
  unfold latestCommand
  rw [List.reverse_append]
  cases h : r.lastCommand <;> simp [h]

/-- Passes over a job, each under a watch of its own and started where the one before was
paused. The next pass is to start at step `n`. -/
inductive PausedPasses (x : Hosts κ) (agent : String) (job : Job) :
    Nat → World κ → List Report → Nat → World κ → Prop
  | nil (start : Nat) (w : World κ) : PausedPasses x agent job start w [] start w
  | cons {start next n : Nat} {w w₁ w₂ : World κ} {r : Report} {rs : List Report} {τ : Type}
    (u : Watch κ τ) (t : τ) (h : Pass.under x u t agent job start w = (some r, w₁))
    (paused : r.state = .paused next) (rest : PausedPasses x agent job next w₁ rs n w₂) :
    PausedPasses x agent job start w (r :: rs) n w₂

section

variable {x : Hosts κ} {agent : String} {job : Job} {start n : Nat} {w w₁ : World κ}
  {rs : List Report}

/-- **A chain of passes advances through the job**, as if there were one note of the last
command for all of them. -/
theorem PausedPasses.advance (c : PausedPasses x agent job start w rs n w₁)
    (hstart : start < job.steps.length) :
    ∃ before, Advance x agent job start w.clearNote n
        (w₁.clearNote.noted (Report.latestCommand rs)) before ∧
      rs.flatMap Report.successes = records .succeeded start before := by
  induction c with
  | nil start w => exact ⟨[], Advance.refl hstart, rfl⟩
  | @cons start next n w w₁ w₂ r rs τ u t h paused rest ih =>
    obtain ⟨before, a, hsuccesses, hnote⟩ := Pass.advance_of_paused h paused
    obtain ⟨before', a', hsuccesses'⟩ := ih a.inside
    have a'' := a'.noted w₁.lastCommand
    rw [World.clearNote_noted, World.noted_noted, ← hnote, ← Report.latestCommand_cons] at a''
    refine ⟨before ++ before', a.trans a'', ?_⟩
    rw [List.flatMap_cons, hsuccesses, hsuccesses', Pass.records_append, a.reached]

/-- Every pause is before a step of the job. -/
theorem PausedPasses.inside (c : PausedPasses x agent job start w rs n w₁) :
    ∀ r ∈ rs, ∃ m, r.state = .paused m ∧ start ≤ m ∧ m < job.steps.length := by
  induction c with
  | nil => exact nofun
  | cons u t h paused rest ih =>
    obtain ⟨before, a, _⟩ := Pass.advance_of_paused h paused
    refine List.forall_mem_cons.mpr ⟨⟨_, paused, ?_, a.inside⟩, fun r hr => ?_⟩
    · exact a.reached ▸ Nat.le_add_right _ _
    · obtain ⟨m, hm, hle, hlt⟩ := ih r hr
      exact ⟨m, hm, Nat.le_trans (a.reached ▸ Nat.le_add_right _ _) hle, hlt⟩

end

/-! ### Watches -/

/-- A watch that pauses the job once it has looked so many times. -/
def Watch.pauseAfter : Watch κ Nat where
  heard _ t _ _ := t
  flags t := (⟨t == 0, false⟩, t - 1)

/-- A pass may be paused before any step that it gets to. -/
theorem Pass.paused_at {x : Hosts κ} {agent : String} (transition : Option Job.Transition)
    (i : Nat) {before rest : List Step} {w w₁ : World κ}
    (hbefore : Step.AllSucceed x agent before w w₁) (hrest : rest ≠ []) :
    ∃ v, v.state = .paused (i + before.length) ∧
      (Pass.stepsProgram agent transition i (before ++ rest)).run (x.watched .pauseAfter)
        (w.beside before.length) = (.done v, w₁.beside 0) := by
  induction before generalizing i w with
  | nil =>
    obtain ⟨s, rest, rfl⟩ := List.exists_cons_of_ne_nil hrest
    obtain rfl : w = w₁ := congrArg Prod.snd hbefore
    exact ⟨.stopped (.paused i) .paused i (s :: rest), rfl, rfl⟩
  | cons s before ih =>
    obtain ⟨w', hs, hbefore⟩ := hbefore.uncons
    obtain ⟨v, hv, hrun⟩ := ih (i + 1) hbefore
    refine ⟨v.after i s transition, ?_, ?_⟩
    · have hi : i + (s :: before).length = i + 1 + before.length := by
        rw [List.length_cons]
        omega
      rw [hi]
      exact hv
    · have hlook : (w.beside (before.length + 1)).look (x.watched .pauseAfter) =
          (.unset, w.beside before.length) := rfl
      have hstep := s.run_unheard agent x (v := .pauseAfter) (fun _ _ _ _ => rfl) w before.length
      rw [hs] at hstep
      rw [List.length_cons, List.cons_append, Pass.run_stepsProgram_cons, hlook]
      simp only [Job.Control.unset, Bool.false_eq_true, if_false, hstep, hrun]

/-- No flag ends a pass that is never shown one. -/
theorem Pass.stepsProgram_uninterrupted {σ : Type} {o : Outside σ}
    (unset : ∀ s, (o.look s).1 = .unset) {agent : String} {transition : Option Job.Transition}
    {i : Nat} {steps : List Step} {w w' : World σ} {v : Verdict}
    (h : (Pass.stepsProgram agent transition i steps).run o w = (.done v, w')) :
    v.state.interrupted = false := by
  induction steps generalizing i w v with
  | nil =>
    cases h
    rfl
  | cons s rest ih =>
    have hlook : (w.look o).1 = .unset := unset w.outside
    rw [Pass.run_stepsProgram_cons, hlook] at h
    simp only [Job.Control.unset, Bool.false_eq_true, if_false] at h
    rcases hs : (s.program agent).run o (w.look o).2 with ⟨⟨⟩ | e | _, w₁⟩
    · rw [hs] at h
      dsimp only at h
      rcases hrest : (Pass.stepsProgram agent transition (i + 1) rest).run o w₁ with ⟨v' | e | _, w₂⟩
      · rw [hrest] at h
        cases h
        have hv := ih hrest
        exact hv
      · exact e.elim
      · rw [hrest] at h
        cases h
    · rw [hs] at h
      cases h
      rfl
    · rw [hs] at h
      cases h

theorem Pass.uninterrupted {x : Hosts κ} {u : Watch κ τ} (unset : ∀ t, (u.flags t).1 = .unset)
    {t : τ} {agent : String} {job : Job} {start : Nat} {w w' : World κ} {r : Report}
    (h : Pass.under x u t agent job start w = (some r, w')) : r.state.interrupted = false := by
  by_cases hstart : job.steps.length ≤ start
  · rw [Pass.under_rejected x u t agent job start w hstart] at h
    cases h
    rfl
  · rw [Pass.under_eq x u t agent job start w hstart] at h
    obtain ⟨v, hv, rfl⟩ := Option.map_eq_some_iff.mp (Prod.mk.inj h).1
    have hverdict := Pass.stepsProgram_uninterrupted (fun s => unset s.2)
      (Prod.ext (Ending.eq_done hv) rfl)
    exact hverdict

/-! ### Resuming -/

/-- The pass that goes on after a chain has a report, and unless a flag ends it, it is the end
of the one pass over the same steps that no flag ends. -/
theorem PausedPasses.resume {x : Hosts κ} {agent : String} {job : Job} (valid : job.invalid? = none)
    {start n : Nat} {w w₁ w' : World κ} {rs : List Report} {v : Verdict}
    (chain : PausedPasses x agent job start w rs n w₁) (hstart : start < job.steps.length)
    (course : Course x agent job.transition start (job.steps.drop start) w.clearNote (some v) w')
    (hv : v.state.interrupted = false) (u : Watch κ τ) (t : τ) :
    ∃ v₂ w₂, Pass.under x u t agent job n w₁ = (some (Pass.report job v₂ w₂.lastCommand), w₂) ∧
      (∀ reason, v₂.state ≠ .rejected reason) ∧
      (v₂.state.interrupted = false →
        w' = w₂.noted (Report.latestCommand rs) ∧
        v.steps = rs.flatMap Report.successes ++ v₂.steps ∧
        v.state = v₂.state ∧ v.committed = v₂.committed) := by
  obtain ⟨before, a, hsuccesses⟩ := chain.advance hstart
  obtain ⟨v₂, w₂, hunder, last⟩ :=
    Pass.under_ran x u t agent job n w₁ (Nat.not_le.mpr a.inside)
  have joined := a.course (last.noted (Report.latestCommand rs))
  -- the chain and its last pass make up the same course, unless a flag ended that
  have same (h : Uninterrupted (v₂.map (·.afterAll start job.transition before))) :=
    course.unique (fun u hu => Option.some.inj hu ▸ hv) joined h
  cases v₂ with
  | none => cases (same nofun).1
  | some v₂ =>
    refine ⟨v₂, w₂, hunder, ?_, fun h => ?_⟩
    · obtain ⟨k, tail, _, hdecides⟩ := last.tells.decides
      exact hdecides.ran
    · obtain ⟨hverdict, hworld⟩ := same fun u hu => by
        cases hu
        rw [Verdict.afterAll_state]
        exact h
      cases hverdict
      refine ⟨hworld, ?_, Verdict.afterAll_state _ _ _ _, ?_⟩
      · rw [Verdict.afterAll_steps, hsuccesses]
      · exact Verdict.afterAll_committed _ _ _ _ (a.not_final valid)

/-- A pass that ended in error could have been paused before the step that failed. -/
theorem Advance.pausing {x : Hosts κ} {agent : String} {job : Job} {start n : Nat} {w w₁ : World κ}
    {before : List Step} (a : Advance x agent job start w.clearNote n w₁ before) :
    ∃ r, Pass.under x .pauseAfter before.length agent job start w = (some r, w₁) ∧
      r.state = .paused n := by
  obtain ⟨v, hv, hrun⟩ := Pass.paused_at job.transition start a.succeed a.rest_ne_nil
  refine ⟨Pass.report job v w₁.lastCommand, ?_, ?_⟩
  · rw [Pass.under_eq _ _ _ _ _ _ _ (Nat.not_le.mpr a.start_lt), a.cut, hrun]
    rfl
  · rw [← a.reached]
    exact hv

/-- Paused passes and a last one report and leave behind together what one pass does. -/
structure Report.Join (paused : List Report) (last : Report) (w : World κ) (whole : Report)
    (w' : World κ) : Prop where
  store : w.store = w'.store
  sent : w.sent = w'.sent
  outside : w.outside = w'.outside
  steps : paused.flatMap Report.successes ++ last.steps = whole.steps
  state : last.state = whole.state
  committed : last.committed = whole.committed
  lastCommand : Report.latestCommand (paused ++ [last]) = whole.lastCommand

/-- **It cannot be told from what a job does whether it was paused and gone on with.** Take
a pass that no flag ends. Passes over the same job that are paused, wherever that is, and
gone on with come to the same: every pause is before a step of the job, the next pass has
something to run and a report, and once no flag ends it, all of them join to the one pass.
If that ends in error, the store is as the steps before have left it, so a pass from the
step that failed does what it would do had the job been paused there, whatever hosts it
meets. -/
theorem resuming_is_invisible (x : Hosts κ) (agent : String) (job : Job)
    (valid : job.invalid? = none) (start : Nat) (w : World κ) (u : Watch κ τ) (t : τ)
    (whole : Report) (w' : World κ)
    (ran : Pass.under x u t agent job start w = (some whole, w'))
    (uninterrupted : whole.state.interrupted = false) :
    (∀ (paused : List Report) (n : Nat) (w₁ : World κ),
      PausedPasses x agent job start w paused n w₁ →
      (∀ r ∈ paused, ∃ m, r.state = .paused m ∧ start ≤ m ∧ m < job.steps.length) ∧
      ∀ (τ' : Type) (u' : Watch κ τ') (t' : τ'),
        ∃ last w₂, Pass.under x u' t' agent job n w₁ = (some last, w₂) ∧
          (paused ≠ [] → ∀ reason, last.state ≠ .rejected reason) ∧
          ((∀ t, (u'.flags t).1 = .unset) → last.state.interrupted = false) ∧
          (last.state.interrupted = false → Report.Join paused last w₂ whole w')) ∧
    ∀ f, whole.state = .errored f →
      w'.store = (Step.executeEach x agent
        (whole.successes.filterMap fun s => job.steps[s.index]?) w.clearNote).2.store ∧
      (∃ (u' : Watch κ Nat) (t' : Nat) (r : Report) (w₁ : World κ),
        Pass.under x u' t' agent job start w = (some r, w₁) ∧ r.state = .paused f) ∧
      ∀ (paused : List Report) (w₁ : World κ), PausedPasses x agent job start w paused f w₁ →
        w'.store = w₁.store ∧
        ∀ (κ' τ' : Type) (y : Hosts κ') (k : κ') (u' : Watch κ' τ') (t' : τ'),
          Pass.under y u' t' agent job f (World.start w'.store k) =
            Pass.under y u' t' agent job f (World.start w₁.store k) := by
  refine ⟨fun paused n w₁ chain => ⟨chain.inside, fun τ' u' t' => ?_⟩, fun f hf => ?_⟩
  · rcases Pass.course_of_report ran with ⟨hstart, rfl, rfl⟩ | ⟨v, hstart, rfl, course⟩
    · -- nothing to run: then no pass was paused, and the last one has nothing to run either
      cases chain with
      | cons u t h paused rest =>
        obtain ⟨before, a, _⟩ := Pass.advance_of_paused h paused
        exact absurd a.start_lt (Nat.not_lt.mpr hstart)
      | nil =>
        refine ⟨_, _, Pass.under_rejected x u' t' agent job start w hstart, nofun, fun _ => rfl, ?_⟩
        exact fun _ => ⟨rfl, rfl, rfl, rfl, rfl, rfl, rfl⟩
    · obtain ⟨v₂, w₂, hunder, hran, hsame⟩ := chain.resume valid hstart course uninterrupted u' t'
      refine ⟨_, w₂, hunder, fun _ => hran, fun unset => Pass.uninterrupted unset hunder, fun h => ?_⟩
      obtain ⟨rfl, hsteps, hstate, hcommitted⟩ := hsame h
      refine ⟨rfl, rfl, rfl, hsteps.symm, hstate.symm, hcommitted.symm, ?_⟩
      exact Report.latestCommand_append paused _
  · obtain ⟨before, w₀, a, hstore, hsuccesses⟩ := Pass.advance_of_errored ran hf
    have hbefore : whole.successes.filterMap (fun s => job.steps[s.index]?) = before := by
      rw [job.steps_of_records (i := start) (n := before.length), a.cut, List.take_left]
      rw [hsuccesses, Pass.records_index]
    refine ⟨?_, ?_, fun paused w₁ chain => ?_⟩
    · rw [hbefore, a.succeed, hstore]
    · obtain ⟨r, hr⟩ := a.pausing
      exact ⟨_, _, r, w₀, hr⟩
    · obtain ⟨before', b, _⟩ := chain.advance a.start_lt
      have hsame : w'.store = w₁.store := by
        obtain rfl : before = before' := a.before_eq.trans b.before_eq.symm
        rw [hstore, a.succeed.unique b.succeed]
        rfl
      exact ⟨hsame, fun κ' τ' y k u' t' => by rw [hsame]⟩

/-- A job is paused before the step that is to fail, and gone on with. -/
theorem resumed_before_a_failure :
    let x : Hosts Nat := ⟨fun k _ _ => (.ok ⟨1, "", ""⟩, k + 1)⟩
    let job : Job := ⟨7, "", none, [⟨.confParamVersion ⟨1⟩ 5, false⟩, ⟨.startLnet ⟨3⟩, true⟩]⟩
    let w := World.start (Store.ofInventory
      { hosts := [⟨⟨3⟩, "oss", none, none, .down, none, []⟩], mgs := [⟨⟨1⟩, 2⟩] }) 0
    job.invalid? = none ∧ ∃ whole w', Pass.under x .idle () "agent" job 0 w = (some whole, w') ∧
      whole.state = .errored 1 ∧
      ∃ r w₁, Pass.under x .pauseAfter 1 "agent" job 0 w = (some r, w₁) ∧ r.state = .paused 1 ∧
        w'.store = w₁.store ∧
        ∃ last w₂, Pass.under x .idle () "agent" job 1 w₁ = (some last, w₂) ∧
          Report.Join [r] last w₂ whole w' := by
  intro x job w
  have valid : job.invalid? = none := rfl
  obtain ⟨whole, w', hwhole, herrored⟩ : ∃ whole w',
      Pass.under x .idle () "agent" job 0 w = (some whole, w') ∧ whole.state = .errored 1 :=
    ⟨_, _, rfl, rfl⟩
  obtain ⟨r, w₁, hr, hpaused⟩ : ∃ r w₁,
      Pass.under x .pauseAfter 1 "agent" job 0 w = (some r, w₁) ∧ r.state = .paused 1 :=
    ⟨_, _, rfl, rfl⟩
  have chain : PausedPasses x "agent" job 0 w [r] 1 w₁ := .cons .pauseAfter 1 hr hpaused (.nil 1 w₁)
  obtain ⟨resumed, errored⟩ := resuming_is_invisible x "agent" job valid 0 w .idle () whole w' hwhole
    (by rw [herrored]; rfl)
  obtain ⟨last, w₂, hlast, _, hidle, hjoin⟩ := (resumed [r] 1 w₁ chain).2 Unit .idle ()
  have hstore := ((errored 1 herrored).2.2 [r] w₁ chain).1
  exact ⟨valid, whole, w', hwhole, herrored, r, w₁, hr, hpaused, hstore, last, w₂, hlast,
    hjoin (hidle fun _ => rfl)⟩

end FleetJobs
