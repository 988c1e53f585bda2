import FleetJobs.Proofs.PassCourse

/-! What a report tells of the pass that it is on.

`report_tells_pass`: the records of a report are the steps of the job from where the
pass started, some successes first and then what the state says. The steps that were
attempted are those whose records say so: the pass leaves the world as if these, and no
others, had been run once each and in order. A pass that was to start past the last step
reports nothing and does nothing. -/
namespace FleetJobs

open FleetJobs.Step (Failure Outcome)

variable {κ τ : Type}

/-! ### Outcomes of attempts -/

namespace Step.Outcome

/-- The step went wrong. -/
def isFailure : Outcome → Bool
  | cleanFailed _ | dirtyFailed _ | failed _ => true
  | _ => false

/-- The step was run, for better or worse. -/
def attempted (o : Outcome) : Bool := o == succeeded || o.isFailure

/-- What a report says of a step that ended so. -/
def ofEnding? : Ending Failure Unit → Option Outcome
  | .done () => some succeeded
  | .failed e => some (ofFailure e)
  | .exhausted => none

@[simp] theorem isFailure_ofFailure (e : Failure) : (ofFailure e).isFailure = true := by
  cases e <;> rfl

@[simp] theorem attempted_ofFailure (e : Failure) : (ofFailure e).attempted = true := by
  simp [attempted]

end Step.Outcome

/-! ### What a verdict tells -/

namespace Pass

/-- The state of a pass says what became of the steps from `i` on, the first that did not
succeed. -/
structure State.Decides (state : State) (i : Nat) (outcomes : List Outcome) : Prop where
  complete : state = .complete ↔ outcomes = []
  paused : ∀ n, state = .paused n ↔ n = i ∧ outcomes ≠ [] ∧ ∀ o ∈ outcomes, o = .paused
  aborted : state = .aborted ↔ outcomes ≠ [] ∧ ∀ o ∈ outcomes, o = .aborted
  errored : ∀ f, state = .errored f ↔ f = i ∧
    ∃ o rest, outcomes = o :: rest ∧ o.isFailure = true ∧ ∀ o' ∈ rest, o' = .notRun
  ran : ∀ reason, state ≠ .rejected reason

namespace State

variable {i : Nat}

theorem decides_complete : Decides .complete i [] := by
  constructor <;> simp

/-- All that is left is paused. -/
theorem decides_paused (n : Nat) : Decides (.paused i) i (.paused :: List.replicate n .paused) where
  complete := by simp
  paused := by
    intro n
    constructor
    · rintro ⟨⟩
      exact ⟨rfl, List.cons_ne_nil _ _, by simp⟩
    · rintro ⟨rfl, _⟩
      rfl
  aborted := by simp
  errored := by simp [Outcome.isFailure]
  ran := by simp

/-- All that is left is aborted. -/
theorem decides_aborted (n : Nat) :
    Decides .aborted i (.aborted :: List.replicate n .aborted) where
  complete := by simp
  paused := by simp
  aborted := by simp
  errored := by simp [Outcome.isFailure]
  ran := by simp

/-- One step has failed, and those after it are not run. -/
theorem decides_errored {o : Outcome} (ho : o.isFailure = true) (n : Nat) :
    Decides (.errored i) i (o :: List.replicate n .notRun) where
  complete := by simp
  paused := by
    refine fun n => ⟨nofun, fun h => ?_⟩
    obtain rfl := h.2.2 o List.mem_cons_self
    cases ho
  aborted := by
    refine ⟨nofun, fun h => ?_⟩
    obtain rfl := h.2 o List.mem_cons_self
    cases ho
  errored := by
    intro f
    constructor
    · rintro ⟨⟩
      exact ⟨rfl, o, _, rfl, ho, fun o' ho' => List.eq_of_mem_replicate ho'⟩
    · rintro ⟨rfl, _⟩
      rfl
  ran := by simp

end State

/-- A verdict tells of the steps from `i` on, none of which succeeded, what was done. -/
structure Verdict.Tells (x : Hosts κ) (agent : String) (i : Nat) (steps : List Step) (w : World κ)
    (v : Verdict) (w' : World κ) : Prop where
  indices : v.steps.map (·.index) = List.range' i steps.length
  names : v.steps.map (·.name) = steps.map Step.name
  decides : v.state.Decides i (v.steps.map (·.outcome))
  /-- A first few steps, if any, were attempted. -/
  executed : ∃ tried endings, tried <+: steps ∧
    (v.steps.filter (·.outcome.attempted)).map (·.index) = List.range' i tried.length ∧
    Step.executeEach x agent tried w = (endings, w') ∧
    endings.map Outcome.ofEnding? =
      ((v.steps.filter (·.outcome.attempted)).map (·.outcome)).map some

/-- A flag stops a pass before anything is attempted. -/
theorem Verdict.tells_stopped {x : Hosts κ} {agent : String} {i : Nat} {w : World κ} {state : State}
    {o : Outcome} (ho : o.attempted = false) {s : Step} {rest : List Step}
    (hd : state.Decides i (o :: List.replicate rest.length o)) :
    (stopped state o i (s :: rest)).Tells x agent i (s :: rest) w w where
  indices := records_index o i (s :: rest)
  names := records_name o i (s :: rest)
  decides := (records_outcome o i (s :: rest)).symm ▸ hd
  executed := by
    have hnone : (stopped state o i (s :: rest)).steps.filter (·.outcome.attempted) = [] :=
      filter_records_of_neg ho
    rw [hnone]
    exact ⟨[], [], List.nil_prefix, rfl, rfl, rfl⟩

theorem Verdict.tells_failedAt {x : Hosts κ} {agent : String} {i : Nat} {s : Step} {w w' : World κ}
    {e : Failure} (h : (s.program agent).run x.alone w = (.failed e, w')) (rest : List Step) :
    (failedAt i s (.ofFailure e) rest).Tells x agent i (s :: rest) w w' := by
  have hsteps : (failedAt i s (.ofFailure e) rest).steps =
    ⟨i, s.name, .ofFailure e⟩ :: records .notRun (i + 1) rest := rfl
  have htried : (failedAt i s (.ofFailure e) rest).steps.filter (·.outcome.attempted) =
      [⟨i, s.name, .ofFailure e⟩] := by
    rw [hsteps, List.filter_cons_of_pos (by simp), filter_records_of_neg rfl]
  constructor
  · rw [hsteps, List.map_cons, records_index, List.length_cons, List.range'_succ]
  · rw [hsteps, List.map_cons, records_name, List.map_cons]
  · rw [hsteps, List.map_cons, records_outcome]
    exact State.decides_errored (Outcome.isFailure_ofFailure e) rest.length
  · rw [htried]
    refine ⟨[s], [.failed e], List.prefix_append [s] rest, rfl, ?_, rfl⟩
    simp [Step.executeEach, h]

end Pass

open FleetJobs.Pass (State Verdict records)

/-- What a halt makes of the remaining steps. -/
theorem Halt.tells {x : Hosts κ} {agent : String} {i : Nat} {steps : List Step} {w w' : World κ}
    {v : Verdict} (h : Halt x agent i steps w (some v) w') : v.Tells x agent i steps w w' := by
  cases h with
  | finished => exact ⟨rfl, rfl, State.decides_complete, [], [], List.nil_prefix, rfl, rfl, rfl⟩
  | aborted s rest => exact Verdict.tells_stopped rfl (State.decides_aborted rest.length)
  | paused s rest => exact Verdict.tells_stopped rfl (State.decides_paused rest.length)
  | failed rest h => exact Verdict.tells_failedAt h rest

/-! ### What a report tells -/

/-- The records of the steps that were run, for better or worse. -/
def Report.attempts (r : Report) : List Pass.StepRecord := r.steps.filter (·.outcome.attempted)

/-- A report on a pass from step `start` on tells what the pass did to the world. -/
structure Report.Tells (x : Hosts κ) (agent : String) (job : Job) (start : Nat) (w : World κ)
    (r : Report) (w' : World κ) : Prop where
  jobId : r.jobId = job.id
  indices : r.steps.map (·.index) = List.range' start (job.steps.length - start)
  names : r.steps.map (·.name) = (job.steps.drop start).map Step.name
  /-- Some steps succeeded, and the state tells of the others. -/
  decides : ∃ k tail, r.steps.map (·.outcome) = List.replicate k .succeeded ++ tail ∧
    r.state.Decides (start + k) tail
  failed : (∃ o, r.failure? = some o) ↔ ∃ f, r.state = .errored f
  failure : ∀ o, r.failure? = some o ↔
    ∃ f, r.state = .errored f ∧ ∃ s ∈ r.steps, s.index = f ∧ s.outcome = o
  /-- The steps with attempts on record, run one after another, do what the pass did. -/
  executed : ∃ endings,
    Step.executeEach x agent (r.attempts.filterMap fun s => job.steps[s.index]?) w = (endings, w') ∧
    endings.map Outcome.ofEnding? = (r.attempts.map (·.outcome)).map some
  lastCommand : r.lastCommand = w'.lastCommand

/-- No two records have the same index, so each is found by its own. -/
theorem Pass.find?_index {steps : List Pass.StepRecord} (h : (steps.map (·.index)).Nodup)
    {s : Pass.StepRecord} (hs : s ∈ steps) :
    steps.find? (fun s' => s'.index == s.index) = some s := by
  induction steps with
  | nil => cases hs
  | cons a rest ih =>
    obtain ⟨hnew, hrest⟩ := List.nodup_cons.mp h
    rcases List.mem_cons.mp hs with rfl | hs
    · simp
    · have hne : a.index ≠ s.index := fun he => hnew (List.mem_map.mpr ⟨s, hs, he.symm⟩)
      rw [List.find?_cons_of_neg (by simpa using hne)]
      exact ih hrest hs

theorem Report.outcome?_eq_some {r : Report} (h : (r.steps.map (·.index)).Nodup) {i : Nat}
    {o : Outcome} : r.outcome? i = some o ↔ ∃ s ∈ r.steps, s.index = i ∧ s.outcome = o := by
  unfold Report.outcome?
  rw [Option.map_eq_some_iff]
  constructor
  · rintro ⟨s, hs, rfl⟩
    exact ⟨s, List.mem_of_find?_eq_some hs, by simpa using List.find?_some hs, rfl⟩
  · rintro ⟨s, hs, rfl, rfl⟩
    exact ⟨s, Pass.find?_index h hs, rfl⟩

theorem Report.failure?_eq_some {r : Report} (h : (r.steps.map (·.index)).Nodup) {o : Outcome} :
    r.failure? = some o ↔
      ∃ f, r.state = .errored f ∧ ∃ s ∈ r.steps, s.index = f ∧ s.outcome = o := by
  unfold Report.failure?
  cases r.state with
  | errored f =>
    dsimp only
    rw [outcome?_eq_some h]
    constructor
    · exact fun hs => ⟨f, rfl, hs⟩
    · rintro ⟨_, ⟨⟩, hs⟩
      exact hs
  | _ => simp

/-- A pass that ended in error has a record of the failure. -/
theorem Report.exists_failure {r : Report} {start n k : Nat} {tail : List Outcome}
    (hindices : r.steps.map (·.index) = List.range' start n)
    (houtcomes : r.steps.map (·.outcome) = List.replicate k .succeeded ++ tail)
    (hd : r.state.Decides (start + k) tail) :
    (∃ o, r.failure? = some o) ↔ ∃ f, r.state = .errored f := by
  have hnodup : (r.steps.map (·.index)).Nodup := hindices ▸ List.nodup_range'
  constructor
  · rintro ⟨o, ho⟩
    obtain ⟨f, hf, _⟩ := (failure?_eq_some hnodup).mp ho
    exact ⟨f, hf⟩
  · rintro ⟨f, hf⟩
    obtain ⟨rfl, o, rest, rfl, _⟩ := (hd.errored f).mp hf
    -- the record after the successes is the one that the state points at
    have hk : (r.steps.map (·.outcome))[k]? = some o := by
      rw [houtcomes]
      simp
    rw [List.getElem?_map, Option.map_eq_some_iff] at hk
    obtain ⟨s, hs, rfl⟩ := hk
    have hindex : (r.steps.map (·.index))[k]? = some s.index := by
      rw [List.getElem?_map, hs]
      rfl
    rw [hindices, List.getElem?_eq_some_iff] at hindex
    obtain ⟨hk, hindex⟩ := hindex
    rw [List.getElem_range', Nat.one_mul] at hindex
    exact ⟨_, (failure?_eq_some hnodup).mpr
      ⟨_, hf, s, List.mem_of_getElem? hs, hindex.symm, rfl⟩⟩

/-- The steps looked up one by one from `i` on. -/
theorem Job.filterMap_range' (job : Job) (i n : Nat) :
    (List.range' i n).filterMap (fun j => job.steps[j]?) = (job.steps.drop i).take n := by
  induction n generalizing i with
  | zero => rfl
  | succ n ih =>
    rw [List.range'_succ]
    by_cases hi : i < job.steps.length
    · rw [List.filterMap_cons_some (List.getElem?_eq_getElem hi), ih, List.drop_eq_getElem_cons hi,
        List.take_succ_cons]
    · rw [List.filterMap_cons_none (List.getElem?_eq_none (by omega)), ih,
        List.drop_eq_nil_of_le (by omega), List.drop_eq_nil_of_le (by omega), List.take_nil,
        List.take_nil]

/-- Records with consecutive indices are records of consecutive steps. -/
theorem Job.steps_of_records (job : Job) {rs : List Pass.StepRecord} {i n : Nat}
    (h : rs.map (·.index) = List.range' i n) :
    rs.filterMap (fun s => job.steps[s.index]?) = (job.steps.drop i).take n := by
  rw [← filterMap_range', ← h, List.filterMap_map]
  rfl

/-- **A report on a course tells of it.** -/
theorem Course.tells {x : Hosts κ} {agent : String} {job : Job} {start : Nat} {w w' : World κ}
    {v : Verdict}
    (c : Course x agent job.transition start (job.steps.drop start) w (some v) w') :
    (Pass.report job v w'.lastCommand).Tells x agent job start w w' := by
  obtain ⟨before, rest, w₁, u, hdrop, hbefore, hhalt, hv⟩ := c.cut_verdict
  have ht := hhalt.tells
  have hsteps : v.steps = records .succeeded start before ++ u.steps := by
    rw [hv, Verdict.afterAll_steps]
  have hlength : job.steps.length - start = before.length + rest.length := by
    rw [← List.length_drop, hdrop, List.length_append]
  have hindices : v.steps.map (·.index) = List.range' start (job.steps.length - start) := by
    rw [hsteps, List.map_append, Pass.records_index, ht.indices, hlength, List.range'_append_1]
  have houtcomes : v.steps.map (·.outcome) =
      List.replicate before.length .succeeded ++ u.steps.map (·.outcome) := by
    rw [hsteps, List.map_append, Pass.records_outcome]
  have hdecides : v.state.Decides (start + before.length) (u.steps.map (·.outcome)) := by
    rw [hv, Verdict.afterAll_state]
    exact ht.decides
  refine ⟨rfl, hindices, ?_, ⟨_, _, houtcomes, hdecides⟩, ?_, fun o => ?_, ?_, rfl⟩
  · show v.steps.map (·.name) = (job.steps.drop start).map Step.name
    rw [hsteps, List.map_append, Pass.records_name, ht.names, ← List.map_append, hdrop]
  · exact Report.exists_failure hindices houtcomes hdecides
  · exact Report.failure?_eq_some (hindices ▸ List.nodup_range')
  · -- what was tried of the rest comes right after the successes
    obtain ⟨tried, endings, hprefix, htried, hrun, hendings⟩ := ht.executed
    have hattempts : v.steps.filter (·.outcome.attempted) =
        records .succeeded start before ++ u.steps.filter (·.outcome.attempted) := by
      rw [hsteps, List.filter_append, Pass.filter_records_of_pos rfl]
    have hindex : (v.steps.filter (·.outcome.attempted)).map (·.index) =
        List.range' start (before.length + tried.length) := by
      rw [hattempts, List.map_append, Pass.records_index, htried, List.range'_append_1]
    have hlookup : (job.steps.drop start).take (before.length + tried.length) = before ++ tried := by
      obtain ⟨untried, rfl⟩ := hprefix
      rw [hdrop, List.take_length_add_append, List.take_left]
    refine ⟨(before.map fun _ => .done ()) ++ endings, ?_, ?_⟩
    · show Step.executeEach x agent ((v.steps.filter (·.outcome.attempted)).filterMap
        fun s => job.steps[s.index]?) w = _
      rw [job.steps_of_records hindex, hlookup, Step.executeEach_append, hbefore, hrun]
    · show _ = ((v.steps.filter (·.outcome.attempted)).map (·.outcome)).map some
      rw [hattempts, List.map_append, List.map_append, List.map_append, hendings,
        Pass.records_outcome]
      simp [Function.comp_def, Outcome.ofEnding?, List.map_const']

/-- **A report tells what the pass did.** -/
theorem report_tells_pass (x : Hosts κ) (u : Watch κ τ) (t : τ) (agent : String) (job : Job)
    (start : Nat) (w : World κ) :
    (job.steps.length ≤ start → Pass.under x u t agent job start w =
      (some ⟨job.id, .rejected (Pass.rejection start job.steps.length), [], none, none⟩,
        w.clearNote)) ∧
    (start < job.steps.length →
      (∃ r w', Pass.under x u t agent job start w = (some r, w') ∧
        r.Tells x agent job start w.clearNote w') ∨
      ∃ before s rest w', Pass.under x u t agent job start w = (none, w') ∧
        job.steps.drop start = before ++ s :: rest ∧
        Step.executeEach x agent (before ++ [s]) w.clearNote =
          ((before.map fun _ => .done ()) ++ [.exhausted], w')) := by
  refine ⟨fun h => Pass.under_rejected x u t agent job start w h, fun h => ?_⟩
  obtain ⟨v, w', hunder, course⟩ := Pass.under_ran x u t agent job start w (Nat.not_le.mpr h)
  cases v with
  | some v => exact .inl ⟨_, w', hunder, course.tells⟩
  | none =>
    obtain ⟨before, rest, w₁, u, hdrop, hbefore, hhalt, hu⟩ := course.cut
    obtain rfl : u = none := Option.map_eq_none_iff.mp hu.symm
    cases hhalt with
    | @exhausted s rest _ _ hs =>
      refine .inr ⟨before, s, rest, w', hunder, hdrop, ?_⟩
      rw [Step.executeEach_append, hbefore]
      simp only [Step.executeEach, hs]

end FleetJobs
