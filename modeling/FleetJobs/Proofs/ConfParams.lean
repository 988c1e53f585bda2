import FleetJobs.Job.Catalogue
import FleetJobs.Proofs.PassCourse
import FleetJobs.Proofs.StepSuccess
import FleetJobs.Proofs.Tables

/-! Parameters that are set in order, and the version that is recorded for them.

Whether the directive of a parameter can be written hangs on records alone: they give its
key a name and tell its server (`Store.Directs`). A step that sets a parameter sends this
directive or nothing, and writes nothing (`run_applyConfParam`). So a pass over parameters
sends their directives in order up to one that fails or is held up, and the store stays as
it is until they have all been sent; only then the version is recorded
(`version_waits_for_parameters`). -/
namespace FleetJobs

open FleetJobs.Fleet
open FleetJobs.Gateway

variable {κ τ σ : Type}

/-! ### Directives -/

namespace Store

/-- The key of a parameter, behind the name of what the parameter applies to. -/
def Qualifies (s : Store) (p : ConfParam) (key : String) : Prop :=
  match p.scope with
  | .filesystem id => ∃ f, s.filesystems.find? id.key = some f ∧ key = f.name ++ "." ++ p.key
  | .target id => ∃ t, s.targets.find? id.key = some t ∧
    ∃ label, t.name = some label ∧ key = label ++ "." ++ p.key

/-- The host of the target's primary mount; of several that with the lowest number counts. -/
def PrimaryHost (s : Store) (target : TargetId) (host : Host) : Prop :=
  ∃ m ∈ s.targetMounts.records, m.target = target ∧ m.primary = true ∧
    (∀ m' ∈ s.targetMounts.records, m'.target = target → m'.primary = true →
      m.id.key ≤ m'.id.key) ∧
    s.hosts.find? m.host.key = some host

/-- The command is the directive of the parameter. A value that is empty deletes it, as one
that is absent does. -/
def Directs (s : Store) (id : ConfParamId) (c : Sent) : Prop :=
  ∃ p, s.confParams.find? id.key = some p ∧ ∃ key, s.Qualifies p key ∧
    s.PrimaryHost p.mgs c.host ∧
    c.line = Command.directive key (if p.value = some "" then none else p.value)

end Store

theorem Fleet.ConfParam.setting?_eq (p : ConfParam) :
    p.setting? = if p.value = some "" then none else p.value := by
  unfold setting?
  rcases p.value with _ | v
  · rfl
  · by_cases hv : v = "" <;> simp [Option.filter, hv]

namespace Step

open FleetJobs.Program (Yields yields_bind yields_pure)
open FleetJobs.Store (Table)

variable {o : Outside σ} {w w' : World σ}

theorem yields_fullKey {p : ConfParam} {key : String} :
    (fullKey p).Yields o w key w' ↔ w.store.Qualifies p key ∧ w = w' := by
  have named (name : String) : (pure s!"{name}.{p.key}" : StepProgram String).Yields o w key w' ↔
      key = name ++ "." ++ p.key ∧ w = w' :=
    yields_pure.trans (and_congr_left' eq_comm)
  unfold fullKey Store.Qualifies
  cases p.scope with
  | filesystem id =>
    simp only [yields_bind, yields_filesystem, and_assoc, exists_and_left, exists_eq_left',
      ← exists_and_right]
    exact exists_congr fun f => and_congr_right fun _ => named f.name
  | target id =>
    simp only [yields_bind, yields_target, and_assoc, exists_and_left, exists_eq_left',
      ← exists_and_right]
    refine exists_congr fun t => and_congr_right fun _ => ?_
    cases t.name with
    | none => simp
    | some label => simpa using named label

/-- The first primary mount is that with the lowest number. -/
theorem primaryHost_of_find? {s : Store} {target : TargetId} {m : TargetMount} {host : Host}
    (hm : (s.targetMounts.filter fun m => m.target == target).find? TargetMount.primary = some m)
    (hhost : s.hosts.find? m.host.key = some host) : s.PrimaryHost target host := by
  unfold Table.filter at hm
  rw [List.find?_filter, Table.first_eq_some_iff] at hm
  simp only [decide_eq_true_eq, beq_iff_eq, and_imp] at hm
  obtain ⟨hmem, ⟨htarget, hprimary⟩, hlowest⟩ := hm
  exact ⟨m, hmem, htarget, hprimary, hlowest, hhost⟩

theorem yields_primaryServer {target : TargetId} {host : Host}
    (h : (primaryServer target).Yields o w host w') : w.store.PrimaryHost target host ∧ w = w' := by
  simp only [primaryServer, yields_bind, yields_targetMounts, yields_primaryAmong, yields_host,
    and_assoc, exists_and_left, exists_eq_left'] at h
  obtain ⟨m, hm, hhost, hw⟩ := h
  exact ⟨primaryHost_of_find? hm hhost, hw⟩

/-! ### A step that sets a parameter -/

/-- Run alone, the program only looks things up: it leaves the world as it is, be it with a
result or a failure. -/
def Looks (o : Outside σ) (p : StepProgram α) (w : World σ) : Prop :=
  (∃ a, p.Yields o w a w) ∨ ∃ e, p.run o w = (.failed e, w)

theorem looks_call {c : Store.Call} (hc : c.isWrite = false) : Looks o (call c) w := by
  rcases Store.handle_read (s := w.store) hc with ⟨a, ha⟩ | ⟨r, hr⟩
  · exact .inl ⟨a, yields_call.mpr ⟨w.store, ha, rfl⟩⟩
  · exact .inr ⟨_, Program.run_ask_refused o hr⟩

theorem Looks.bind {p : StepProgram α} (hp : Looks o p w) {f : α → StepProgram β}
    (hf : ∀ a, p.Yields o w a w → Looks o (f a) w) : Looks o (p >>= f) w := by
  rcases hp with ⟨a, ha⟩ | ⟨e, he⟩
  · rcases hf a ha with ⟨b, hb⟩ | ⟨e, he⟩
    · exact .inl ⟨b, (ha.run_bind f).trans hb⟩
    · exact .inr ⟨e, (ha.run_bind f).trans he⟩
  · exact .inr ⟨e, Program.run_bind_of_failed he f⟩

theorem looks_fullKey (p : ConfParam) : Looks o (fullKey p) w := by
  unfold fullKey
  split
  · exact (looks_call rfl).bind fun f _ => .inl ⟨_, rfl⟩
  · refine (looks_call rfl).bind fun t _ => ?_
    split
    · exact .inl ⟨_, rfl⟩
    · exact .inr ⟨_, rfl⟩

theorem looks_primaryServer (target : TargetId) : Looks o (primaryServer target) w := by
  refine (looks_call rfl).bind fun mounts _ => Looks.bind ?_ fun m _ => looks_call rfl
  unfold primaryAmong
  split
  · exact .inl ⟨_, rfl⟩
  · exact .inr ⟨_, rfl⟩

/-- The directive of a parameter, and the host that it is for. -/
def directiveFor (id : ConfParamId) : StepProgram (Host × String) := do
  let p ← call (.confParam id)
  let key ← fullKey p
  let server ← primaryServer p.mgs
  return (server, Command.directive key p.setting?)

theorem applyConfParam_eq (id : ConfParamId) :
    applyConfParam id = directiveFor id >>= fun (server, line) =>
      risky s!"'{line}'" server line >>= fun _ => pure () := by
  simp [applyConfParam, directiveFor]

theorem looks_directiveFor (id : ConfParamId) : Looks o (directiveFor id) w :=
  (looks_call rfl).bind fun p _ => (looks_fullKey p).bind fun _ _ =>
    (looks_primaryServer p.mgs).bind fun _ _ => .inl ⟨_, rfl⟩

theorem directs_of_yields {id : ConfParamId} {host : Host} {line : String}
    (h : (directiveFor id).Yields o w (host, line) w') (reply : Reply) :
    w.store.Directs id ⟨host, line, reply⟩ := by
  simp only [directiveFor, yields_bind, yields_confParam, yields_fullKey, and_assoc,
    exists_and_left, exists_eq_left'] at h
  obtain ⟨p, hp, key, hkey, server, w₁, hserver, h⟩ := h
  obtain ⟨hprimary, _⟩ := yields_primaryServer hserver
  obtain ⟨hpair, _⟩ := yields_pure.mp h
  obtain ⟨rfl, rfl⟩ := Prod.mk.inj hpair
  exact ⟨p, hp, key, hkey, hprimary, congrArg (Command.directive key) p.setting?_eq⟩

/-- A command that must exit zero ends the step unless it does, whatever it is called. -/
theorem run_checked (o : Outside σ) (w : World σ) (idempotent : Bool) (host : Host) (line : String)
    (failure : CommandOutput → Failure) :
    let c : Sent := ⟨host, line, (w.send o host line).1⟩
    let p : StepProgram CommandOutput := command idempotent host line >>= fun output =>
      if output.success then pure output else .fail (failure output)
    (c.succeeded = true ∧ ∃ output, p.Yields o w output (w.send o host line).2) ∨
      c.succeeded = false ∧ ∃ e, p.run o w = (.failed e, (w.send o host line).2) := by
  intro c p
  rcases hreply : (w.send o host line).1 with e | output
  · refine .inr ⟨by simp [c, hreply, Sent.succeeded], .ofTransport idempotent e,
      Program.run_bind_of_failed ?_ _⟩
    rw [command, Program.run, hreply]
    rfl
  · have hc : c.succeeded = output.success := by
      simp [c, hreply, Sent.succeeded, CommandOutput.success]
    by_cases hsuccess : output.success = true
    · exact .inl ⟨hc.trans hsuccess, output, yields_checked.mpr ⟨hreply, hsuccess, rfl⟩⟩
    · have hcommand : (command idempotent host line).Yields o w output (w.send o host line).2 :=
        yields_command.mpr ⟨hreply, rfl⟩
      refine .inr ⟨hc.trans (Bool.eq_false_iff.mpr hsuccess), failure output, ?_⟩
      rw [hcommand.run_bind, if_neg hsuccess]
      rfl

theorem run_risky (o : Outside σ) (w : World σ) (action line : String) (host : Host) :
    let c : Sent := ⟨host, line, (w.send o host line).1⟩
    (c.succeeded = true ∧
      ∃ output, (risky action host line).Yields o w output (w.send o host line).2) ∨
    c.succeeded = false ∧
      ∃ e, (risky action host line).run o w = (.failed e, (w.send o host line).2) :=
  run_checked o w false host line fun output =>
    .dirty (.exited action output.exitCode host.display)

theorem run_harmless (o : Outside σ) (w : World σ) (action line : String) (host : Host) :
    let c : Sent := ⟨host, line, (w.send o host line).1⟩
    (c.succeeded = true ∧
      ∃ output, (harmless action host line).Yields o w output (w.send o host line).2) ∨
    c.succeeded = false ∧
      ∃ e, (harmless action host line).run o w = (.failed e, (w.send o host line).2) :=
  run_checked o w true host line fun output =>
    .clean (.exited action output.exitCode host.display)

/-- What a step that sets a parameter has sent, and how it has ended. -/
inductive Applies (s : Store) (id : ConfParamId) : List Sent → Ending Failure Unit → Prop
  | unsent (e : Failure) : Applies s id [] (.failed e)
  | failed {c : Sent} (e : Failure) (directs : s.Directs id c) (h : c.succeeded = false) :
    Applies s id [c] (.failed e)
  | done {c : Sent} (directs : s.Directs id c) (h : c.succeeded = true) :
    Applies s id [c] (.done ())

/-- **It sends the directive or nothing**, and writes nothing. -/
theorem run_applyConfParam (o : Outside σ) (w : World σ) (id : ConfParamId) :
    ∃ sent, Applies w.store id sent ((applyConfParam id).run o w).1 ∧
      ((applyConfParam id).run o w).2.store = w.store ∧
      ((applyConfParam id).run o w).2.sent = w.sent ++ sent := by
  rw [applyConfParam_eq]
  rcases looks_directiveFor (o := o) (w := w) id with ⟨⟨host, line⟩, hfound⟩ | ⟨e, hfailed⟩
  · have hdirects := directs_of_yields hfound (w.send o host line).1
    rw [hfound.run_bind]
    dsimp only
    refine ⟨[⟨host, line, (w.send o host line).1⟩], ?_⟩
    rcases run_risky o w s!"'{line}'" line host with
      ⟨hsuccess, output, hdone⟩ | ⟨hfailure, e, hfailed⟩
    · rw [hdone.run_bind]
      exact ⟨.done hdirects hsuccess, rfl, rfl⟩
    · rw [Program.run_bind_of_failed hfailed]
      exact ⟨.failed e hdirects hfailure, rfl, rfl⟩
  · rw [Program.run_bind_of_failed hfailed]
    exact ⟨[], .unsent e, rfl, (List.append_nil _).symm⟩

/-! ### A step that records a version -/

/-- With a record for the target the step succeeds, and the higher version is recorded. -/
theorem run_recordVersion (o : Outside σ) {w : World σ} {mgs : TargetId} {record : Mgs}
    (found : w.store.mgs.find? mgs.key = some record) (version : UInt64) :
    (recordVersion mgs version).run o w =
      (.done (), { w with store := { w.store with
        mgs := w.store.mgs.insert { record with
          versionApplied := max record.versionApplied version } } }) := by
  have hkey : record.target.key = mgs.key := Table.key_of_find? found
  refine yields_recordVersion.mpr ⟨record, found, ?_⟩
  split
  · rename_i hlt
    have hmax : max record.versionApplied version = record.versionApplied :=
      if_neg (UInt64.not_le.mpr hlt)
    have hsame : w.store.mgs.insert record = w.store.mgs := by
      rw [← hkey] at found
      exact Table.insert_of_find? found
    rw [hmax, hsame]
  · rename_i hle
    have hmax : max record.versionApplied version = version := if_pos (UInt64.not_lt.mp hle)
    rw [hmax]
    exact yields_call.mpr ⟨_, Store.setVersionApplied_eq_ok.mpr ⟨record, found, rfl⟩, rfl⟩

end Step

/-! ### Passes over parameters -/

/-- The steps that set parameters and then record a version. -/
def Job.paramSteps (mgs : TargetId) (params : List ConfParamId) (version : UInt64) : List Step :=
  params.map (fun id => ⟨.confParam id, false⟩) ++ [⟨.confParamVersion mgs version, true⟩]

theorem Job.steps_applyConfParams (id : UInt64) (mgs : TargetId) (params : List ConfParamId)
    (version : UInt64) :
    (applyConfParams id mgs params version).steps = paramSteps mgs params version := by
  simp only [applyConfParams, Job.of, List.map_append, List.map_map]
  exact markLast_append_singleton _ _

/-- What a pass over parameters has sent, how it has ended, and the store before and after. -/
structure Pass.Gates (params : List ConfParamId) (record : Mgs) (version : UInt64)
    (sent : List Sent) (state : Pass.State) (s s' : Store) : Prop where
  /-- The directives of the parameters up to some one, in order and each once. -/
  inOrder : ∃ j ≤ params.length, List.Forall₂ s.Directs (params.take j) sent
  /-- Only the last of them may have failed. -/
  stops : ∀ c ∈ sent.dropLast, c.succeeded = true
  /-- The higher version is recorded if all were sent with success and no flag has ended the
  pass. Otherwise, and but for this, nothing is changed. -/
  recorded : s' =
    if sent.length = params.length ∧ (∀ c ∈ sent, c.succeeded = true) ∧
        state.interrupted = false then
      { s with mgs := s.mgs.insert { record with
          versionApplied := max record.versionApplied version } }
    else s

namespace Pass.Gates

variable {params : List ConfParamId} {record : Mgs} {version : UInt64} {sent : List Sent}
  {state : Pass.State} {s s' : Store} {p : ConfParamId} {c : Sent}

theorem interrupted (h : state.interrupted = true) : Gates params record version [] state s s where
  inOrder := ⟨0, Nat.zero_le _, .nil⟩
  stops := fun _ hc => absurd hc List.not_mem_nil
  recorded := (if_neg fun ⟨_, _, hstate⟩ => by rw [h] at hstate; cases hstate).symm

theorem complete (h : state.interrupted = false) :
    Gates [] record version [] state s { s with mgs := s.mgs.insert { record with
      versionApplied := max record.versionApplied version } } where
  inOrder := ⟨0, Nat.le_refl _, .nil⟩
  stops := fun _ hc => absurd hc List.not_mem_nil
  recorded := (if_pos ⟨rfl, fun _ hc => absurd hc List.not_mem_nil, h⟩).symm

theorem unsent : Gates (p :: params) record version [] state s s where
  inOrder := ⟨0, Nat.zero_le _, .nil⟩
  stops := fun _ hc => absurd hc List.not_mem_nil
  recorded := (if_neg fun ⟨hlength, _⟩ => by cases hlength).symm

theorem failed (directs : s.Directs p c) (h : c.succeeded = false) :
    Gates (p :: params) record version [c] state s s where
  inOrder := ⟨1, Nat.succ_le_succ (Nat.zero_le _), .cons directs .nil⟩
  stops := fun _ hc => absurd hc List.not_mem_nil
  recorded := (if_neg fun ⟨_, hall, _⟩ => by
    have hc := hall c (List.mem_singleton.mpr rfl)
    rw [h] at hc
    cases hc).symm

/-- One more parameter before the others, set with success. -/
theorem cons (directs : s.Directs p c) (h : c.succeeded = true)
    (gates : Gates params record version sent state s s') :
    Gates (p :: params) record version (c :: sent) state s s' where
  inOrder := by
    obtain ⟨j, hj, hsent⟩ := gates.inOrder
    exact ⟨j + 1, Nat.succ_le_succ hj, .cons directs hsent⟩
  stops := by
    cases sent with
    | nil => exact fun _ hc => absurd hc List.not_mem_nil
    | cons c' sent => exact List.forall_mem_cons.mpr ⟨h, gates.stops⟩
  recorded := by
    have hcondition : ((c :: sent).length = (p :: params).length ∧
        (∀ c' ∈ c :: sent, c'.succeeded = true) ∧ state.interrupted = false) ↔
        sent.length = params.length ∧ (∀ c' ∈ sent, c'.succeeded = true) ∧
          state.interrupted = false := by
      simp [h]
    rw [gates.recorded]
    exact if_congr hcondition.symm rfl rfl

end Pass.Gates

/-- With no parameter left, the version is next. -/
theorem Course.gates_nil {x : Hosts κ} {agent : String} {transition : Option Job.Transition} {i : Nat}
    {mgs : TargetId} {version : UInt64} {w w' : World κ} {v : Option Pass.Verdict} {record : Mgs}
    (c : Course x agent transition i (Job.paramSteps mgs [] version) w v w')
    (found : w.store.mgs.find? mgs.key = some record) :
    ∃ u, v = some u ∧ w'.sent = w.sent ∧
      Pass.Gates [] record version [] u.state w.store w'.store := by
  have hrun := Step.run_recordVersion x.alone found version
  cases c with
  | halted h =>
    cases h with
    | aborted => exact ⟨_, rfl, rfl, .interrupted rfl⟩
    | paused => exact ⟨_, rfl, rfl, .interrupted rfl⟩
    | failed _ h => cases h.symm.trans hrun
    | exhausted _ h => cases h.symm.trans hrun
  | succeeded h next =>
    cases h.symm.trans hrun
    cases next with
    | halted h =>
      cases h
      exact ⟨_, rfl, rfl, .complete rfl⟩

/-- **A pass over parameters waits with the version** for all of them. -/
theorem Course.gates {x : Hosts κ} {agent : String} {transition : Option Job.Transition} {i : Nat}
    {params : List ConfParamId} {mgs : TargetId} {version : UInt64} {w w' : World κ}
    {v : Option Pass.Verdict} {record : Mgs}
    (c : Course x agent transition i (Job.paramSteps mgs params version) w v w')
    (found : w.store.mgs.find? mgs.key = some record) :
    ∃ u sent, v = some u ∧ w'.sent = w.sent ++ sent ∧
      Pass.Gates params record version sent u.state w.store w'.store := by
  induction params generalizing i w v with
  | nil =>
    obtain ⟨u, hv, hsent, hgates⟩ := c.gates_nil found
    exact ⟨u, [], hv, hsent.trans (List.append_nil _).symm, hgates⟩
  | cons p params ih =>
    obtain ⟨sent, happlies, hstore, hsent⟩ := Step.run_applyConfParam x.alone w p
    cases c with
    | halted h =>
      cases h with
      | aborted => exact ⟨_, [], rfl, (List.append_nil _).symm, .interrupted rfl⟩
      | paused => exact ⟨_, [], rfl, (List.append_nil _).symm, .interrupted rfl⟩
      | failed _ h =>
        have h : (Step.applyConfParam p).run x.alone w = _ := h
        rw [h] at happlies hstore hsent
        refine ⟨_, sent, rfl, hsent, ?_⟩
        rw [hstore]
        cases happlies with
        | unsent => exact .unsent
        | failed _ directs hc => exact .failed directs hc
      | exhausted _ h =>
        have h : (Step.applyConfParam p).run x.alone w = _ := h
        rw [h] at happlies
        cases happlies
    | succeeded h next =>
      have h : (Step.applyConfParam p).run x.alone w = _ := h
      rw [h] at happlies hstore hsent
      obtain ⟨u, sent', rfl, hsent', hgates⟩ := ih next (hstore ▸ found)
      rw [hstore] at hgates
      refine ⟨_, sent ++ sent', rfl, ?_, ?_⟩
      · rw [hsent', hsent, List.append_assoc]
      · cases happlies with
        | done directs hc => exact .cons directs hc hgates

/-- **The version of parameters waits until they are all set.** A pass over parameters comes
to a report, whatever the hosts reply and whenever flags are raised. -/
theorem version_waits_for_parameters (x : Hosts κ) (u : Watch κ τ) (t : τ) (agent : String)
    (id : UInt64) (mgs : TargetId) (params : List ConfParamId) (version : UInt64) (w : World κ)
    (record : Mgs) (found : w.store.mgs.find? mgs.key = some record) :
    ∃ r w' sent,
      Pass.under x u t agent (Job.applyConfParams id mgs params version) 0 w = (some r, w') ∧
      w'.sent = w.sent ++ sent ∧
      Pass.Gates params record version sent r.state w.store w'.store := by
  let job := Job.applyConfParams id mgs params version
  have hsteps : job.steps = Job.paramSteps mgs params version := Job.steps_applyConfParams ..
  have hstart : ¬ job.steps.length ≤ 0 := by
    rw [hsteps]
    simp [Job.paramSteps]
  obtain ⟨v, w', hunder, course⟩ := Pass.under_ran x u t agent job 0 w hstart
  rw [List.drop_zero, hsteps] at course
  obtain ⟨verdict, sent, rfl, hsent, hgates⟩ := course.gates found
  exact ⟨_, w', sent, hunder, hsent, hgates⟩

/-- One parameter is set and one, whose value is empty, deleted; then the version is recorded. -/
theorem two_parameters_then_version :
    let i : Inventory :=
      { hosts := [⟨⟨1⟩, "mgs1", none, none, .up, none, []⟩]
        targets := [⟨⟨4⟩, .mgs, some "MGS"⟩, ⟨⟨5⟩, .mdt ⟨7⟩, some "fs-MDT0000"⟩]
        targetMounts := [⟨⟨6⟩, ⟨4⟩, ⟨1⟩, true, .configured, "/mnt/mgs", none⟩]
        filesystems := [⟨⟨7⟩, "fs", ⟨4⟩⟩]
        mgs := [⟨⟨4⟩, 3⟩]
        confParams := [⟨⟨1⟩, ⟨4⟩, .filesystem ⟨7⟩, "sys.timeout", some "40"⟩,
          ⟨⟨2⟩, ⟨4⟩, .target ⟨5⟩, "mdd.quota", some ""⟩] }
    let x := (Remote.ofReplies fun _ _ => .ok ⟨0, "", ""⟩).hosts
    let w := World.start (Store.ofInventory i) ()
    let mgs : TargetId := ⟨4⟩
    let pass := Pass.under x .idle () "agent" (.applyConfParams 1 mgs [⟨1⟩, ⟨2⟩] 5) 0 w
    w.store.mgs.find? mgs.key = some ⟨mgs, 3⟩ ∧
      pass.2.sent.map (fun c => (c.host.address, c.line)) =
        [("mgs1", "lctl conf_param fs.sys.timeout=40"),
          ("mgs1", "lctl conf_param -d fs-MDT0000.mdd.quota")] ∧
      pass.2.store.mgs.records = [⟨mgs, 5⟩] ∧
      ∃ r, pass.1 = some r ∧
        Pass.Gates [⟨1⟩, ⟨2⟩] ⟨mgs, 3⟩ 5 pass.2.sent r.state w.store pass.2.store := by
  intro i x w mgs pass
  have found : w.store.mgs.find? mgs.key = some ⟨mgs, 3⟩ := by decide +kernel
  obtain ⟨r, w', sent, hpass, hsent, hgates⟩ :=
    version_waits_for_parameters x .idle () "agent" 1 mgs [⟨1⟩, ⟨2⟩] 5 w _ found
  have hpass : pass = (some r, w') := hpass
  have hsent : pass.2.sent = sent := by
    rw [hpass]
    exact hsent
  refine ⟨found, by decide +kernel, by decide +kernel, r, by rw [hpass], ?_⟩
  rw [hsent, hpass]
  exact hgates

end FleetJobs
