import FleetJobs.CommandLine.Run
import FleetJobs.Proofs.Commitment
import FleetJobs.Proofs.InventoryRecords
import FleetJobs.Proofs.JobRecords
import FleetJobs.Proofs.SavedFiles

/-! Jobs in their files.

Settling a job changes nothing but its last step (`Job.settled_of_concat`), and it is valid
afterwards exactly if it was before (`Job.invalid?_settled`). So a file is loaded as a job if
the job in it has steps and none but the last is marked final, and then the last step, and no
other, is final in what was loaded (`Job.normalised_settled`). What a job is written as is read
as the job, whatever its texts and numbers are (`Job.decode_write`). A job that was loaded is
settled already, so from its own text it is loaded as it is (`job_files_are_normalised`). -/
namespace FleetJobs

open FleetJobs.Files
open FleetJobs.Yaml (IsSure Tidy tidy_list tidy_natural tidy_optional tidy_record)

/-! ### Jobs that were read -/

namespace Job

/-- There are steps, and none but the last is marked final. -/
structure Loadable (read : Job) : Prop where
  nonempty : read.steps ≠ []
  onlyLast : ∀ i s, read.steps[i]? = some s → s.isFinal = true → i + 1 = read.steps.length

/-- The job is the one that was read, except that its last step, and only its last step, is
final. -/
structure Normalised (read job : Job) : Prop where
  others : job = { read with steps := job.steps }
  kinds : job.steps.map Step.kind = read.steps.map Step.kind
  final : ∀ i s, job.steps[i]? = some s → (s.isFinal = true ↔ i + 1 = job.steps.length)

variable {j : Job} {front : List Step} {last : Step}

/-- A step stands before the last one or is the last. -/
theorem mem_or_eq_last {s : Step} {i : Nat} (h : (front ++ [last])[i]? = some s) :
    (i < front.length ∧ s ∈ front) ∨ (i = front.length ∧ s = last) := by
  rcases Nat.lt_trichotomy i front.length with hlt | rfl | hlt
  · rw [List.getElem?_append_left hlt] at h
    exact .inl ⟨hlt, List.mem_of_getElem? h⟩
  · rw [List.getElem?_concat_length] at h
    exact .inr ⟨rfl, (Option.some.inj h).symm⟩
  · rw [List.getElem?_append_right (Nat.le_of_lt hlt),
      List.getElem?_eq_none (Nat.sub_pos_of_lt hlt)] at h
    cases h

theorem invalid?_of_concat (h : j.steps = front ++ [last]) :
    j.invalid? = none ↔ ∀ s ∈ front, s.isFinal = false := by
  refine ⟨fun valid => not_final_of_valid valid h (List.cons_ne_nil last []), fun hfront => ?_⟩
  rw [invalid?, h, misplaced?_append_singleton hfront]
  simp

/-- A job that was read is valid exactly if it can be loaded. -/
theorem invalid?_eq_none_iff (j : Job) : j.invalid? = none ↔ j.Loadable := by
  rcases List.eq_nil_or_concat j.steps with hnil | ⟨front, last, hsteps⟩
  · refine ⟨fun valid => ?_, fun h => absurd hnil h.nonempty⟩
    rw [invalid?, hnil] at valid
    cases valid
  rw [List.concat_eq_append] at hsteps
  rw [invalid?_of_concat hsteps]
  refine ⟨fun hfront => ⟨?_, fun i s hs hfinal => ?_⟩, fun h s hs => ?_⟩
  · rw [hsteps]
    exact List.append_ne_nil_of_right_ne_nil front (List.cons_ne_nil last [])
  · rw [hsteps] at hs ⊢
    rcases mem_or_eq_last hs with ⟨_, hmem⟩ | ⟨rfl, _⟩
    · rw [hfront s hmem] at hfinal
      cases hfinal
    · rw [List.length_append, List.length_singleton]
  · obtain ⟨i, hi⟩ := List.mem_iff_getElem?.mp hs
    have hlt : i < front.length := (List.getElem?_eq_some_iff.mp hi).1
    have honly := h.onlyLast i s
    rw [hsteps, List.getElem?_append_left hlt, List.length_append, List.length_singleton] at honly
    by_contra hfinal
    exact Nat.ne_of_lt hlt (Nat.succ.inj (honly hi (Bool.eq_true_of_not_eq_false hfinal)))

/-- **Settling a job makes its last step final**, and changes nothing else. -/
theorem settled_of_concat (h : j.steps = front ++ [last]) (hfront : ∀ s ∈ front, s.isFinal = false) :
    j.settled = { j with steps := front ++ [last.markFinal] } := by
  unfold settled
  split
  · rename_i hany
    -- the final step that there is can only be the last
    have hlast : last.isFinal = true := by
      obtain ⟨s, hs, hfinal⟩ := List.any_eq_true.mp hany
      rw [h, List.mem_append, List.mem_singleton] at hs
      rcases hs with hs | rfl
      · rw [hfront s hs] at hfinal
        cases hfinal
      · exact hfinal
    have hmark : last.markFinal = last := by rw [Step.markFinal, ← hlast]
    rw [hmark, ← h]
  · rw [h, markLast_append_singleton]

/-- A job is as valid as it was before it was settled. -/
theorem invalid?_settled (j : Job) : j.settled.invalid? = j.invalid? := by
  rcases List.eq_nil_or_concat j.steps with hnil | ⟨front, last, hsteps⟩
  · have hsettled : j.settled = j := by
      obtain ⟨id, description, transition, steps⟩ := j
      obtain rfl : steps = [] := hnil
      rfl
    rw [hsettled]
  rw [List.concat_eq_append] at hsteps
  by_cases hfront : ∀ s ∈ front, s.isFinal = false
  · have hvalid := (invalid?_of_concat hsteps).mpr hfront
    rw [settled_of_concat hsteps hfront, hvalid]
    exact (invalid?_of_concat rfl).mpr hfront
  · have hany : j.steps.any Step.isFinal = true := by
      push Not at hfront
      obtain ⟨s, hs, hfinal⟩ := hfront
      rw [hsteps, List.any_append, List.any_eq_true.mpr ⟨s, hs, Bool.eq_true_of_not_eq_false hfinal⟩,
        Bool.true_or]
    rw [settled, if_pos hany]

theorem normalised_settled (h : j.Loadable) : j.Normalised j.settled := by
  obtain ⟨front, last, hsteps⟩ := (List.eq_nil_or_concat j.steps).resolve_left h.nonempty
  rw [List.concat_eq_append] at hsteps
  have hfront := (invalid?_of_concat hsteps).mp ((invalid?_eq_none_iff j).mpr h)
  rw [settled_of_concat hsteps hfront]
  refine ⟨rfl, ?_, fun i s hs => ?_⟩
  · rw [hsteps, List.map_append, List.map_append]
    rfl
  · rw [List.length_append, List.length_singleton]
    rcases mem_or_eq_last hs with ⟨hlt, hmem⟩ | ⟨rfl, rfl⟩
    · rw [hfront s hmem]
      exact ⟨nofun, fun heq => absurd (Nat.succ.inj heq) (Nat.ne_of_lt hlt)⟩
    · exact ⟨fun _ => rfl, fun _ => rfl⟩

/-- A job that has a final step is settled. -/
theorem EndsFinal.settled_eq (h : j.EndsFinal) : j.settled = j := if_pos h.final

end Job

/-! ### The text of a job -/

namespace Step

theorem StepKind.tidy_args {k : StepKind} {args : List (String × Data.Datum)} (h : k.args = some args) :
    Tidy (.record args) := by
  refine tidy_record ["target_mount", "target", "host", "conf_param", "mgs", "version"] ?_
    (by decide +kernel) ?_ fun e he => ?_
  · cases k <;> cases h <;> exact List.isSublist_iff_sublist.mp rfl
  · cases k <;> cases h <;> exact List.cons_ne_nil _ _
  · obtain ⟨n, hn, heq⟩ := (args_numbers h).2 e he
    exact heq ▸ tidy_natural hn

theorem StepKind.tidy_entries (k : StepKind) : ∀ e ∈ k.entries, Tidy e.2 := by
  intro e he
  rcases mem_entries he with heq | ⟨args, hargs, heq⟩
  · exact heq ▸ trivial
  · exact heq ▸ tidy_args hargs

theorem tidy_toDatum (s : Step) : Tidy s.toDatum := by
  refine tidy_record ["step", "args", "final"] ?_ (by decide +kernel) (List.cons_ne_nil _ _) ?_
  · rw [List.map_append]
    exact s.kind.names_entries.append (.refl ["final"])
  · rw [List.forall_mem_append, List.forall_mem_singleton]
    exact ⟨s.kind.tidy_entries, trivial⟩

end Step

namespace Job

theorem Transition.tidy_toDatum (t : Transition) : Tidy t.toDatum := by
  have hid : t.entityId.toNat < UInt64.size := Nat.lt_trans t.entityId.toNat_lt (by decide)
  refine tidy_record ["entity", "entity_id", "old_state", "new_state"] (.refl _) (by decide +kernel)
    (List.cons_ne_nil _ _) ?_
  simp only [List.forall_mem_cons]
  exact ⟨trivial, tidy_natural hid, trivial, trivial, List.forall_mem_nil _⟩

theorem tidy_toDatum (j : Job) : Tidy j.toDatum := by
  have htransition := tidy_optional _ Transition.tidy_toDatum j.transition
  refine tidy_record ["id", "description", "transition", "steps"] (.refl _) (by decide +kernel)
    (List.cons_ne_nil _ _) ?_
  simp only [List.forall_mem_cons]
  exact ⟨tidy_natural j.id.toNat_lt, trivial, htransition, tidy_list fun s _ => s.tidy_toDatum,
    List.forall_mem_nil _⟩

/-- **The text of a job is read as the job**, whatever its texts, numbers and steps are. -/
theorem read_write (j : Job) : Yaml.read reader (Yaml.write j.toDatum) = .ok j := by
  have hreads : reader.Reads IsSure 4 j.toDatum j := j.reads_of_plain fun _ h => h
  exact Yaml.read_write hreads j.tidy_toDatum (by decide)

theorem decode_write (j : Job) : decode reader (Yaml.write j.toDatum).toUTF8 = .ok j := by
  rw [decode_toUTF8, j.read_write]
  rfl

end Job

/-! ### Loading -/

section

variable {path : String} {d d' : Directory} {content : ByteArray} {parsed job : Job}

theorem run_loadJob (h : d.read path = .ok content) (hparsed : decode Job.reader content = .ok parsed) :
    (loadJob path).run d = some (accept path parsed, d) := by
  simp only [loadJob, loadAs, bind, FileProgram.bind, operate, FileProgram.run, Directory.perform, h,
    hparsed]
  rfl

theorem accept_of_loadable (h : parsed.Loadable) (path : String) :
    accept path parsed = .ok parsed.settled := by
  rw [accept, Job.invalid?_settled, (Job.invalid?_eq_none_iff parsed).mpr h]

theorem accept_of_not_loadable (h : ¬parsed.Loadable) (path : String) :
    ∃ reason, parsed.invalid? = some reason ∧ accept path parsed = .error (.invalid path reason) := by
  obtain ⟨reason, hreason⟩ := Option.ne_none_iff_exists'.mp (mt (Job.invalid?_eq_none_iff parsed).mp h)
  exact ⟨reason, hreason, by rw [accept, Job.invalid?_settled, hreason]⟩

theorem run_loadJobs_singleton (h : (loadJob path).run d = some (.ok job, d')) :
    (CommandLine.loadJobs [path]).run d = some (.ok [job], d') :=
  FileProgram.run_bind_eq_some.mpr ⟨.ok job, d', h, rfl⟩

/-- What the command says of one job file. -/
theorem run_validate_singleton {loaded : Except FileError Job}
    (h : (loadJob path).run d = some (loaded, d')) :
    (CommandLine.validate [path]).run d =
      some (⟨loaded.toBool, CommandLine.validationLine path loaded⟩, d') := by
  have hrun : (CommandLine.validate [path]).run d =
      some (⟨loaded.toBool && true, CommandLine.validationLine path loaded ++ ""⟩, d') :=
    FileProgram.run_bind_eq_some.mpr ⟨loaded, d', h, rfl⟩
  rwa [Bool.and_true, String.append_empty] at hrun

/-- What was loaded is settled. -/
theorem Job.endsFinal_of_loaded (h : (loadJob path).run d = some (.ok job, d')) : job.EndsFinal := by
  obtain ⟨read, rfl, valid⟩ := Job.settled_of_loaded h
  exact ⟨valid, Job.any_isFinal_settled ((Job.invalid?_eq_none_iff _).mp valid).nonempty⟩

/-- A job that was loaded is loaded again from its own text. -/
theorem load_of_text (h : job.EndsFinal) (htext : d.read path = .ok (Yaml.write job.toDatum).toUTF8) :
    (loadJob path).run d = some (.ok job, d) := by
  have haccept := accept_of_loadable ((Job.invalid?_eq_none_iff job).mp h.valid) path
  rw [run_loadJob htext job.decode_write, haccept, h.settled_eq]

end

/-- **Job files are normalised.** From a file in which a job is written, a job is loaded if there
are steps and none but the last is marked final, and otherwise none is. It is the job in the
file, except that its last step, and no other, is final; it is valid, and to validate the file
tells how many steps it has. Every job is read from what it is written as, and one that was
loaded, written to whatever file, is loaded from there as it was. -/
theorem job_files_are_normalised :
    (∀ (path : String) (d : Directory) (content : ByteArray) (parsed : Job),
      d.read path = .ok content → decode Job.reader content = .ok parsed →
        (parsed.Loadable → ∃ job : Job, (loadJob path).run d = some (.ok job, d) ∧
          parsed.Normalised job ∧ job.invalid? = none ∧
          (CommandLine.validate [path]).run d =
            some (⟨true, s!"{path}: {parsed.steps.length} steps\n"⟩, d)) ∧
        (¬parsed.Loadable → ∃ reason, parsed.invalid? = some reason ∧
          (loadJob path).run d = some (.error (.invalid path reason), d))) ∧
    (∀ j : Job, decode Job.reader (Yaml.write j.toDatum).toUTF8 = .ok j) ∧
    ∀ (path : String) (d d' : Directory) (job : Job), (loadJob path).run d = some (.ok job, d') →
      ∀ (path' : String) (e : Directory), e.read path' = .ok (Yaml.write job.toDatum).toUTF8 →
        (loadJob path').run e = some (.ok job, e) := by
  refine ⟨fun path d content parsed h hparsed => ⟨fun hloadable => ?_, fun hno => ?_⟩,
    fun j => j.decode_write, fun _ _ _ _ h _ _ htext => load_of_text (Job.endsFinal_of_loaded h) htext⟩
  · have hload := run_loadJob h hparsed
    rw [accept_of_loadable hloadable] at hload
    have hnormal := Job.normalised_settled hloadable
    have hcount : parsed.settled.steps.length = parsed.steps.length := by
      rw [← List.length_map Step.kind, hnormal.kinds, List.length_map]
    have hvalid : parsed.settled.invalid? = none := by
      rw [Job.invalid?_settled, (Job.invalid?_eq_none_iff parsed).mpr hloadable]
    have hline := run_validate_singleton hload
    rw [CommandLine.validationLine, hcount] at hline
    exact ⟨parsed.settled, hload, hnormal, hvalid, hline⟩
  · obtain ⟨reason, hreason, haccept⟩ := accept_of_not_loadable hno path
    exact ⟨reason, hreason, by rw [run_loadJob h hparsed, haccept]⟩

/-- A file whose steps are not marked, and one that marks the first of two. -/
theorem unmarked_steps_are_normalised :
    let unmarked := "id: 9\nsteps:\n- step: start_lnet\n  args:\n    host: 2\n- step: null_step\n"
    let early := "id: 3\nsteps:\n- step: null_step\n  final: true\n- step: null_step\n"
    let parsed : Job := ⟨9, "", none, [⟨.startLnet ⟨2⟩, false⟩, ⟨.null, false⟩]⟩
    ∃ d₁ d₂ d₃ job, (save "job.yaml" unmarked).run .empty = some (.ok (), d₁) ∧ parsed.Loadable ∧
      (loadJob "job.yaml").run d₁ = some (.ok job, d₁) ∧ parsed.Normalised job ∧
      job.steps.map Step.isFinal = [false, true] ∧
      (CommandLine.validate ["job.yaml"]).run d₁ = some (⟨true, "job.yaml: 2 steps\n"⟩, d₁) ∧
      (save "job.yaml" (Yaml.write job.toDatum)).run d₁ = some (.ok (), d₂) ∧
      (loadJob "job.yaml").run d₂ = some (.ok job, d₂) ∧
      (save "job.yaml" early).run d₁ = some (.ok (), d₃) ∧
      ∃ reason, (loadJob "job.yaml").run d₃ = some (.error (.invalid "job.yaml" reason), d₃) := by
  intro unmarked early parsed
  have hpath : Directory.empty.Leads "job.yaml" ["job.yaml"] :=
    Directory.leads_of_isName (by decide +kernel) nofun
  have hdraft : Directory.empty.Leads (draftOf "job.yaml") [draftOf "job.yaml"] :=
    Directory.leads_of_isName (by decide +kernel) nofun
  have hsave : (save "job.yaml" unmarked).run .empty = _ := run_save_of_leads hdraft hpath unmarked
  have hparsed : decode Job.reader unmarked.toUTF8 = .ok parsed := by decide +kernel
  have hloadable : parsed.Loadable := (Job.invalid?_eq_none_iff parsed).mp (by decide)
  obtain ⟨hfile, _, hagain⟩ := job_files_are_normalised
  obtain ⟨job, hload, hnormal, _, hline⟩ :=
    (hfile "job.yaml" _ _ parsed (read_of_saved hsave) hparsed).1 hloadable
  have hcount : CommandLine.validationLine "job.yaml" (.ok parsed) = "job.yaml: 2 steps\n" := by
    decide +kernel
  have hline := hline.trans (congrArg (fun line => some (CommandLine.Result.mk true line, _)) hcount)
  obtain ⟨d₂, hsave₂⟩ := saved_again hsave (Yaml.write job.toDatum)
  have hreload := hagain "job.yaml" _ _ job hload "job.yaml" d₂ (read_of_saved hsave₂)
  obtain ⟨d₃, hsave₃⟩ := saved_again hsave early
  have hearly : decode Job.reader early.toUTF8 = .ok ⟨3, "", none, [⟨.null, true⟩, ⟨.null, false⟩]⟩ := by
    decide +kernel
  have hno : ¬Job.Loadable ⟨3, "", none, [⟨.null, true⟩, ⟨.null, false⟩]⟩ :=
    mt (Job.invalid?_eq_none_iff _).mpr (by decide)
  obtain ⟨reason, _, herror⟩ := (hfile "job.yaml" d₃ _ _ (read_of_saved hsave₃) hearly).2 hno
  have hjob : job = parsed.settled := by
    have heq := hload.symm.trans (run_loadJob (read_of_saved hsave) hparsed)
    rw [accept_of_loadable hloadable] at heq
    simpa using heq
  have hfinal : job.steps.map Step.isFinal = [false, true] := by
    rw [hjob]
    decide
  exact ⟨_, d₂, d₃, job, hsave, hloadable, hload, hnormal, hfinal, hline, hsave₂, hreload, hsave₃, reason,
    herror⟩

end FleetJobs
