import FleetJobs.Pass.Report
import FleetJobs.Proofs.SortedData
import FleetJobs.Proofs.VariantNames
import FleetJobs.Proofs.YamlDocuments

/-! Jobs and reports as data.

Both are put together from records and unions whose entries share one map, and what is read
from the data is what was written (`jobs_and_reports_survive`): no two of the names collide, each
number fits its reader, and what is absent is written as null or left out, and nothing else
is. The words that a job is written with need no quotes (`StepKind.isSure_name`,
`StepKind.isSure_args`), so the same holds of its text. A step is written under a tag, which is
the name of its kind (`StepKind.entries_eq`), and under another text no step is read
(`Step.name_of_read`). -/
namespace FleetJobs

open FleetJobs.Data
open FleetJobs.Fleet
open FleetJobs.Yaml (IsSure)

variable {sure : String → Prop} {depth : Nat}

namespace Step

namespace StepKind

/-- A kind with one identifier for an argument. -/
theorem reads_withId {kind : Kind} (id : Id kind) {name label field : String}
    {f : Id kind → StepKind} (lookup : (Case.options cases).lookup name =
      some ⟨name, label, .fields ((Fields.pure f).and (.required field Id.reader))⟩)
    (own : sure name) (entries : List (String × Datum)) :
    (Fields.tagAndContent "step" "args" cases).Reads sure depth entries
      [("step", .text name), ("args", .record [(field, id.toDatum)])] (f id) :=
  .tagAndContent lookup rfl (Content.takes_one id.reads_toDatum field f) own (by decide)

theorem entries_eq (k : StepKind) :
    k.entries = ("step", .text k.name) :: presentEntry "args" .record k.args := by
  rw [entries, tag_eq_name]

/-- **The name and the arguments of a kind are read as the kind.** -/
theorem reads_entries {k : StepKind} (own : sure k.name) (entries : List (String × Datum)) :
    (Fields.tagAndContent "step" "args" cases).Reads sure depth entries k.entries k := by
  rw [entries_eq]
  cases k with
  | null => exact .tagAlone rfl rfl own
  | findDevice m | registerTarget m | configurePacemaker m => exact reads_withId m rfl own entries
  | mkfs t | mount t | unmount t => exact reads_withId t rfl own entries
  | startLnet h | stopLnet h | loadLnet h | unloadLnet h => exact reads_withId h rfl own entries
  | confParam p => exact reads_withId p rfl own entries
  | confParamVersion m v =>
    exact .tagAndContent rfl rfl
      (Content.takes_fields (((Fields.reads_pure confParamVersion).and
        (.field (by rfl) m.reads_toDatum _ _)).and (.field (by rfl) (Reader.reads_uint64 v) _ _))
        (.refl _) (by decide))
      own (by decide)

theorem names_entries (k : StepKind) : (k.entries.map (·.1)).Sublist ["step", "args"] :=
  (names_presentEntry "args" .record k.args).cons_cons "step"

/-- The arguments of a kind are numbers, under different names. -/
theorem args_numbers {k : StepKind} {args : List (String × Datum)} (h : k.args = some args) :
    Once args ∧ ∀ e ∈ args, ∃ n < UInt64.size, e.2 = .natural n := by
  have hid {kind : Kind} (id : Id kind) : ∃ n < UInt64.size, id.toDatum = .natural n :=
    ⟨id.number.toNat, Nat.lt_trans id.number.toNat_lt (by decide), rfl⟩
  have hversion (v : UInt64) : ∃ n < UInt64.size, Datum.natural v.toNat = .natural n :=
    ⟨v.toNat, v.toNat_lt, rfl⟩
  cases k <;> cases h <;> simp [Once, hid, hversion]

theorem isSure_name (k : StepKind) : IsSure k.name := by
  cases k <;> simp only [name] <;> rfl

theorem isSure_args {k : StepKind} {args : List (String × Datum)} (h : k.args = some args) :
    ∀ e ∈ args, IsSure e.1 := by
  cases k <;> cases h <;> simp only [List.forall_mem_cons]
  case confParamVersion => exact ⟨rfl, rfl, List.forall_mem_nil _⟩
  all_goals exact ⟨rfl, List.forall_mem_nil _⟩

/-- What a kind adds to its step is its name and perhaps a record of numbers. -/
theorem mem_entries {k : StepKind} {e : String × Datum} (h : e ∈ k.entries) :
    e.2 = .text k.name ∨ ∃ args, k.args = some args ∧ e.2 = .record args := by
  rw [entries_eq] at h
  rcases List.mem_cons.mp h with rfl | h
  · exact .inl rfl
  · cases hargs : k.args with
    | none => simp [hargs, presentEntry] at h
    | some args =>
      simp only [hargs, presentEntry, List.mem_singleton] at h
      exact .inr ⟨args, rfl, h ▸ rfl⟩

theorem legible_entries (plain : ∀ t, IsSure t → sure t) (k : StepKind) {room : Nat}
    (positive : 1 ≤ room) : ∀ e ∈ k.entries, e.2.Legible sure room := by
  intro e he
  rcases mem_entries he with heq | ⟨args, hargs, heq⟩
  · exact heq ▸ plain _ k.isSure_name
  · rw [heq]
    refine Node.legible_record positive fun e he => ⟨plain _ (isSure_args hargs e he), ?_⟩
    obtain ⟨n, _, hn⟩ := (args_numbers hargs).2 e he
    exact hn ▸ trivial

theorem regular_entries (k : StepKind) : ∀ e ∈ k.entries, e.2.Regular := by
  intro e he
  rcases mem_entries he with heq | ⟨args, hargs, heq⟩
  · exact heq ▸ .text
  · rw [heq]
    refine .record (args_numbers hargs).1 fun e he => ?_
    obtain ⟨n, _, hn⟩ := (args_numbers hargs).2 e he
    exact hn ▸ .integer

/-- A variant makes kinds of its own name and no others. -/
theorem makes_name : ∀ c ∈ cases, c.content.Makes fun k => k.name = c.name := by
  simp only [cases, List.forall_mem_cons]
  refine ⟨rfl, ?_, ?_, ?_, ?_, ?_, ?_, ?_, ?_, ?_, ?_, ?_, ?_, fun _ h => absurd h List.not_mem_nil⟩
  case refine_12 => exact (Fields.Makes.and (Fields.makes_pure fun _ _ => rfl) _).and _
  all_goals exact (Fields.makes_pure fun _ => rfl).and _

end StepKind

/-- **A step that is read has the name under which it stands**, so under any other text no step
is read. -/
theorem name_of_read {n : Node} {entries : List (String × Datum)}
    (hn : n.Shows InQuotes (.record entries)) (once : Once entries) {name : String}
    (hname : entries.lookup "step" = some (.text name)) {setting : Setting} {s : Step}
    (h : reader setting n = .ok s) : s.name = name := by
  obtain ⟨inner, o, kept, hfields, hothers, htexts⟩ := Reader.kept_of_read hn once h
  obtain ⟨make, isFinal, hmake, _, rfl⟩ := Ranked.both_eq_ok hfields
  obtain ⟨_, kind, hpure, hkind, rfl⟩ := Ranked.both_eq_ok hmake
  cases hpure
  obtain ⟨c, hc, hread⟩ := Fields.variant_of_read hkind hothers (htexts "step" name (by decide) hname)
  obtain ⟨hmem, rfl⟩ := Case.mem_of_lookup hc
  exact (StepKind.makes_name c hmem).of_read hread

theorem reads_toDatum (plain : ∀ t, IsSure t → sure t) (s : Step) :
    reader.Reads sure (depth + 2) s.toDatum s := by
  exact Reader.Reads.openRecord
    (((Fields.reads_pure Step.mk).and (StepKind.reads_entries (plain _ s.kind.isSure_name) _)).and
      (.field (by rfl) (Reader.reads_boolean s.isFinal) _ _))
    List.perm_append_comm (.refl _) s.kind.names_entries (by decide)
    (fun _ h => s.kind.legible_entries plain (Nat.le_trans (Nat.succ_pos depth) h)) "struct Step"

/-- The entries of a step have different names. -/
theorem once_entries (s : Step) : Once (s.kind.entries ++ [("final", .boolean s.isFinal)]) := by
  have hnames : ((s.kind.entries ++ [("final", Datum.boolean s.isFinal)]).map (·.1)).Sublist
      ["step", "args", "final"] := by
    rw [List.map_append]
    exact s.kind.names_entries.append (.refl ["final"])
  exact hnames.nodup (by decide)

/-- Under its tag a step has its name. -/
theorem lookup_tag (s : Step) :
    (s.kind.entries ++ [("final", Datum.boolean s.isFinal)]).lookup "step" = some (.text s.name) := by
  rw [StepKind.entries_eq]
  rfl

theorem regular_toDatum (s : Step) : s.toDatum.Regular := by
  refine .record s.once_entries fun e he => ?_
  rcases List.mem_append.mp he with he | he
  · exact s.kind.regular_entries e he
  · obtain rfl := List.mem_singleton.mp he
    exact .boolean

end Step

namespace Job

theorem EntityKind.isSure_name (k : EntityKind) : IsSure k.name := by
  cases k <;> rfl

theorem Transition.reads_toDatum (plain : ∀ t, IsSure t → sure t) (t : Transition) :
    reader.Reads sure (depth + 1) t.toDatum t := by
  have hentity : EntityKind.reader.Reads sure depth (.text t.entity.name) t.entity :=
    Reader.reads_choice (by cases t.entity <;> rfl) (plain _ t.entity.isSure_name) "EntityKind"
  exact Reader.Reads.record
    (((((Fields.reads_pure Transition.mk).and (.field (by rfl) hentity _ _)).and
      (.field (by rfl) (Reader.reads_uint32 t.entityId) _ _)).and
      (.field (by rfl) (Reader.reads_text t.oldState) _ _)).and
      (.field (by rfl) (Reader.reads_text t.newState) _ _))
    (.refl _) (by decide) "struct StateTransition"

theorem Transition.regular_toDatum (t : Transition) : t.toDatum.Regular :=
  .record (by simp [Once]) (by simp)

/-- **A job is read from what it is written as**, where the texts that need no quotes are taken
for nothing else. -/
theorem reads_of_plain (plain : ∀ t, IsSure t → sure t) (j : Job) :
    reader.Reads sure (depth + 4) j.toDatum j := by
  have hsteps : (Reader.list Step.reader).Reads sure (depth + 3) (.list (j.steps.map Step.toDatum))
      j.steps := Reader.Reads.list fun s _ => s.reads_toDatum plain
  exact Reader.Reads.record
    (((((Fields.reads_pure Job.mk).and (.field (by rfl) (Reader.reads_uint64 j.id) _ _)).and
      (.field (by rfl) (Reader.reads_text j.description) _ _)).and
      (.field (by rfl) (Reader.Reads.orNull (Transition.reads_toDatum plain) nofun j.transition) _ _)).and
      (.field (by rfl) hsteps _ _))
    (.refl _) (by decide) "struct Job"

theorem reads_toDatum (j : Job) : reader.Reads InQuotes (depth + 4) j.toDatum j :=
  j.reads_of_plain fun _ _ => trivial

theorem regular_toDatum (j : Job) : j.toDatum.Regular := by
  have htransition := Datum.Regular.optional Transition.regular_toDatum j.transition
  have hsteps : (Datum.list (j.steps.map Step.toDatum)).Regular :=
    .list (List.forall_mem_map.mpr fun s _ => s.regular_toDatum)
  exact .record (by simp [Once]) (by simp [htransition, hsteps])

end Job

namespace Step.Outcome

theorem reads_toDatum (o : Outcome) : reader.Reads InQuotes (depth + 1) o.toDatum o := by
  have hworded (reason : String) : ∀ room, depth ≤ room → (Datum.text reason).Legible InQuotes room :=
    fun _ _ => trivial
  cases o with
  | notRun | succeeded | paused | aborted => exact Reader.reads_bare rfl trivial "StepOutcome"
  | cleanFailed reason | dirtyFailed reason | failed reason =>
    exact Reader.reads_single rfl (Reader.reads_text reason) trivial (by decide) trivial
      (hworded reason) "StepOutcome"

theorem names_entries (o : Outcome) :
    (o.entries.map (·.1)).Sublist ["outcome", "reason", "error"] := by
  cases o with
  | notRun | succeeded | paused | aborted => exact .cons_cons _ (List.nil_sublist _)
  | cleanFailed _ | dirtyFailed _ => exact .cons_cons _ (.cons_cons _ (List.nil_sublist _))
  | failed _ => exact .cons_cons _ (.cons _ (.refl _))

/-- What an outcome adds to its record is texts. -/
theorem texts_entries (o : Outcome) : ∀ e ∈ o.entries, ∃ t, e.2 = .text t := by
  cases o <;> simp [entries]

end Step.Outcome

namespace Pass

theorem StepRecord.reads_toDatum {r : StepRecord} (h : r.index < UInt64.size) :
    reader.Reads InQuotes (depth + 2) r.toDatum r := by
  have hlegible : ∀ room, depth + 1 ≤ room → ∀ e ∈ r.outcome.entries, e.2.Legible InQuotes room := by
    intro room _ e he
    obtain ⟨t, ht⟩ := r.outcome.texts_entries e he
    exact ht ▸ trivial
  exact Reader.Reads.openRecord
    ((((Fields.reads_pure StepRecord.mk).and (.field (by rfl) (Reader.reads_index h) _ _)).and
      (.field (by rfl) (Reader.reads_text r.name) _ _)).and (.union r.outcome.reads_toDatum))
    (.refl _) (.refl _) r.outcome.names_entries (by decide) hlegible "struct StepRecord"

theorem StepRecord.regular_toDatum (r : StepRecord) : r.toDatum.Regular := by
  have hnames : ((("index", Datum.natural r.index) :: ("name", .text r.name) :: r.outcome.entries).map
      (·.1)).Sublist ["index", "name", "outcome", "reason", "error"] :=
    .cons_cons _ (.cons_cons _ r.outcome.names_entries)
  refine .record (hnames.nodup (by decide)) (List.forall_mem_cons.mpr ⟨.integer,
    List.forall_mem_cons.mpr ⟨.text, fun e he => ?_⟩⟩)
  obtain ⟨t, ht⟩ := r.outcome.texts_entries e he
  exact ht ▸ .text

namespace State

/-- The positions that a state tells are those of a list. -/
def InRange : State → Prop
  | paused n | errored n => n < UInt64.size
  | _ => True

theorem reads_entries {s : State} (h : s.InRange) :
    (Reader.tagged "state" "JobState" cases).Reads InQuotes (depth + 1) (.record s.entries) s := by
  cases s with
  | complete | aborted => exact Reader.reads_bare rfl trivial "JobState"
  | paused n | errored n =>
    exact Reader.reads_single rfl (Reader.reads_index h) trivial (by decide) trivial
      (fun _ _ => trivial) "JobState"
  | rejected reason =>
    have hlegible : ∀ room, depth ≤ room → (Datum.text reason).Legible InQuotes room :=
      fun _ _ => trivial
    exact Reader.reads_single rfl (Reader.reads_text reason) trivial (by decide) trivial hlegible
      "JobState"

theorem names_entries (s : State) :
    (s.entries.map (·.1)).Sublist ["state", "next_step", "failed_step", "reason"] := by
  cases s with
  | complete | aborted => exact .cons_cons _ (List.nil_sublist _)
  | paused _ => exact .cons_cons _ (.cons_cons _ (List.nil_sublist _))
  | errored _ => exact .cons_cons _ (.cons _ (.cons_cons _ (List.nil_sublist _)))
  | rejected _ => exact .cons_cons _ (.cons _ (.cons _ (.refl _)))

/-- What a state adds to its report is texts and numbers. -/
theorem plain_entries (s : State) :
    ∀ e ∈ s.entries, (∃ t, e.2 = .text t) ∨ ∃ n : Nat, e.2 = .natural n := by
  cases s <;> simp [entries]

end State

end Pass

theorem Gateway.CommandRecord.reads_toDatum (r : CommandRecord) :
    reader.Reads InQuotes (depth + 1) r.toDatum r := by
  exact Reader.Reads.record
    ((((((Fields.reads_pure CommandRecord.mk).and (.field (by rfl) (Reader.reads_text r.host) _ _)).and
      (.field (by rfl) (Reader.reads_text r.command) _ _)).and
      (.field (by rfl) (Reader.Reads.orNull Reader.reads_int32 nofun r.exitCode) _ _)).and
      (.field (by rfl) (Reader.reads_text r.stdout) _ _)).and
      (.field (by rfl) (Reader.reads_text r.stderr) _ _))
    (.refl _) (by decide) "struct CommandRecord"

theorem Gateway.CommandRecord.regular_toDatum (r : CommandRecord) : r.toDatum.Regular := by
  have hexit : (Datum.optional (fun c : Int32 => .integer c.toInt) r.exitCode).Regular :=
    .optional (fun _ => .integer) r.exitCode
  exact .record (by simp [Once]) (by simp [hexit])

namespace Report

/-- The positions that a report tells are those of a list. -/
structure InRange (r : Report) : Prop where
  state : r.state.InRange
  steps : ∀ s ∈ r.steps, s.index < UInt64.size

/-- The entries of a report besides those of its state. -/
def fields (r : Report) : List (String × Datum) :=
  [("job_id", .natural r.jobId.toNat), ("steps", .list (r.steps.map Pass.StepRecord.toDatum)),
    ("committed", .optional Job.Transition.toDatum r.committed),
    ("last_command", .optional Gateway.CommandRecord.toDatum r.lastCommand)]

theorem names_fields (r : Report) :
    (r.fields.map (·.1)).Sublist ["job_id", "steps", "committed", "last_command"] := .refl _

/-- The entries of the state stand among the others. -/
theorem order_fields (r : Report) :
    (("job_id", .natural r.jobId.toNat) :: r.state.entries ++ r.fields.tail).Perm
      (r.fields ++ r.state.entries) := List.perm_append_comm.cons _

theorem reads_toDatum {r : Report} (h : r.InRange) : reader.Reads InQuotes (depth + 4) r.toDatum r := by
  have hsteps : (Reader.list Pass.StepRecord.reader).Reads InQuotes (depth + 3)
      (.list (r.steps.map Pass.StepRecord.toDatum)) r.steps :=
    Reader.Reads.list fun s hs => Pass.StepRecord.reads_toDatum (h.steps s hs)
  have hcommitted (t : Job.Transition) : Job.Transition.reader.Reads InQuotes (depth + 3) t.toDatum t :=
    t.reads_toDatum fun _ _ => trivial
  have hlegible : ∀ room, depth + 3 ≤ room → ∀ e ∈ r.state.entries, e.2.Legible InQuotes room := by
    intro room _ e he
    rcases r.state.plain_entries e he with ⟨t, ht⟩ | ⟨n, hn⟩
    · exact ht ▸ trivial
    · exact hn ▸ trivial
  exact Reader.Reads.openRecord
    ((((((Fields.reads_pure Report.mk).and (.field (by rfl) (Reader.reads_uint64 r.jobId) _ _)).and
      (.union (Pass.State.reads_entries h.state))).and
      (.field (by rfl) hsteps _ _)).and
      (.field (by rfl) (Reader.Reads.orNull hcommitted nofun r.committed) _ _)).and
      (.field (by rfl) (Reader.Reads.orNull Gateway.CommandRecord.reads_toDatum nofun r.lastCommand) _ _))
    r.order_fields r.names_fields r.state.names_entries (by decide) hlegible "struct JobReport"

theorem regular_toDatum (r : Report) : r.toDatum.Regular := by
  have hsteps : (Datum.list (r.steps.map Pass.StepRecord.toDatum)).Regular :=
    .list (List.forall_mem_map.mpr fun s _ => s.regular_toDatum)
  have hcommitted := Datum.Regular.optional Job.Transition.regular_toDatum r.committed
  have hcommand := Datum.Regular.optional Gateway.CommandRecord.regular_toDatum r.lastCommand
  have hfields : ∀ e ∈ r.fields, e.2.Regular := by simp [fields, hsteps, hcommitted, hcommand]
  have hnames : ((r.fields ++ r.state.entries).map (·.1)).Nodup := by
    rw [List.map_append]
    exact (r.names_fields.append r.state.names_entries).nodup (by decide)
  refine .record ((r.order_fields.map _).nodup_iff.mpr hnames) fun e he => ?_
  rcases List.mem_append.mp (r.order_fields.subset he) with he | he
  · exact hfields e he
  · rcases r.state.plain_entries e he with ⟨t, ht⟩ | ⟨n, hn⟩
    · exact ht ▸ .text
    · exact hn ▸ .integer

end Report

/-- **Jobs and reports survive as data.** What a job is written as, its maps sorted by name, is
read as the job, and so it is with a report, whose positions are those of a list. A step has
under `step` the name of its kind. Whatever else is found under that name is not read as a
step of another: of an object with a text there, none is read that has another name, and
where the text is the name of no kind, none is read at all. -/
theorem jobs_and_reports_survive :
    (∀ j : Job, Job.reader (.ofMedium .tree) (.ofDatum j.toDatum.sorted) = .ok j) ∧
    (∀ r : Report, r.InRange → Report.reader (.ofMedium .tree) (.ofDatum r.toDatum.sorted) = .ok r) ∧
    (∀ s : Step, ∃ entries, s.toDatum.sorted = .record entries ∧ Once entries ∧
      entries.lookup "step" = some (.text s.name)) ∧
    (∀ (entries : List (String × Datum)) (name : String), Once entries →
      entries.lookup "step" = some (.text name) →
        (∀ s, Step.reader (.ofMedium .tree) (.ofDatum (.record entries)) = .ok s → s.name = name) ∧
        ((∀ k : Step.StepKind, k.name ≠ name) →
          ∃ e, Step.reader (.ofMedium .tree) (.ofDatum (.record entries)) = .error e)) := by
  refine ⟨fun j => ?_, fun r hr => ?_, fun s => ?_, fun entries name once hname => ?_⟩
  · have hreads : Job.reader.Reads InQuotes 4 j.toDatum j := j.reads_toDatum
    exact hreads (.ofMedium .tree) _ (by decide) (Node.shows_sorted j.regular_toDatum)
  · have hreads : Report.reader.Reads InQuotes 4 r.toDatum r := Report.reads_toDatum hr
    exact hreads (.ofMedium .tree) _ (by decide) (Node.shows_sorted r.regular_toDatum)
  · obtain ⟨entries, heq, once, htexts⟩ := Node.sorted_record s.regular_toDatum s.once_entries
    exact ⟨entries, heq, once, htexts "step" s.name s.lookup_tag⟩
  · have hshows : (Node.ofDatum (.record entries)).Shows InQuotes (.record entries) := Node.shows_ofDatum _
    have hread : ∀ s, Step.reader (.ofMedium .tree) (.ofDatum (.record entries)) = .ok s → s.name = name :=
      fun s h => Step.name_of_read hshows once hname h
    refine ⟨hread, fun unknown => ?_⟩
    cases hs : Step.reader (.ofMedium .tree) (.ofDatum (.record entries)) with
    | ok s => exact absurd (hread s hs) (unknown s.kind)
    | error e => exact ⟨e, rfl⟩

/-- A report of a job that stopped at a parameter's version, and a step of no kind. -/
theorem stopped_report_survives :
    let report : Report :=
      ⟨7, .errored 1,
        [⟨0, "conf_param", .succeeded⟩, ⟨1, "conf_param_version", .cleanFailed "told \"no\""⟩,
          ⟨2, "null_step", .notRun⟩],
        none, some ⟨"[mds1]", "lctl conf_param", none, "", "state: errored"⟩⟩
    let entries : List (String × Datum) := [("args", .record [("target", .natural 3)]), ("step", .text "format")]
    report.InRange ∧ Report.reader (.ofMedium .tree) (.ofDatum report.toDatum.sorted) = .ok report ∧
      Once entries ∧ entries.lookup "step" = some (.text "format") ∧
      (∀ k : Step.StepKind, k.name ≠ "format") ∧
      ∃ e, Step.reader (.ofMedium .tree) (.ofDatum (.record entries)) = .error e := by
  intro report entries
  have hstate : (1 : Nat) < UInt64.size := by decide
  have hrange : report.InRange := ⟨hstate, by decide⟩
  have honce : Once entries := by simp [Once, entries]
  have unknown : ∀ k : Step.StepKind, k.name ≠ "format" := by
    intro k
    cases k <;> simp [Step.StepKind.name]
  obtain ⟨_, hreports, _, hsteps⟩ := jobs_and_reports_survive
  exact ⟨hrange, hreports report hrange, honce, rfl, unknown, (hsteps entries "format" honce rfl).2 unknown⟩

end FleetJobs
