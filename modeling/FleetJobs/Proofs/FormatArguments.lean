import FleetJobs.Command.Payload
import FleetJobs.Proofs.JsonTexts
import FleetJobs.Proofs.ShellLines

/-! Arguments for formatting, on their way to an agent.

They are written as JSON, and the JSON as one word of a line for the shell. The shell gives
the agent that word as it was, and the agent reads the arguments from it as they were
(`format_arguments_arrive`): what was absent is left out and read as absent, and an empty
list is not left out. -/
namespace FleetJobs

namespace Command.FormatArgs

open FleetJobs.Data

variable {sure : String → Prop}

theorem reads_nids (names : List String) :
    (Reader.list Reader.text).Reads sure 1 (.strings names) names :=
  Reader.Reads.list fun t _ => Reader.reads_text t

theorem reads_servers (servers : List (List String)) :
    (Reader.list (Reader.list Reader.text)).Reads sure 2 (.list (servers.map .strings)) servers :=
  Reader.Reads.list fun names _ => reads_nids names

/-- **The reader takes what is written for what was to be written.** -/
theorem reads_toDatum (a : FormatArgs) : reader.Reads sure 3 a.toDatum a := by
  let lists (xs : List (List String)) : Datum := .list (xs.map .strings)
  let entries : List (String × Datum) :=
    ("target_types", .text a.targetTypes) :: presentEntry "fsname" .text a.fsname ++
      presentEntry "mgsnode" lists a.mgsnode ++ [("reformat", .boolean a.reformat)] ++
      presentEntry "failnode" lists a.failnode ++ [("device", .text a.device)]
  have htypes : entries.lookup "target_types" = some (.text a.targetTypes) := by
    simp [entries]
  have hfsname : entries.lookup "fsname" = a.fsname.map .text := by
    simp [entries, List.lookup_append, List.lookup_cons, lookup_presentEntry]
  have hmgsnode : entries.lookup "mgsnode" = a.mgsnode.map lists := by
    simp [entries, List.lookup_append, List.lookup_cons, lookup_presentEntry]
  have hreformat : entries.lookup "reformat" = some (.boolean a.reformat) := by
    simp [entries, List.lookup_append, List.lookup_cons, lookup_presentEntry]
  have hfailnode : entries.lookup "failnode" = a.failnode.map lists := by
    simp [entries, List.lookup_append, List.lookup_cons, lookup_presentEntry]
  have hdevice : entries.lookup "device" = some (.text a.device) := by
    simp [entries, List.lookup_append, List.lookup_cons, lookup_presentEntry]
  have htext (t : String) : Datum.text t ≠ .null := Datum.noConfusion
  have hlists (xs : List (List String)) : lists xs ≠ .null := Datum.noConfusion
  have hmk : (Fields.pure FormatArgs.mk).Reads sure 2 entries [] FormatArgs.mk := Fields.reads_pure _
  have hfields := (((((hmk.and
    (.field htypes (Reader.reads_text _) none none)).and
    (.optional hfsname Reader.reads_text htext)).and
    (.optional hmgsnode reads_servers hlists)).and
    (.field hreformat (Reader.reads_boolean _) none none)).and
    (.optional hfailnode reads_servers hlists)).and
    (.field hdevice (Reader.reads_text _) none none)
  have hnames : (entries.map (·.1)).Sublist
      ["target_types", "fsname", "mgsnode", "reformat", "failnode", "device"] := by
    have hpresent := (names_presentEntry "fsname" Datum.text a.fsname).append
      ((names_presentEntry "mgsnode" lists a.mgsnode).append (.cons_cons "reformat"
        ((names_presentEntry "failnode" lists a.failnode).append (.refl ["device"]))))
    simpa [entries] using hpresent.cons_cons "target_types"
  exact Reader.Reads.record hfields hnames (by decide) "struct FormatArgs"

/-- Nothing in the arguments is written as a number. -/
theorem verbal_toDatum (a : FormatArgs) : Json.Verbal a.toDatum := by
  have hnids (names : List String) : Json.Verbal (.strings names) :=
    Json.verbal_list fun d hd => by
      obtain ⟨name, _, rfl⟩ := List.mem_map.mp hd
      exact True.intro
  have hservers (servers : List (List String)) : Json.Verbal (.list (servers.map .strings)) :=
    Json.verbal_list fun d hd => by
      obtain ⟨names, _, rfl⟩ := List.mem_map.mp hd
      exact hnids names
  have hpresent {β : Type} (name : String) (write : β → Datum) (hwrite : ∀ b, Json.Verbal (write b))
      (x : Option β) : ∀ e ∈ presentEntry name write x, Json.Verbal e.2 := by
    cases x with
    | none => exact fun _ he => absurd he List.not_mem_nil
    | some b => exact fun e he => List.mem_singleton.mp he ▸ hwrite b
  refine Json.verbal_record fun e he => ?_
  simp only [List.mem_append, List.mem_cons, List.not_mem_nil, or_false] at he
  rcases he with ((((rfl | he) | he) | rfl) | he) | rfl
  · exact True.intro
  · exact hpresent "fsname" .text (fun _ => True.intro) a.fsname e he
  · exact hpresent "mgsnode" _ hservers a.mgsnode e he
  · exact True.intro
  · exact hpresent "failnode" _ hservers a.failnode e he
  · exact True.intro

theorem read_write (a : FormatArgs) : Json.read reader (Json.write a.toDatum) = .ok a :=
  Json.read_write a.reads_toDatum a.verbal_toDatum (by decide)

end Command.FormatArgs

open FleetJobs.Command
open FleetJobs.Text.ShellWord (isPlain split)

/-- **Arguments for formatting arrive as they were sent.** The shell splits the line into the
name of an agent whose name stands for itself, the subcommand, the flag and one word of JSON.
What is read from that word are the arguments again: what was absent is absent, and an empty
list is none that was absent. So no two arguments have one line. -/
theorem format_arguments_arrive {agent : String} (named : agent ≠ "")
    (plain : ∀ c ∈ agent.toList, isPlain c = true) (args : FormatArgs) :
    split (args.request.line agent) =
        some [agent, "format-target", "--args", Json.write args.toDatum] ∧
      Json.read FormatArgs.reader (Json.write args.toDatum) = .ok args ∧
      ∀ other : FormatArgs, other.request.line agent = args.request.line agent → other = args := by
  have words (a : FormatArgs) : split (a.request.line agent) =
      some [agent, "format-target", "--args", Json.write a.toDatum] :=
    AgentRequest.split_line named plain a.request
  refine ⟨words args, args.read_write, fun other h => ?_⟩
  have hjson : Json.write other.toDatum = Json.write args.toDatum := by
    have hwords := words other
    rw [h, words args] at hwords
    simpa using hwords.symm
  have hread := other.read_write
  rw [hjson, args.read_write] at hread
  exact (Except.ok.inj hread).symm

/-- Quotes of both kinds, a backslash and controls, an empty list and an absent one. -/
theorem awkward_arguments_arrive :
    let agent := "hydra-agent"
    let args : FormatArgs := ⟨"mdt", some "a'b\"c\\\n\x01", some [], true, none, "/dev/disk 1"⟩
    let json := "\x7b\"target_types\":\"mdt\",\"fsname\":\"a'b\\\"c\\\\\\n\\u0001\"," ++
      "\"mgsnode\":[],\"reformat\":true,\"device\":\"/dev/disk 1\"\x7d"
    agent ≠ "" ∧ (∀ c ∈ agent.toList, isPlain c = true) ∧ Json.write args.toDatum = json ∧
      split (args.request.line agent) = some [agent, "format-target", "--args", json] ∧
      Json.read FormatArgs.reader json = .ok args := by
  intro agent args json
  have named : agent ≠ "" := by decide
  have plain : ∀ c ∈ agent.toList, isPlain c = true := List.all_eq_true.mp (by decide)
  have hjson : Json.write args.toDatum = json := by decide +kernel
  obtain ⟨hsplit, hread, _⟩ := format_arguments_arrive named plain args
  exact ⟨named, plain, hjson, hjson ▸ hsplit, hjson ▸ hread⟩

end FleetJobs
