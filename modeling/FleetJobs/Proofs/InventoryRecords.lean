import FleetJobs.Fleet.Inventory
import FleetJobs.Proofs.Instants
import FleetJobs.Proofs.Unions
import FleetJobs.Proofs.YamlDocuments

/-! The records of an inventory in their texts.

Each record is read from what it is written as, and what it is written as is data whose text
is taken back (`Yaml.Tidy`): a record has a name for every entry, and all its numbers are
naturals of 64 bits. The names of variants and of their fields stand for themselves without
quotes, so that a union inside a record can be taken out of its text. -/
namespace FleetJobs

open FleetJobs.Data
open FleetJobs.Yaml (IsSure Tidy)

variable {depth : Nat}

namespace Yaml

/-! ### Data that is tidy -/

/-- Names that need no quotes and are short enough for a key. -/
def isKey (name : String) : Bool := !needsQuotes name && decide (name.length ≤ Scanner.keyReach)

theorem tidyEntries_record {entries : List (String × Datum)} (keys : ∀ e ∈ entries, isKey e.1 = true)
    (values : ∀ e ∈ entries, Tidy e.2) : TidyEntries (entries.map fun e => (.text e.1, e.2)) := by
  induction entries with
  | nil => trivial
  | cons e entries ih =>
    obtain ⟨hkey, hkeys⟩ := List.forall_mem_cons.mp keys
    obtain ⟨hvalue, hvalues⟩ := List.forall_mem_cons.mp values
    simp only [isKey, Bool.and_eq_true, Bool.not_eq_true', decide_eq_true_eq] at hkey
    exact ⟨⟨e.1, rfl, hkey.1, hkey.2⟩, hvalue, ih hkeys hvalues⟩

/-- A record with some of these names. -/
theorem tidy_record {entries : List (String × Datum)} (names : List String)
    (hnames : (entries.map (·.1)).Sublist names) (keys : names.all isKey = true) (nonempty : entries ≠ [])
    (values : ∀ e ∈ entries, Tidy e.2) : Tidy (.record entries) :=
  ⟨by simpa using nonempty, tidyEntries_record
    (fun _ he => List.all_eq_true.mp keys _ (hnames.subset (List.mem_map_of_mem he))) values⟩

theorem tidy_list {write : α → Datum} {as : List α} (h : ∀ a ∈ as, Tidy (write a)) :
    Tidy (.list (as.map write)) := by
  show TidyItems (as.map write)
  induction as with
  | nil => trivial
  | cons a as ih =>
    obtain ⟨ha, has⟩ := List.forall_mem_cons.mp h
    exact ⟨ha, ih has⟩

theorem tidy_optional (write : α → Datum) (h : ∀ a, Tidy (write a)) (x : Option α) :
    Tidy (.optional write x) := by
  cases x with
  | none => trivial
  | some a => exact h a

theorem tidy_natural {n : Nat} (h : n < UInt64.size) : Tidy (.natural n) :=
  ⟨Int.natCast_nonneg n, Int.ofNat_lt.mpr h⟩

end Yaml

open FleetJobs.Yaml

namespace Fleet

theorem Id.tidy_toDatum {kind : Kind} (id : Id kind) : Tidy id.toDatum :=
  tidy_natural (Nat.lt_trans id.number.toNat_lt (by decide))

/-! ### Hosts, volumes and file systems -/

theorem reads_instant {sure : String → Prop} (t : Calendar.Instant) :
    Reader.instant.Reads sure depth (.text t.write) t := by
  intro s n _ hn
  have htext := Reader.textFor_of_shows hn "an RFC 3339 formatted date and time string" s
  simp only [Reader.instant, htext, bind, Except.bind, t.read_write]

theorem LnetState.isSure_name (s : LnetState) : IsSure s.name := by
  cases s <;> exact (rfl : plainAtom _ = _)

theorem LnetState.reads_name (s : LnetState) : reader.Reads IsSure depth (.text s.name) s :=
  Reader.reads_choice (by cases s <;> rfl) s.isSure_name "LnetState"

namespace Host

theorem reads_toDatum (h : Host) : reader.Reads IsSure (depth + 2) h.toDatum h := by
  have hnids : (Reader.list Reader.text).Reads IsSure (depth + 1) (.strings h.nids) h.nids :=
    Reader.Reads.list fun nid _ => Reader.reads_text nid
  exact Reader.Reads.record
    ((((((((Fields.reads_pure Host.mk).and (.field (by rfl) h.id.reads_toDatum _ _)).and
      (.field (by rfl) (Reader.reads_text h.address) _ _)).and
      (.field (by rfl) (Reader.Reads.orNull Reader.reads_uint16 nofun h.port) _ _)).and
      (.field (by rfl) (Reader.Reads.orNull Reader.reads_text nofun h.user) _ _)).and
      (.field (by rfl) h.lnetState.reads_name _ _)).and
      (.field (by rfl) (Reader.Reads.orNull reads_instant (fun _ => Datum.noConfusion) h.lastSuccess) _ _)).and
      (.field (by rfl) hnids _ _))
    (.refl _) (by decide) "struct Host"

theorem tidy_toDatum (h : Host) : Tidy h.toDatum := by
  have hport := tidy_optional _ (fun p : UInt16 => tidy_natural (Nat.lt_trans p.toNat_lt (by decide))) h.port
  have huser := tidy_optional Datum.text (fun _ => trivial) h.user
  have hseen := tidy_optional (fun t : Calendar.Instant => .text t.write) (fun _ => trivial) h.lastSuccess
  have hnids : Tidy (.strings h.nids) := tidy_list fun _ _ => trivial
  refine tidy_record ["id", "address", "port", "user", "lnet_state", "last_success", "nids"]
    (.refl _) (by decide +kernel) (List.cons_ne_nil _ _) ?_
  simp only [List.forall_mem_cons]
  exact ⟨h.id.tidy_toDatum, trivial, hport, huser, trivial, hseen, hnids, List.forall_mem_nil _⟩

end Host

namespace Lun

theorem reads_toDatum (l : Lun) : reader.Reads IsSure (depth + 1) l.toDatum l := by
  exact Reader.Reads.record
    (((Fields.reads_pure Lun.mk).and (.field (by rfl) l.id.reads_toDatum _ _)).and
      (.field (by rfl) (Reader.Reads.orNull Reader.reads_text nofun l.fsUuid) _ _))
    (.refl _) (by decide) "struct Lun"

theorem tidy_toDatum (l : Lun) : Tidy l.toDatum := by
  have huuid := tidy_optional Datum.text (fun _ => trivial) l.fsUuid
  refine tidy_record ["id", "fs_uuid"] (.refl _) (by decide +kernel) (List.cons_ne_nil _ _) ?_
  simp only [List.forall_mem_cons]
  exact ⟨l.id.tidy_toDatum, huuid, List.forall_mem_nil _⟩

end Lun

namespace LunNode

theorem reads_toDatum (n : LunNode) : reader.Reads IsSure (depth + 1) n.toDatum n := by
  exact Reader.Reads.record
    (((((((Fields.reads_pure fun id host path size usedHint lun =>
        (⟨id, ⟨host, path, size, usedHint⟩, lun⟩ : LunNode)).and
      (.field (by rfl) n.id.reads_toDatum _ _)).and
      (.field (by rfl) n.device.host.reads_toDatum _ _)).and
      (.field (by rfl) (Reader.reads_text n.device.path) _ _)).and
      (.field (by rfl) (Reader.reads_uint64 n.device.size) _ _)).and
      (.field (by rfl) (Reader.reads_boolean n.device.usedHint) _ _)).and
      (.field (by rfl) (Reader.Reads.orNull Id.reads_toDatum nofun n.lun) _ _))
    (.refl _) (by decide) "struct LunNode"

theorem tidy_toDatum (n : LunNode) : Tidy n.toDatum := by
  have hlun := tidy_optional _ Id.tidy_toDatum n.lun
  refine tidy_record ["id", "host", "path", "size", "used_hint", "lun"] (.refl _) (by decide +kernel) (List.cons_ne_nil _ _) ?_
  simp only [List.forall_mem_cons]
  exact ⟨n.id.tidy_toDatum, n.device.host.tidy_toDatum, trivial, tidy_natural n.device.size.toNat_lt, trivial,
    hlun, List.forall_mem_nil _⟩

end LunNode

namespace Filesystem

theorem reads_toDatum (f : Filesystem) : reader.Reads IsSure (depth + 1) f.toDatum f := by
  exact Reader.Reads.record
    ((((Fields.reads_pure Filesystem.mk).and (.field (by rfl) f.id.reads_toDatum _ _)).and
      (.field (by rfl) (Reader.reads_text f.name) _ _)).and
      (.field (by rfl) f.mgs.reads_toDatum _ _))
    (.refl _) (by decide) "struct Filesystem"

theorem tidy_toDatum (f : Filesystem) : Tidy f.toDatum := by
  refine tidy_record ["id", "name", "mgs"] (.refl _) (by decide +kernel) (List.cons_ne_nil _ _) ?_
  simp only [List.forall_mem_cons]
  exact ⟨f.id.tidy_toDatum, trivial, f.mgs.tidy_toDatum, List.forall_mem_nil _⟩

end Filesystem

namespace Mgs

theorem reads_toDatum (m : Mgs) : reader.Reads IsSure (depth + 1) m.toDatum m := by
  exact Reader.Reads.record
    (((Fields.reads_pure Mgs.mk).and (.field (by rfl) m.target.reads_toDatum _ _)).and
      (.field (by rfl) (Reader.reads_uint64 m.versionApplied) _ _))
    (.refl _) (by decide) "struct Mgs"

theorem tidy_toDatum (m : Mgs) : Tidy m.toDatum := by
  refine tidy_record ["target", "conf_param_version_applied"] (.refl _) (by decide +kernel) (List.cons_ne_nil _ _) ?_
  simp only [List.forall_mem_cons]
  exact ⟨m.target.tidy_toDatum, tidy_natural m.versionApplied.toNat_lt, List.forall_mem_nil _⟩

end Mgs

/-! ### Targets and their mounts -/

theorem MountState.isSure_name (s : MountState) : IsSure s.name := by
  cases s <;> exact (rfl : plainAtom _ = _)

theorem MountState.reads_name (s : MountState) : reader.Reads IsSure depth (.text s.name) s :=
  Reader.reads_choice (by cases s <;> rfl) s.isSure_name "TargetMountState"

namespace TargetMount

theorem reads_toDatum (m : TargetMount) : reader.Reads IsSure (depth + 1) m.toDatum m := by
  exact Reader.Reads.record
    ((((((((Fields.reads_pure TargetMount.mk).and (.field (by rfl) m.id.reads_toDatum _ _)).and
      (.field (by rfl) m.target.reads_toDatum _ _)).and
      (.field (by rfl) m.host.reads_toDatum _ _)).and
      (.field (by rfl) (Reader.reads_boolean m.primary) _ _)).and
      (.field (by rfl) m.state.reads_name _ _)).and
      (.field (by rfl) (Reader.reads_text m.mountPoint) _ _)).and
      (.field (by rfl) (Reader.Reads.orNull Id.reads_toDatum nofun m.blockDevice) _ _))
    (.refl _) (by decide) "struct TargetMount"

theorem tidy_toDatum (m : TargetMount) : Tidy m.toDatum := by
  have hdevice := tidy_optional _ Id.tidy_toDatum m.blockDevice
  refine tidy_record ["id", "target", "host", "primary", "state", "mount_point", "block_device"]
    (.refl _) (by decide +kernel) (List.cons_ne_nil _ _) ?_
  simp only [List.forall_mem_cons]
  exact ⟨m.id.tidy_toDatum, m.target.tidy_toDatum, m.host.tidy_toDatum, trivial, trivial, trivial, hdevice,
    List.forall_mem_nil _⟩

end TargetMount

namespace TargetKind

/-- **What a kind adds to its target is read as the kind.** -/
theorem reads_toDatum (k : TargetKind) : reader.Reads IsSure (depth + 1) k.toDatum k := by
  have hkind : IsSure "kind" := rfl
  have hfilesystem : IsSure "filesystem" := rfl
  cases k with
  | mgs => exact Reader.reads_bare rfl hkind "TargetKind"
  | mdt f | ost f =>
    exact Reader.reads_single rfl f.reads_toDatum hkind (by decide) hfilesystem (fun _ _ => trivial) "TargetKind"

theorem names_entries (k : TargetKind) : (k.entries.map (·.1)).Sublist ["kind", "filesystem"] :=
  (names_presentEntry "filesystem" Id.toDatum k.filesystem?).cons_cons "kind"

theorem isSure_tag (k : TargetKind) : IsSure k.tag := by
  cases k with
  | mgs => exact (rfl : IsSure "mgs")
  | mdt => exact (rfl : IsSure "mdt")
  | ost => exact (rfl : IsSure "ost")

/-- A kind adds its tag and perhaps a number. -/
theorem mem_entries {k : TargetKind} {e : String × Datum} (h : e ∈ k.entries) :
    e.2 = .text k.tag ∨ ∃ f : FilesystemId, e.2 = f.toDatum := by
  rcases List.mem_cons.mp h with rfl | h
  · exact .inl rfl
  · cases hf : k.filesystem? with
    | none => simp [hf, presentEntry] at h
    | some f =>
      simp only [hf, presentEntry, List.mem_singleton] at h
      exact .inr ⟨f, h ▸ rfl⟩

end TargetKind

namespace Target

theorem reads_toDatum (t : Target) : reader.Reads IsSure (depth + 2) t.toDatum t := by
  have hlegible : ∀ room, depth + 1 ≤ room → ∀ e ∈ t.kind.entries, e.2.Legible IsSure room := by
    intro room _ e he
    rcases TargetKind.mem_entries he with heq | ⟨f, heq⟩
    · exact heq ▸ t.kind.isSure_tag
    · exact heq ▸ trivial
  have distinct : (["id", "name"] ++ ["kind", "filesystem"]).Nodup := by decide
  have horder : (("id", t.id.toDatum) :: t.kind.entries ++ [("name", Datum.optional .text t.name)]).Perm
      ([("id", t.id.toDatum), ("name", Datum.optional .text t.name)] ++ t.kind.entries) :=
    List.Perm.cons _ List.perm_append_comm
  exact Reader.Reads.openRecord
    ((((Fields.reads_pure Target.mk).and (.field (by rfl) t.id.reads_toDatum _ _)).and
      (.union t.kind.reads_toDatum)).and
      (.field (by rfl) (Reader.Reads.orNull Reader.reads_text nofun t.name) _ _))
    horder (.refl ["id", "name"]) t.kind.names_entries distinct hlegible "struct Target"

theorem tidy_toDatum (t : Target) : Tidy t.toDatum := by
  have hname := tidy_optional Datum.text (fun _ => trivial) t.name
  have hkind : ∀ e ∈ t.kind.entries, Tidy e.2 := by
    intro e he
    rcases TargetKind.mem_entries he with heq | ⟨f, heq⟩
    · exact heq ▸ trivial
    · exact heq ▸ f.tidy_toDatum
  refine tidy_record ["id", "kind", "filesystem", "name"] ?_ (by decide +kernel) (List.cons_ne_nil _ _) ?_
  · rw [List.map_append]
    exact (t.kind.names_entries.cons_cons "id").append (.refl ["name"])
  · rw [List.cons_append, List.forall_mem_cons, List.forall_mem_append, List.forall_mem_singleton]
    exact ⟨t.id.tidy_toDatum, hkind, hname⟩

end Target

/-! ### Parameters -/

namespace ConfParamScope

def toDatum (c : ConfParamScope) : Datum := .record c.entries

theorem reads_toDatum (c : ConfParamScope) :
    (Reader.tagged "scope" "ConfParamScope" cases).Reads IsSure (depth + 1) c.toDatum c := by
  have hscope : IsSure "scope" := rfl
  have hfilesystem : IsSure "filesystem" := rfl
  have htarget : IsSure "target" := rfl
  cases c with
  | filesystem f =>
    exact Reader.reads_single rfl f.reads_toDatum hscope (by decide) hfilesystem (fun _ _ => trivial)
      "ConfParamScope"
  | target t =>
    exact Reader.reads_single rfl t.reads_toDatum hscope (by decide) htarget (fun _ _ => trivial)
      "ConfParamScope"

theorem names_entries (c : ConfParamScope) :
    (c.entries.map (·.1)).Sublist ["scope", "filesystem", "target"] := by
  cases c with
  | filesystem f => exact .cons_cons _ (.cons_cons _ (.cons _ .slnil))
  | target t => exact .cons_cons _ (.cons _ (.cons_cons _ .slnil))

/-- The name of a scope needs no quotes. -/
theorem legible_entries (c : ConfParamScope) {room : Nat} : ∀ e ∈ c.entries, e.2.Legible IsSure room := by
  cases c <;> simp only [entries, List.forall_mem_cons]
  · exact ⟨(rfl : IsSure "filesystem"), trivial, List.forall_mem_nil _⟩
  · exact ⟨(rfl : IsSure "target"), trivial, List.forall_mem_nil _⟩

theorem tidy_entries (c : ConfParamScope) : ∀ e ∈ c.entries, Tidy e.2 := by
  cases c with
  | filesystem f | target f =>
    simp only [entries, List.forall_mem_cons]
    exact ⟨trivial, f.tidy_toDatum, List.forall_mem_nil _⟩

end ConfParamScope

namespace ConfParam

theorem reads_toDatum (p : ConfParam) : reader.Reads IsSure (depth + 2) p.toDatum p := by
  have distinct : (["id", "mgs", "key", "value"] ++ ["scope", "filesystem", "target"]).Nodup := by decide
  have horder : ([("id", p.id.toDatum), ("mgs", p.mgs.toDatum)] ++ p.scope.entries ++
      [("key", .text p.key), ("value", Datum.optional .text p.value)]).Perm
      ([("id", p.id.toDatum), ("mgs", p.mgs.toDatum), ("key", .text p.key),
        ("value", Datum.optional .text p.value)] ++ p.scope.entries) := by
    rw [List.append_assoc]
    exact List.perm_append_comm.append_left [("id", p.id.toDatum), ("mgs", p.mgs.toDatum)]
  exact Reader.Reads.openRecord
    ((((((Fields.reads_pure ConfParam.mk).and (.field (by rfl) p.id.reads_toDatum _ _)).and
      (.field (by rfl) p.mgs.reads_toDatum _ _)).and
      (.union p.scope.reads_toDatum)).and
      (.field (by rfl) (Reader.reads_text p.key) _ _)).and
      (.field (by rfl) (Reader.Reads.orNull Reader.reads_text nofun p.value) _ _))
    horder (.refl ["id", "mgs", "key", "value"]) p.scope.names_entries distinct
    (fun _ _ => p.scope.legible_entries) "struct ConfParam"

theorem tidy_toDatum (p : ConfParam) : Tidy p.toDatum := by
  have hvalue := tidy_optional Datum.text (fun _ => trivial) p.value
  refine tidy_record ["id", "mgs", "scope", "filesystem", "target", "key", "value"] ?_ (by decide +kernel)
    (List.cons_ne_nil _ _) ?_
  · rw [List.map_append, List.map_append]
    exact ((List.Sublist.refl ["id", "mgs"]).append p.scope.names_entries).append (.refl ["key", "value"])
  · simp only [List.forall_mem_append, List.forall_mem_cons]
    exact ⟨⟨⟨p.id.tidy_toDatum, p.mgs.tidy_toDatum, List.forall_mem_nil _⟩, p.scope.tidy_entries⟩,
      trivial, hvalue, List.forall_mem_nil _⟩

end ConfParam

/-! ### Whole inventories -/

namespace Inventory

theorem reads_toDatum (i : Inventory) : reader.Reads IsSure (depth + 4) i.toDatum i := by
  exact Reader.Reads.record
    (((((((((Fields.reads_pure Inventory.mk).and
      (.field (by rfl) (.list fun h _ => h.reads_toDatum) _ _)).and
      (.field (by rfl) (.list fun t _ => t.reads_toDatum) _ _)).and
      (.field (by rfl) (.list fun m _ => m.reads_toDatum) _ _)).and
      (.field (by rfl) (.list fun l _ => l.reads_toDatum) _ _)).and
      (.field (by rfl) (.list fun n _ => n.reads_toDatum) _ _)).and
      (.field (by rfl) (.list fun f _ => f.reads_toDatum) _ _)).and
      (.field (by rfl) (.list fun m _ => m.reads_toDatum) _ _)).and
      (.field (by rfl) (.list fun p _ => p.reads_toDatum) _ _))
    (.refl _) (by decide) "struct Inventory"

theorem tidy_toDatum (i : Inventory) : Tidy i.toDatum := by
  refine tidy_record ["hosts", "targets", "target_mounts", "luns", "lun_nodes", "filesystems", "mgs",
    "conf_params"] (.refl _) (by decide +kernel) (List.cons_ne_nil _ _) ?_
  simp only [List.forall_mem_cons]
  exact ⟨tidy_list fun h _ => h.tidy_toDatum, tidy_list fun t _ => t.tidy_toDatum,
    tidy_list fun m _ => m.tidy_toDatum, tidy_list fun l _ => l.tidy_toDatum,
    tidy_list fun n _ => n.tidy_toDatum, tidy_list fun f _ => f.tidy_toDatum,
    tidy_list fun m _ => m.tidy_toDatum, tidy_list fun p _ => p.tidy_toDatum,
    List.forall_mem_nil _⟩

end Inventory

end Fleet

end FleetJobs
