import FleetJobs.Proofs.ConfParams
import FleetJobs.Proofs.Discovery
import Mathlib

/-! Formatting a target, from the records that it goes by to those that it leaves.

A format looks everything up before it sends anything: it either finds all that it goes by
(`Store.Formattable`), and then the arguments are what the records say (`Store.formatArgs`), or
it fails without a command. With the uuid that the agent tells it does one of two things: the
volume behind the device gets it, or a new volume does and goes behind the device
(`Store.Formatted`). Either is done unless another volume has the uuid already. -/
namespace FleetJobs

open FleetJobs.Command
open FleetJobs.Data
open FleetJobs.Fleet
open FleetJobs.Gateway
open FleetJobs.Step (StepKind)

namespace Store

/-! ### What a format goes by -/

/-- The mount is the target's primary one; of several it is that with the lowest number. -/
structure PrimaryOf (s : Store) (target : TargetId) (p : TargetMount) : Prop where
  mem : p ∈ s.targetMounts.records
  ofTarget : p.target = target
  isPrimary : p.primary = true
  lowest : ∀ m ∈ s.targetMounts.records, m.target = target → m.primary = true → p.id.key ≤ m.id.key

/-- The mounts of a target, in order of their numbers. -/
def mountsOf (s : Store) (target : TargetId) : List TargetMount :=
  s.targetMounts.filter fun m => m.target == target

theorem mem_mountsOf {s : Store} {target : TargetId} {m : TargetMount} :
    m ∈ s.mountsOf target ↔ m ∈ s.targetMounts.records ∧ m.target = target := by
  simp [mountsOf, Table.filter]

theorem first_primary_iff {s : Store} {target : TargetId} {p : TargetMount} :
    (s.mountsOf target).find? TargetMount.primary = some p ↔ s.PrimaryOf target p := by
  unfold mountsOf Table.filter
  rw [List.find?_filter, Table.first_eq_some_iff]
  simp only [decide_eq_true_eq, beq_iff_eq, and_imp]
  constructor
  · rintro ⟨hmem, ⟨htarget, hprimary⟩, hlowest⟩
    exact ⟨hmem, htarget, hprimary, hlowest⟩
  · exact fun h => ⟨h.mem, ⟨h.ofTarget, h.isPrimary⟩, h.lowest⟩

/-- The interfaces of the hosts of mounts, host by host; a host that has none is passed over. -/
def nidsOf (s : Store) (mounts : List TargetMount) : List (List String) :=
  ((mounts.filterMap fun m => s.hosts.find? m.host.key).map Host.nids).filter fun nids =>
    !nids.isEmpty

/-- The file system that a target belongs to. -/
def filesystemOf (s : Store) (t : Target) : Option Filesystem :=
  t.kind.filesystem?.bind fun id => s.filesystems.find? id.key

/-- What the agent is told to format a target on a device, as the records say it. -/
def formatArgs (s : Store) (t : Target) (n : LunNode) : FormatArgs :=
  let failnode := s.nidsOf ((s.mountsOf t.id).filter fun m => !m.primary)
  { targetTypes := t.kind.tag
    fsname := (s.filesystemOf t).map Filesystem.name
    mgsnode := (s.filesystemOf t).map fun fs => s.nidsOf (Step.primaryFirst (s.mountsOf fs.mgs))
    reformat := true
    failnode := if failnode.isEmpty then none else some failnode
    device := n.device.path }

/-- Every record is there that the arguments for a target are made of. -/
structure Describable (s : Store) (t : Target) : Prop where
  servers : ∀ m ∈ s.targetMounts.records, m.target = t.id → m.primary = false →
    s.hosts.contains m.host.key = true
  filesystem : ∀ id, t.kind.filesystem? = some id → ∃ fs, s.filesystems.find? id.key = some fs ∧
    ∀ m ∈ s.targetMounts.records, m.target = fs.mgs → s.hosts.contains m.host.key = true

/-- Every record is there that formatting the target goes by: the target, its primary mount, the
device of that mount and its host, and all that the arguments are made of. -/
structure Formattable (s : Store) (id : TargetId) (t : Target) (p : TargetMount) (n : LunNode)
    (host : Host) : Prop where
  target : s.targets.find? id.key = some t
  primary : s.PrimaryOf id p
  device : p.blockDevice = some n.id
  node : s.lunNodes.find? n.id.key = some n
  host : s.hosts.find? p.host.key = some host
  described : s.Describable t

/-! ### What a format leaves -/

/-- The volume behind the device can be given the uuid: no other has it, and the volume is there
or there is none and a number is left for one. -/
structure TakesUuid (s : Store) (n : LunNode) (uuid : String) : Prop where
  free : ∀ l ∈ s.luns.records, l.fsUuid = some uuid → n.lun = some l.id
  known : ∀ id, n.lun = some id → s.luns.contains id.key = true
  left : n.lun = none → s.luns.nextKey < UInt32.size

/-- The volume `l` is behind the device and has the uuid, alone of all. It is the one that was
behind the device, in its place, or a new one behind all others. Nothing else has changed. -/
structure Formatted (s s' : Store) (n : LunNode) (uuid : String) (l : Lun) : Prop where
  told : l.fsUuid = some uuid
  alone : ∀ l' ∈ s'.luns.records, l'.fsUuid = some uuid → l' = l
  behind : s'.lunNodes.find? n.id.key = some { n with lun := some l.id }
  volume : s'.luns.find? l.id.key = some l
  reused : ∀ id, n.lun = some id → l.id = id ∧ s'.lunNodes = s.lunNodes ∧
    ∀ k, s'.luns.contains k = s.luns.contains k
  added : n.lun = none → s'.luns.records = s.luns.records ++ [l] ∧
    ∀ k, s'.lunNodes.contains k = s.lunNodes.contains k
  rest : s' = { s with
    luns := s.luns.insert l
    lunNodes := s.lunNodes.insert { n with lun := some l.id } }

/-- A record that is put in where there is one takes no new number. -/
theorem Table.contains_insert_of_contains {α : Type} [Keyed α] {t : Table α} {r : α}
    (h : t.contains (Keyed.key r) = true) (k : Nat) : (t.insert r).contains k = t.contains k := by
  unfold contains at h ⊢
  rw [find?_insert]
  split
  · rename_i hk
    rw [← hk, h]
    rfl
  · rfl

/-- The store in which the volume has the uuid and is behind the device. -/
theorem formatted_insert {s : Store} {n : LunNode} {uuid : String} {l : Lun}
    (hnode : s.lunNodes.find? n.id.key = some n) (takes : s.TakesUuid n uuid)
    (huuid : l.fsUuid = some uuid) (hreused : ∀ id, n.lun = some id → l.id = id)
    (hadded : n.lun = none → l.id.key = s.luns.nextKey) :
    s.Formatted { s with
      luns := s.luns.insert l
      lunNodes := s.lunNodes.insert { n with lun := some l.id } } n uuid l where
  told := huuid
  alone l' hl' huuid' := by
    rcases Table.mem_insert.mp hl' with rfl | ⟨hl', hne⟩
    · rfl
    · have hbehind := takes.free l' hl' huuid'
      exact absurd (congrArg Id.key (hreused _ hbehind)).symm hne
  behind := Table.find?_insert_of_eq _ rfl
  volume := Table.find?_insert_of_eq _ rfl
  reused id hid := by
    obtain rfl := hreused id hid
    refine ⟨rfl, ?_, Table.contains_insert_of_contains (takes.known _ hid)⟩
    have hsame : { n with lun := some l.id } = n := by
      rw [← hid]
    show s.lunNodes.insert { n with lun := some l.id } = s.lunNodes
    rw [hsame, Table.insert_of_find? hnode]
  added hnone :=
    ⟨Table.records_insert_next (hadded hnone),
      Table.contains_insert_of_contains (Table.contains_of_find? hnode)⟩
  rest := rfl

end Store

namespace Step

open FleetJobs.Program (Yields yields_bind yields_done yields_pure yields_fail)
open FleetJobs.Store (Table first_primary_iff mem_mountsOf)

variable {σ : Type} {o : Outside σ} {w w' : World σ}

/-! ### The arguments -/

theorem yields_nidsOf {mounts : List TargetMount} {nids : List (List String)} :
    (nidsOf mounts).Yields o w nids w' ↔
      (∀ m ∈ mounts, w.store.hosts.contains m.host.key = true) ∧
        w.store.nidsOf mounts = nids ∧ w = w' := by
  induction mounts generalizing nids w' with
  | nil => simp [nidsOf, Store.nidsOf, yields_done]
  | cons m rest ih =>
    simp only [nidsOf, yields_bind, yields_host, yields_pure, List.forall_mem_cons, and_assoc,
      exists_and_left, exists_eq_left']
    cases hhost : w.store.hosts.find? m.host.key with
    | none => simp [Table.contains, hhost]
    | some host =>
      have hnids : w.store.nidsOf (m :: rest) =
          if host.nids.isEmpty then w.store.nidsOf rest else host.nids :: w.store.nidsOf rest := by
        unfold Store.nidsOf
        rw [List.filterMap_cons, hhost, List.map_cons, List.filter_cons]
        cases host.nids.isEmpty <;> rfl
      simp only [Table.contains_of_find? hhost, true_and, hnids, Option.some.injEq,
        exists_eq_left']
      constructor
      · rintro ⟨others, w₁, hothers, h⟩
        obtain ⟨hrest, rfl, rfl⟩ := ih.mp hothers
        exact ⟨hrest, h⟩
      · rintro ⟨hrest, h⟩
        exact ⟨_, _, ih.mpr ⟨hrest, rfl, rfl⟩, h⟩

theorem yields_managementNids {mgs : TargetId} {nids : List (List String)} :
    (managementNids mgs).Yields o w nids w' ↔
      (∀ m ∈ w.store.targetMounts.records, m.target = mgs →
        w.store.hosts.contains m.host.key = true) ∧
        w.store.nidsOf (primaryFirst (w.store.mountsOf mgs)) = nids ∧ w = w' := by
  have hmem (m : TargetMount) : m ∈ primaryFirst (w.store.mountsOf mgs) ↔
      m ∈ w.store.targetMounts.records ∧ m.target = mgs := by
    unfold primaryFirst
    rw [← mem_mountsOf, List.mem_append, List.mem_filter, List.mem_filter]
    cases m.primary <;> simp
  simp only [managementNids, yields_bind, yields_targetMounts, and_assoc, exists_and_left,
    exists_eq_left']
  show (nidsOf (primaryFirst (w.store.mountsOf mgs))).Yields o w nids w' ↔ _
  simp only [yields_nidsOf, hmem, and_imp]

/-- **The arguments are what the records say**, and nothing is changed to find them. -/
theorem yields_formatArgs {t : Target} {n : LunNode} {args : FormatArgs} :
    (formatArgs t (w.store.mountsOf t.id) n).Yields o w args w' ↔
      w.store.Describable t ∧ w.store.formatArgs t n = args ∧ w = w' := by
  have hservers : (∀ m ∈ (w.store.mountsOf t.id).filter fun m => !m.primary,
      w.store.hosts.contains m.host.key = true) ↔ ∀ m ∈ w.store.targetMounts.records,
        m.target = t.id → m.primary = false → w.store.hosts.contains m.host.key = true := by
    simp only [List.mem_filter, mem_mountsOf, Bool.not_eq_true', and_imp]
  unfold formatArgs Store.formatArgs Store.filesystemOf
  cases hkind : t.kind.filesystem? with
  | none =>
    simp only [yields_bind, yields_pure, yields_nidsOf, hservers, and_assoc, exists_and_left,
      exists_eq_left', Option.bind_none, Option.map_none]
    constructor
    · rintro ⟨hmounts, h⟩
      exact ⟨⟨hmounts, by simp [hkind]⟩, h⟩
    · rintro ⟨described, h⟩
      exact ⟨described.servers, h⟩
  | some id =>
    simp only [yields_bind, yields_filesystem, yields_managementNids, yields_pure, yields_nidsOf,
      hservers, and_assoc, exists_and_left, exists_eq_left', Option.bind_some]
    constructor
    · rintro ⟨fs, hfs, hmanagement, hmounts, h⟩
      rw [hfs]
      refine ⟨⟨hmounts, fun id' hid => ?_⟩, h⟩
      obtain rfl := Option.some.inj (hkind.symm.trans hid)
      exact ⟨fs, hfs, hmanagement⟩
    · rintro ⟨described, h⟩
      obtain ⟨fs, hfs, hmanagement⟩ := described.filesystem id hkind
      rw [hfs] at h
      exact ⟨fs, hfs, hmanagement, described.servers, h⟩

/-! ### Before the command -/

/-- The device of a target's primary mount. -/
def primaryDevice (target : Target) (primary : TargetMount) : StepProgram LunNode :=
  match primary.blockDevice with
  | some node => call (.lunNode node)
  | none => inconsistent (.primaryWithoutDevice target.display)

/-- All that a format looks up: the device, the host, and what to tell it. -/
def formatPlan (id : TargetId) : StepProgram (LunNode × Host × FormatArgs) := do
  let target ← call (.target id)
  let mounts ← call (.targetMounts id)
  let primary ← primaryAmong mounts id
  let node ← primaryDevice target primary
  let host ← call (.host primary.host)
  let args ← formatArgs target mounts node
  return (node, host, args)

theorem formatTarget_eq (agent : String) (id : TargetId) :
    formatTarget agent id = (formatPlan id >>= fun (node, host, args) =>
      risky "format-target" host (args.request.line agent) >>= fun output =>
        decode (Json.read FormatResult.reader output.stdout) >>= fun result =>
          recordUuid node result.uuid) := by
  unfold formatTarget formatPlan primaryDevice
  simp only [bind_assoc, pure_bind]
  refine bind_congr fun target => bind_congr fun mounts => bind_congr fun primary => ?_
  cases primary.blockDevice <;> rfl

theorem yields_primaryDevice {target : Target} {primary : TargetMount} {n : LunNode} :
    (primaryDevice target primary).Yields o w n w' ↔
      primary.blockDevice = some n.id ∧ w.store.lunNodes.find? n.id.key = some n ∧ w = w' := by
  unfold primaryDevice
  cases primary.blockDevice with
  | none => simp
  | some device =>
    simp only [yields_lunNode, Option.some.injEq]
    constructor
    · rintro ⟨hn, hw⟩
      obtain rfl : n.id = device := Id.key_injective (Table.key_of_find? hn)
      exact ⟨rfl, hn, hw⟩
    · rintro ⟨rfl, h⟩
      exact h

theorem yields_formatPlan {id : TargetId} {n : LunNode} {host : Host} {args : FormatArgs} :
    (formatPlan id).Yields o w (n, host, args) w' ↔
      ∃ t p, w.store.Formattable id t p n host ∧ w.store.formatArgs t n = args ∧ w = w' := by
  simp only [formatPlan, yields_bind, yields_target, yields_targetMounts, yields_primaryAmong,
    yields_primaryDevice, yields_host, yields_pure, and_assoc, exists_and_left, exists_eq_left']
  show (∃ t, _ ∧ ∃ p, (w.store.mountsOf id).find? TargetMount.primary = some p ∧ _) ↔ _
  simp only [first_primary_iff]
  constructor
  · rintro ⟨t, ht, p, hp, n', hdevice, hn, host', hhost, args', w₁, hargs, hresult, rfl⟩
    cases hresult
    have hid : t.id = id := Id.key_injective (Table.key_of_find? ht)
    rw [show w.store.targetMounts.filter _ = w.store.mountsOf t.id from hid ▸ rfl] at hargs
    obtain ⟨described, htold, rfl⟩ := yields_formatArgs.mp hargs
    exact ⟨t, p, ⟨ht, hp, hdevice, hn, hhost, described⟩, htold, rfl⟩
  · rintro ⟨t, p, h, hargs, rfl⟩
    obtain rfl : t.id = id := Id.key_injective (Table.key_of_find? h.target)
    exact ⟨t, h.target, p, h.primary, n, h.device, h.node, host, h.host, args, w,
      yields_formatArgs.mpr ⟨h.described, hargs, rfl⟩, rfl, rfl⟩

theorem looks_pure {α : Type} (a : α) : Looks o (pure a : StepProgram α) w :=
  .inl ⟨a, yields_pure.mpr ⟨rfl, rfl⟩⟩

theorem looks_nidsOf (mounts : List TargetMount) : Looks o (nidsOf mounts) w := by
  induction mounts with
  | nil => exact .inl ⟨[], rfl⟩
  | cons m rest ih => exact (looks_call rfl).bind fun host _ => ih.bind fun nids _ => looks_pure _

theorem looks_formatArgs (target : Target) (mounts : List TargetMount) (device : LunNode) :
    Looks o (formatArgs target mounts device) w := by
  have management (mgs : TargetId) : Looks o (managementNids mgs) w :=
    (looks_call rfl).bind fun _ _ => looks_nidsOf _
  unfold formatArgs
  dsimp only
  split
  · exact (looks_pure _).bind fun _ _ => (looks_nidsOf _).bind fun _ _ => looks_pure _
  · exact (looks_call rfl).bind fun fs _ => (management fs.mgs).bind fun _ _ =>
      (looks_pure _).bind fun _ _ => (looks_nidsOf _).bind fun _ _ => looks_pure _

theorem looks_formatPlan (id : TargetId) : Looks o (formatPlan id) w := by
  have primary (mounts : List TargetMount) : Looks o (primaryAmong mounts id) w := by
    unfold primaryAmong
    split
    · exact .inl ⟨_, rfl⟩
    · exact .inr ⟨_, rfl⟩
  have device (t : Target) (p : TargetMount) : Looks o (primaryDevice t p) w := by
    unfold primaryDevice
    split
    · exact looks_call rfl
    · exact .inr ⟨_, rfl⟩
  exact (looks_call rfl).bind fun t _ => (looks_call rfl).bind fun mounts _ =>
    (primary mounts).bind fun p _ => (device t p).bind fun n _ => (looks_call rfl).bind fun host _ =>
      (looks_formatArgs t mounts n).bind fun args _ => looks_pure _

/-! ### After the command -/

/-- The uuid goes to the volume behind the device, or to a new one. -/
theorem recordUuid_formats {n : LunNode} {uuid : String}
    (hnode : w.store.lunNodes.find? n.id.key = some n) (takes : w.store.TakesUuid n uuid) :
    ∃ l s, w.store.Formatted s n uuid l ∧
      (recordUuid n uuid).Yields o w () { w with store := s } := by
  cases hbehind : n.lun with
  | some id =>
    obtain ⟨old, hold⟩ := Table.exists_of_contains (takes.known id hbehind)
    have hid : old.id = id := Id.key_injective (Table.key_of_find? hold)
    have hfree : w.store.uuidTaken uuid (some id) = false :=
      Store.uuidTaken_eq_false_iff.mpr fun l hl hne huuid =>
        hne ((takes.free l hl huuid).symm.trans hbehind)
    -- the device is not written; to put it in again would change nothing
    have hsame : { n with lun := some old.id } = n := by
      rw [hid, ← hbehind]
    refine ⟨{ old with fsUuid := some uuid }, _, Store.formatted_insert hnode takes rfl
      (fun _ h => hid.trans (Option.some.inj (hbehind.symm.trans h)))
      (fun h => absurd (hbehind.symm.trans h) (Option.some_ne_none id)), ?_⟩
    refine yields_recordUuid.mpr (.inl ⟨id, hbehind, yields_call.mpr ⟨_,
      Store.setLunUuid_eq_ok.mpr ⟨hfree, old, hold, rfl⟩, ?_⟩⟩)
    rw [hsame, Table.insert_of_find? hnode]
  | none =>
    have hfree : ∀ l ∈ w.store.luns.records, l.fsUuid ≠ some uuid := fun l hl huuid =>
      Option.some_ne_none l.id ((takes.free l hl huuid).symm.trans hbehind)
    obtain ⟨l, hcreate, huuid⟩ := Store.createLun_of_free hfree (takes.left hbehind)
    obtain ⟨_, hnext, _, _⟩ := Store.createLun_eq_ok hcreate
    refine ⟨l, _, Store.formatted_insert hnode takes huuid
      (fun id h => absurd (hbehind.symm.trans h).symm (Option.some_ne_none id)) (fun _ => hnext), ?_⟩
    refine yields_recordUuid.mpr (.inr ⟨hbehind, l, _, yields_call.mpr ⟨_, hcreate, rfl⟩,
      yields_call.mpr ⟨_, Store.attachLun_eq_ok.mpr ⟨l, n, ?_, hnode, rfl⟩, rfl⟩⟩)
    exact Table.find?_insert_of_eq _ rfl

theorem takes_of_recordUuid {n : LunNode} {uuid : String}
    (h : (recordUuid n uuid).Yields o w () w') : w.store.TakesUuid n uuid := by
  rcases yields_recordUuid.mp h with ⟨id, hbehind, hset⟩ | ⟨hbehind, l, _, hcreate, _⟩
  · obtain ⟨_, hset, _⟩ := yields_call.mp hset
    obtain ⟨hfree, old, hold, _⟩ := Store.setLunUuid_eq_ok.mp hset
    refine ⟨fun l hl huuid => ?_, fun id' hid => ?_, fun hnone => ?_⟩
    · by_contra hne
      rw [hbehind] at hne
      exact Store.uuidTaken_eq_false_iff.mp hfree l hl (fun he => hne he.symm) huuid
    · obtain rfl := Option.some.inj (hbehind.symm.trans hid)
      exact Table.contains_of_find? hold
    · exact absurd (hbehind.symm.trans hnone) (Option.some_ne_none id)
  · obtain ⟨_, hcreate, _⟩ := yields_call.mp hcreate
    obtain ⟨hfree, hnext, _, _⟩ := Store.createLun_eq_ok hcreate
    refine ⟨fun l' hl' huuid => ?_, fun id hid => ?_, fun _ => ?_⟩
    · exact absurd huuid (Store.uuidTaken_eq_false_iff.mp hfree l' hl' (Option.some_ne_none _))
    · exact absurd (hbehind.symm.trans hid).symm (Option.some_ne_none id)
    · exact hnext ▸ Store.id_key_lt l.id

/-- A uuid that another volume has is a conflict, and nothing is written. -/
theorem recordUuid_conflict {n : LunNode} {uuid : String}
    (taken : ∃ l ∈ w.store.luns.records, l.fsUuid = some uuid ∧ n.lun ≠ some l.id) :
    (recordUuid n uuid).run o w = (.failed (.failed (.store (.conflict (.uuidTaken uuid)))), w) := by
  obtain ⟨l, hl, huuid, hother⟩ := taken
  have htaken : w.store.uuidTaken uuid n.lun = true :=
    List.any_eq_true.mpr ⟨l, hl, by simp [huuid, hother.symm]⟩
  unfold recordUuid
  cases hbehind : n.lun with
  | some id =>
    rw [hbehind] at htaken
    have hset : w.store.handle (.setLunUuid id uuid) =
        .error (.refused (.conflict (.uuidTaken uuid))) := by
      show w.store.setLunUuid id uuid = _
      rw [Store.setLunUuid, if_pos htaken]
      rfl
    exact Program.run_ask_refused o hset
  | none =>
    rw [hbehind] at htaken
    have hcreate : w.store.handle (.createLun uuid) =
        .error (.refused (.conflict (.uuidTaken uuid))) := by
      show w.store.createLun uuid = _
      rw [Store.createLun_eq, if_pos htaken]
    exact Program.run_bind_of_failed (Program.run_ask_refused o hcreate) _

end Step

/-! ### From end to end -/

/-- The one command of a format and its reply. -/
def formatCommand {σ : Type} (o : Outside σ) (w : World σ) (agent : String) (t : Target) (n : LunNode)
    (host : Host) : Sent :=
  let line := (w.store.formatArgs t n).request.line agent
  ⟨host, line, (w.send o host line).1⟩

/-- The command exited zero, and its answer tells the uuid. -/
def Sent.TellsUuid (c : Sent) (uuid : String) : Prop :=
  ∃ output, c.reply = .ok output ∧ output.exitCode = 0 ∧
    Json.read FormatResult.reader output.stdout = .ok ⟨uuid⟩

namespace Step

variable {σ : Type} {o : Outside σ} {w : World σ} {agent : String} {id : TargetId} {t : Target}
  {p : TargetMount} {n : LunNode} {host : Host}

theorem run_formatTarget_of_missing (agent : String)
    (h : ¬ ∃ t p n host, w.store.Formattable id t p n host) :
    ∃ e, (formatTarget agent id).run o w = (.failed e, w) := by
  rw [formatTarget_eq]
  rcases looks_formatPlan (o := o) (w := w) id with ⟨⟨n, host, args⟩, hfound⟩ | ⟨e, hfailed⟩
  · obtain ⟨t, p, hformattable, _⟩ := yields_formatPlan.mp hfound
    exact absurd ⟨t, p, n, host, hformattable⟩ h
  · exact ⟨e, Program.run_bind_of_failed hfailed _⟩

/-- The world once the command is answered. -/
abbrev formatSent (o : Outside σ) (w : World σ) (agent : String) (t : Target) (n : LunNode)
    (host : Host) : World σ :=
  (w.send o host ((w.store.formatArgs t n).request.line agent)).2

/-- With a uuid told, all that is left is to record it. -/
theorem run_formatTarget_of_told (h : w.store.Formattable id t p n host) {uuid : String}
    (told : (formatCommand o w agent t n host).TellsUuid uuid) :
    (formatTarget agent id).run o w =
      (recordUuid n uuid).run o (formatSent o w agent t n host) := by
  obtain ⟨output, hreply, hexit, hread⟩ := told
  have hplan : (formatPlan id).Yields o w (n, host, w.store.formatArgs t n) w :=
    yields_formatPlan.mpr ⟨t, p, h, rfl, rfl⟩
  have hcommand : (risky "format-target" host ((w.store.formatArgs t n).request.line agent)).Yields
      o w output (formatSent o w agent t n host) :=
    yields_risky.mpr ⟨hreply, by simpa [CommandOutput.success] using hexit, rfl⟩
  rw [formatTarget_eq, hplan.run_bind]
  dsimp only
  rw [hcommand.run_bind, (yields_decode.mpr ⟨hread, rfl⟩).run_bind]

/-- Without one the step fails then and there. -/
theorem run_formatTarget_of_untold (h : w.store.Formattable id t p n host)
    (untold : ¬ ∃ uuid, (formatCommand o w agent t n host).TellsUuid uuid) :
    ∃ e, (formatTarget agent id).run o w = (.failed e, formatSent o w agent t n host) := by
  have hplan : (formatPlan id).Yields o w (n, host, w.store.formatArgs t n) w :=
    yields_formatPlan.mpr ⟨t, p, h, rfl, rfl⟩
  rw [formatTarget_eq, hplan.run_bind]
  dsimp only
  rcases run_risky o w "format-target" ((w.store.formatArgs t n).request.line agent) host with
    ⟨_, output, hcommand⟩ | ⟨_, e, hfailed⟩
  · obtain ⟨hreply, hsuccess, _⟩ := yields_risky.mp hcommand
    rw [hcommand.run_bind]
    cases hread : Json.read FormatResult.reader output.stdout with
    | error e => exact ⟨_, Program.run_bind_of_failed rfl _⟩
    | ok result =>
      exact absurd ⟨result.uuid, output, hreply, by simpa [CommandOutput.success] using hsuccess,
        hread⟩ untold
  · exact ⟨e, Program.run_bind_of_failed hfailed _⟩

/-- Run alone, the program sends nothing. -/
def Mute {α : Type} (o : Outside σ) (p : StepProgram α) : Prop :=
  ∀ w : World σ, (p.run o w).2.sent = w.sent

theorem mute_call (c : Store.Call) : Mute o (call c) := by
  intro w
  unfold call Program.run
  rcases w.store.handle c with (r | _) | ⟨a, s⟩ <;> rfl

theorem Mute.bind {α β : Type} {p : StepProgram α} (hp : Mute o p) {f : α → StepProgram β}
    (hf : ∀ a, Mute o (f a)) : Mute o (p >>= f) := by
  intro w
  have hfirst := hp w
  show ((p.bind f).run o w).2.sent = _
  rw [Program.run_bind]
  rcases hrun : p.run o w with ⟨a | e | _, w'⟩
  · rw [hrun] at hfirst
    exact (hf a w').trans hfirst
  · rwa [hrun] at hfirst
  · rwa [hrun] at hfirst

theorem mute_recordUuid (n : LunNode) (uuid : String) : Mute o (recordUuid n uuid) := by
  unfold recordUuid
  split
  · exact mute_call _
  · exact (mute_call _).bind fun lun => mute_call _

end Step

open FleetJobs.Step in
/-- **Formatting from end to end.** The step succeeds exactly if all that it goes by is on
record, the one command exits zero and tells a uuid, and the volume behind the device can be given
that uuid. Then the volume has it, alone of all, and nothing else has changed. A uuid that another
volume has is a conflict, and nothing has changed at all. Where a record is missing no command is
sent. -/
theorem formatting_end_to_end {σ : Type} (o : Outside σ) (w : World σ) (agent : String)
    (id : TargetId) :
    let ending := (((StepKind.mkfs id).program agent).run o w).1
    let after := (((StepKind.mkfs id).program agent).run o w).2
    (ending = .done () ↔ ∃ t p n host uuid, w.store.Formattable id t p n host ∧
      (formatCommand o w agent t n host).TellsUuid uuid ∧ w.store.TakesUuid n uuid) ∧
    ((¬ ∃ t p n host, w.store.Formattable id t p n host) → after = w) ∧
    ∀ t p n host, w.store.Formattable id t p n host →
      after.sent = w.sent ++ [formatCommand o w agent t n host] ∧
      ∀ uuid, (formatCommand o w agent t n host).TellsUuid uuid →
        (w.store.TakesUuid n uuid → ∃ l, w.store.Formatted after.store n uuid l) ∧
        ((∃ l ∈ w.store.luns.records, l.fsUuid = some uuid ∧ n.lun ≠ some l.id) →
          ending = .failed (.failed (.store (.conflict (.uuidTaken uuid)))) ∧
          after.store = w.store) := by
  intro ending after
  refine ⟨⟨fun hdone => ?_, ?_⟩, fun hmissing => ?_, fun t p n host h => ⟨?_, fun uuid told => ⟨?_, ?_⟩⟩⟩
  · by_cases hformattable : ∃ t p n host, w.store.Formattable id t p n host
    · obtain ⟨t, p, n, host, h⟩ := hformattable
      by_cases htold : ∃ uuid, (formatCommand o w agent t n host).TellsUuid uuid
      · obtain ⟨uuid, told⟩ := htold
        have hrun : (recordUuid n uuid).Yields o (formatSent o w agent t n host) () after :=
          (run_formatTarget_of_told h told).symm.trans (Prod.ext hdone rfl)
        have takes : (formatSent o w agent t n host).store.TakesUuid n uuid :=
          takes_of_recordUuid hrun
        exact ⟨t, p, n, host, uuid, h, told, takes⟩
      · obtain ⟨e, hrun⟩ := run_formatTarget_of_untold h htold
        cases hdone.symm.trans (congrArg Prod.fst hrun)
    · obtain ⟨e, hrun⟩ := run_formatTarget_of_missing (o := o) agent hformattable
      cases hdone.symm.trans (congrArg Prod.fst hrun)
  · rintro ⟨t, p, n, host, uuid, h, told, takes⟩
    obtain ⟨l, s, _, hrecord⟩ := recordUuid_formats (o := o)
      (w := formatSent o w agent t n host) h.node takes
    exact congrArg Prod.fst ((run_formatTarget_of_told h told).trans hrecord)
  · obtain ⟨e, hrun⟩ := run_formatTarget_of_missing (o := o) agent hmissing
    exact congrArg Prod.snd hrun
  · by_cases htold : ∃ uuid, (formatCommand o w agent t n host).TellsUuid uuid
    · obtain ⟨uuid, told⟩ := htold
      show ((formatTarget agent id).run o w).2.sent = _
      rw [run_formatTarget_of_told h told]
      exact mute_recordUuid n uuid _
    · obtain ⟨e, hrun⟩ := run_formatTarget_of_untold h htold
      exact congrArg (fun r => r.2.sent) hrun
  · intro takes
    obtain ⟨l, s, hformatted, hrecord⟩ := recordUuid_formats (o := o)
      (w := formatSent o w agent t n host) h.node takes
    have hrun := (run_formatTarget_of_told h told).trans hrecord
    exact ⟨l, (congrArg (fun r => r.2.store) hrun) ▸ hformatted⟩
  · intro taken
    have hrun := (run_formatTarget_of_told h told).trans
      (recordUuid_conflict (w := formatSent o w agent t n host) taken)
    exact ⟨congrArg Prod.fst hrun, congrArg (fun r => r.2.store) hrun⟩

/-- A volume that is formatted anew, and one that is told the uuid of another. -/
theorem formatted_anew_or_refused :
    let t : Target := ⟨⟨4⟩, .mgs, none⟩
    let p : TargetMount := ⟨⟨5⟩, ⟨4⟩, ⟨1⟩, true, .unconfigured, "/mnt/mgs", some ⟨8⟩⟩
    let n : LunNode := ⟨⟨8⟩, ⟨⟨1⟩, "/dev/sda", 0, false⟩, some ⟨3⟩⟩
    let host : Host := ⟨⟨1⟩, "oss1", none, none, .up, none, []⟩
    let s := Store.ofInventory
      { hosts := [host], targets := [t], targetMounts := [p, { p with id := ⟨6⟩ }], lunNodes := [n],
        luns := [⟨⟨3⟩, some "u3"⟩, ⟨⟨7⟩, some "u7"⟩] }
    let answer : String → String := fun uuid => "\x7b\"uuid\": \"" ++ uuid ++ "\"\x7d"
    let o : String → Outside Unit := fun uuid =>
      ⟨fun _ _ _ => (.ok ⟨0, answer uuid, ""⟩, ()), fun _ => (.unset, ())⟩
    let w := World.start s ()
    let run := fun uuid => ((StepKind.mkfs ⟨4⟩).program "agent").run (o uuid) w
    s.Formattable ⟨4⟩ t p n host ∧
      (∀ uuid ∈ ["u9", "u7"], (formatCommand (o uuid) w "agent" t n host).TellsUuid uuid) ∧
      s.TakesUuid n "u9" ∧ (∃ l ∈ s.luns.records, l.fsUuid = some "u7" ∧ n.lun ≠ some l.id) ∧
      (run "u9").1 = .done () ∧ (∃ l, s.Formatted (run "u9").2.store n "u9" l) ∧
      (run "u7").1 = .failed (.failed (.store (.conflict (.uuidTaken "u7")))) ∧
      (run "u7").2.store = s := by
  intro t p n host s answer o w run
  have primary : s.PrimaryOf ⟨4⟩ p := ⟨by decide +kernel, rfl, rfl, by decide +kernel⟩
  have described : s.Describable t := ⟨by decide +kernel, fun _ h => nomatch h⟩
  have formattable : s.Formattable ⟨4⟩ t p n host :=
    ⟨by decide +kernel, primary, rfl, by decide +kernel, by decide +kernel, described⟩
  have told : ∀ uuid ∈ ["u9", "u7"], (formatCommand (o uuid) w "agent" t n host).TellsUuid uuid := by
    have hread : ∀ uuid ∈ ["u9", "u7"], Json.read FormatResult.reader (answer uuid) = .ok ⟨uuid⟩ := by
      decide +kernel
    exact fun uuid huuid => ⟨_, rfl, rfl, hread uuid huuid⟩
  have takes : s.TakesUuid n "u9" :=
    ⟨by decide +kernel, fun id h => Option.some.inj h ▸ by decide +kernel, fun h => nomatch h⟩
  have taken : ∃ l ∈ s.luns.records, l.fsUuid = some "u7" ∧ n.lun ≠ some l.id := by decide +kernel
  obtain ⟨hdone, _, hnew⟩ := formatting_end_to_end (o "u9") w "agent" ⟨4⟩
  obtain ⟨_, _, hold⟩ := formatting_end_to_end (o "u7") w "agent" ⟨4⟩
  have hsuccess := hdone.mpr ⟨t, p, n, host, "u9", formattable, told "u9" (by decide), takes⟩
  have hformatted := ((hnew t p n host formattable).2 "u9" (told "u9" (by decide))).1 takes
  have hconflict := ((hold t p n host formattable).2 "u7" (told "u7" (by decide))).2 taken
  exact ⟨formattable, told, takes, taken, hsuccess, hformatted, hconflict.1, hconflict.2⟩

end FleetJobs
