import FleetJobs.Proofs.Formatting

/-! Where the arguments for formatting come from.

What a target is formatted with is told here from an inventory (`Inventory.Arguments`), with no
store between: which servers are named, and in which order, is said of the listed mounts and hosts.
That much leaves one way only to fill the arguments in (`Inventory.Arguments.unique`), and a store
that is made from the inventory fills them in so: `format_arguments_come_from`. Nor does a store
show the order of an inventory that repeats no number (`Store.ofInventory_reordered`), so the
arguments do not. -/
namespace FleetJobs

open FleetJobs.Command
open FleetJobs.Fleet
open FleetJobs.Store (Table kept)

/-! ### The order of an inventory -/

namespace Store

open Keyed (key)

section

variable {α : Type} [Keyed α] {rs rs' : List α}

/-- No two records of the list have the same key. -/
def Unrepeated (rs : List α) : Prop := rs.Pairwise fun a b => key a ≠ key b

theorem kept_of_unrepeated (h : Unrepeated rs) : kept rs = rs := by
  induction rs with
  | nil => rfl
  | cons r rest ih =>
    obtain ⟨hr, hrest⟩ := List.pairwise_cons.mp h
    have hlast : rest.any (fun x => key x == key r) = false := by
      simpa using fun x hx => (hr x hx).symm
    rw [kept, hlast, ih hrest]
    rfl

/-- A table does not show the order of a list that repeats no key. -/
theorem Table.ofList_perm (h : Unrepeated rs) (order : rs.Perm rs') :
    Table.ofList rs' = Table.ofList rs := by
  have h' : Unrepeated rs' := (order.pairwise_iff Ne.symm).mp h
  refine ext_find? fun k => Option.ext fun r => ?_
  rw [find?_eq_some_iff, find?_eq_some_iff, mem_ofList, mem_ofList, kept_of_unrepeated h,
    kept_of_unrepeated h', order.mem_iff]

theorem Table.contains_ofList {k : Nat} :
    (Table.ofList rs).contains k = true ↔ ∃ r ∈ rs, key r = k := by
  unfold contains
  rw [find?_ofList]
  simp

end

end Store

namespace Fleet.Inventory

/-- Every number is given once a table. -/
structure Unrepeated (i : Inventory) : Prop where
  hosts : Store.Unrepeated i.hosts
  targets : Store.Unrepeated i.targets
  targetMounts : Store.Unrepeated i.targetMounts
  luns : Store.Unrepeated i.luns
  lunNodes : Store.Unrepeated i.lunNodes
  filesystems : Store.Unrepeated i.filesystems
  mgs : Store.Unrepeated i.mgs
  confParams : Store.Unrepeated i.confParams

/-- The second inventory lists the records of the first, in any order. -/
structure Reordered (i i' : Inventory) : Prop where
  hosts : i.hosts.Perm i'.hosts
  targets : i.targets.Perm i'.targets
  targetMounts : i.targetMounts.Perm i'.targetMounts
  luns : i.luns.Perm i'.luns
  lunNodes : i.lunNodes.Perm i'.lunNodes
  filesystems : i.filesystems.Perm i'.filesystems
  mgs : i.mgs.Perm i'.mgs
  confParams : i.confParams.Perm i'.confParams

end Fleet.Inventory

/-- **A store does not show the order of an inventory that repeats no number.** -/
theorem Store.ofInventory_reordered {i i' : Inventory} (h : i.Unrepeated) (order : i.Reordered i') :
    Store.ofInventory i' = Store.ofInventory i := by
  unfold Store.ofInventory
  rw [Table.ofList_perm h.hosts order.hosts, Table.ofList_perm h.targets order.targets,
    Table.ofList_perm h.targetMounts order.targetMounts, Table.ofList_perm h.luns order.luns,
    Table.ofList_perm h.lunNodes order.lunNodes, Table.ofList_perm h.filesystems order.filesystems,
    Table.ofList_perm h.mgs order.mgs, Table.ofList_perm h.confParams order.confParams]

/-! ### What an inventory says of a target -/

/-- The mounts are in order of their numbers. -/
def Fleet.TargetMount.Before (a b : TargetMount) : Prop := a.id.key < b.id.key

/-- Primary mounts come before others; otherwise mounts are in order of their numbers. -/
def Fleet.TargetMount.PrimaryBefore (a b : TargetMount) : Prop :=
  (a.primary = true ∧ b.primary = false) ∨ (a.primary = b.primary ∧ a.Before b)

namespace Fleet.Inventory

/-- The host of the mount is listed with these interfaces, and there are some. -/
structure Interfaces (i : Inventory) (m : TargetMount) (nids : List String) : Prop where
  listed : ∃ h ∈ kept i.hosts, h.id = m.host ∧ h.nids = nids
  some : nids ≠ []

/-- The mounts are all those wanted whose hosts have interfaces, in the order asked for and each
of them once, and the lists are the interfaces of their hosts, mount by mount. -/
structure ListedFor (i : Inventory) (wanted : TargetMount → Prop)
    (before : TargetMount → TargetMount → Prop) (mounts : List TargetMount)
    (lists : List (List String)) : Prop where
  ordered : mounts.Pairwise before
  exactly : ∀ m, m ∈ mounts ↔ m ∈ kept i.targetMounts ∧ wanted m ∧ ∃ nids, i.Interfaces m nids
  each : List.Forall₂ i.Interfaces mounts lists

/-- What a target is formatted with on a device, as the inventory has it. -/
structure Arguments (i : Inventory) (t : Target) (n : LunNode) (args : FormatArgs) : Prop where
  targetTypes : args.targetTypes = t.kind.tag
  reformat : args.reformat = true
  device : args.device = n.device.path
  /-- A management target is in no file system. -/
  alone : t.kind = .mgs → args.fsname = none ∧ args.mgsnode = none
  member : ∀ id, t.kind = .mdt id ∨ t.kind = .ost id → ∃ fs ∈ kept i.filesystems, fs.id = id ∧
    args.fsname = some fs.name ∧ ∃ mounts lists, args.mgsnode = some lists ∧
      i.ListedFor (fun m => m.target = fs.mgs) TargetMount.PrimaryBefore mounts lists
  failnode : ∃ mounts lists, args.failnode = (if lists = [] then none else some lists) ∧
    i.ListedFor (fun m => m.target = t.id ∧ m.primary = false) TargetMount.Before mounts lists

/-- The file system of the target is listed, and the hosts of all mounts that count. -/
structure Describes (i : Inventory) (t : Target) : Prop where
  servers : ∀ m ∈ kept i.targetMounts, m.target = t.id → m.primary = false →
    ∃ h ∈ i.hosts, h.id = m.host
  member : ∀ id, t.kind = .mdt id ∨ t.kind = .ost id → ∃ fs ∈ kept i.filesystems, fs.id = id ∧
    ∀ m ∈ kept i.targetMounts, m.target = fs.mgs → ∃ h ∈ i.hosts, h.id = m.host

end Fleet.Inventory

theorem Fleet.TargetKind.filesystem?_iff {k : TargetKind} {id : FilesystemId} :
    k.filesystem? = some id ↔ k = .mdt id ∨ k = .ost id := by
  cases k <;> simp [TargetKind.filesystem?]

theorem Fleet.TargetKind.filesystem?_eq_none {k : TargetKind} : k.filesystem? = none ↔ k = .mgs := by
  cases k <;> simp [TargetKind.filesystem?]

/-! ### There is one answer -/

theorem Fleet.TargetMount.Before.asymm {a b : TargetMount} (h : a.Before b) : ¬ b.Before a :=
  Nat.lt_asymm h

theorem Fleet.TargetMount.PrimaryBefore.asymm {a b : TargetMount} (h : a.PrimaryBefore b) :
    ¬ b.PrimaryBefore a := by
  rintro (⟨hb, ha⟩ | ⟨hsame, hba⟩)
  · rcases h with ⟨ha', _⟩ | ⟨hsame, _⟩
    · cases ha.symm.trans ha'
    · cases (ha.symm.trans hsame).trans hb
  · rcases h with ⟨ha, hb⟩ | ⟨_, hab⟩
    · cases (hb.symm.trans hsame).trans ha
    · exact hab.asymm hba

/-- The store knows of interfaces of the mount's host. -/
def Store.hasInterfaces (s : Store) (m : TargetMount) : Bool :=
  (s.hosts.find? m.host.key).any fun h => !h.nids.isEmpty

namespace Fleet.Inventory

variable {i : Inventory} {wanted : TargetMount → Prop} {before : TargetMount → TargetMount → Prop}
  {mounts mounts' : List TargetMount} {lists lists' : List (List String)} {t : Target}

/-- The store finds the host that is listed, and with it its interfaces. -/
theorem interfaces_iff {m : TargetMount} {nids : List String} :
    i.Interfaces m nids ↔
      ∃ h, (Store.ofInventory i).hosts.find? m.host.key = some h ∧ h.nids = nids ∧ nids ≠ [] := by
  have hlisted (h : Host) : (Store.ofInventory i).hosts.find? m.host.key = some h ↔
      h ∈ kept i.hosts ∧ h.id = m.host := by
    rw [Table.find?_eq_some_iff]
    exact and_congr Table.mem_ofList ⟨fun hk => Id.key_injective hk, fun hid => congrArg Id.key hid⟩
  simp only [hlisted]
  constructor
  · rintro ⟨⟨h, hh, hid, hnids⟩, hsome⟩
    exact ⟨h, ⟨hh, hid⟩, hnids, hsome⟩
  · rintro ⟨h, ⟨hh, hid⟩, hnids, hsome⟩
    exact ⟨⟨h, hh, hid, hnids⟩, hsome⟩

theorem Interfaces.unique {m : TargetMount} {nids nids' : List String} (h : i.Interfaces m nids)
    (h' : i.Interfaces m nids') : nids = nids' := by
  obtain ⟨host, hfind, rfl, _⟩ := interfaces_iff.mp h
  obtain ⟨host', hfind', rfl, _⟩ := interfaces_iff.mp h'
  rw [Option.some.inj (hfind.symm.trans hfind')]

theorem ListedFor.nil_not_mem (h : i.ListedFor wanted before mounts lists) : [] ∉ lists := by
  have some_of_each {ms : List TargetMount} {ls : List (List String)}
      (each : List.Forall₂ i.Interfaces ms ls) : ∀ nids ∈ ls, nids ≠ [] := by
    induction each with
    | nil => exact nofun
    | cons interfaces _ ih => exact List.forall_mem_cons.mpr ⟨interfaces.some, ih⟩
  exact fun hnil => some_of_each h.each [] hnil rfl

/-- **In an order without ties only one list of lists will do.** -/
theorem ListedFor.unique (asymm : ∀ {a b}, before a b → ¬ before b a)
    (h : i.ListedFor wanted before mounts lists) (h' : i.ListedFor wanted before mounts' lists') :
    lists = lists' := by
  have nodup {ms : List TargetMount} (hms : ms.Pairwise before) : ms.Nodup :=
    hms.imp fun {a b} hab (heq : a = b) => asymm hab (heq ▸ hab)
  have hperm : mounts.Perm mounts' :=
    (List.perm_ext_iff_of_nodup (nodup h.ordered) (nodup h'.ordered)).mpr fun m =>
      (h.exactly m).trans (h'.exactly m).symm
  obtain rfl : mounts = mounts' :=
    hperm.eq_of_pairwise (fun a b _ _ hab hba => absurd hba (asymm hab)) h.ordered h'.ordered
  have hunique : Relator.RightUnique i.Interfaces := fun _ _ _ => Interfaces.unique
  exact hunique.forall₂ h.each h'.each

/-- **The inventory leaves one way to fill the arguments in.** -/
theorem Arguments.unique {n : LunNode} {args args' : FormatArgs}
    (h : i.Arguments t n args) (h' : i.Arguments t n args') : args = args' := by
  have hmembership : args.fsname = args'.fsname ∧ args.mgsnode = args'.mgsnode := by
    cases hfs : t.kind.filesystem? with
    | none =>
      obtain ⟨hname, hmgsnode⟩ := h.alone (TargetKind.filesystem?_eq_none.mp hfs)
      obtain ⟨hname', hmgsnode'⟩ := h'.alone (TargetKind.filesystem?_eq_none.mp hfs)
      exact ⟨hname.trans hname'.symm, hmgsnode.trans hmgsnode'.symm⟩
    | some id =>
      obtain ⟨fs, hlisted, hid, hname, _, _, hmgsnode, hlists⟩ :=
        h.member id (TargetKind.filesystem?_iff.mp hfs)
      obtain ⟨fs', hlisted', hid', hname', _, _, hmgsnode', hlists'⟩ :=
        h'.member id (TargetKind.filesystem?_iff.mp hfs)
      have hkey : Store.Keyed.key fs = Store.Keyed.key fs' := congrArg Id.key (hid.trans hid'.symm)
      obtain rfl : fs = fs' := (Table.ofList i.filesystems).ascending.eq_of_key_eq
        (Table.mem_ofList.mpr hlisted) (Table.mem_ofList.mpr hlisted') hkey
      rw [hname, hname', hmgsnode, hmgsnode', hlists.unique TargetMount.PrimaryBefore.asymm hlists']
      exact ⟨rfl, rfl⟩
  have hfailnode : args.failnode = args'.failnode := by
    obtain ⟨_, _, hfailnode, hlists⟩ := h.failnode
    obtain ⟨_, _, hfailnode', hlists'⟩ := h'.failnode
    rw [hfailnode, hfailnode', hlists.unique TargetMount.Before.asymm hlists']
  have htypes := h.targetTypes.trans h'.targetTypes.symm
  have hreformat := h.reformat.trans h'.reformat.symm
  have hdevice := h.device.trans h'.device.symm
  cases args
  cases args'
  simp only [FormatArgs.mk.injEq]
  exact ⟨htypes, hmembership.1, hmembership.2, hreformat, hfailnode, hdevice⟩

theorem Arguments.nil_not_mem {n : LunNode} {args : FormatArgs} (h : i.Arguments t n args)
    (hlists : args.mgsnode = some lists ∨ args.failnode = some lists) : [] ∉ lists := by
  rcases hlists with hmgsnode | hfailnode
  · cases hfs : t.kind.filesystem? with
    | none =>
      obtain ⟨_, hnone⟩ := h.alone (TargetKind.filesystem?_eq_none.mp hfs)
      cases hnone.symm.trans hmgsnode
    | some id =>
      obtain ⟨_, _, _, _, _, _, hsome, listed⟩ := h.member id (TargetKind.filesystem?_iff.mp hfs)
      exact Option.some.inj (hsome.symm.trans hmgsnode) ▸ listed.nil_not_mem
  · obtain ⟨_, _, hsome, listed⟩ := h.failnode
    rw [hsome] at hfailnode
    split at hfailnode
    · cases hfailnode
    · exact Option.some.inj hfailnode ▸ listed.nil_not_mem

/-- With no server left to name, the servers that can take over are not told at all. -/
theorem Arguments.failnode_ne_nil {n : LunNode} {args : FormatArgs} (h : i.Arguments t n args) :
    args.failnode ≠ some [] := by
  obtain ⟨_, lists, hlists, _⟩ := h.failnode
  rw [hlists]
  split
  · exact nofun
  · rename_i hne
    exact fun hnil => hne (Option.some.inj hnil)

/-! ### The store's answer -/

theorem hasInterfaces_iff {m : TargetMount} :
    (Store.ofInventory i).hasInterfaces m = true ↔ ∃ nids, i.Interfaces m nids := by
  simp only [interfaces_iff, Store.hasInterfaces, Option.any_eq_true, Bool.not_eq_true',
    List.isEmpty_eq_false_iff]
  constructor
  · rintro ⟨h, hfind, hsome⟩
    exact ⟨h.nids, h, hfind, rfl, hsome⟩
  · rintro ⟨_, h, hfind, rfl, hsome⟩
    exact ⟨h, hfind, hsome⟩

/-- Of every mount that has interfaces there is one list, and no other list. -/
theorem forall₂_nidsOf (mounts : List TargetMount) :
    List.Forall₂ i.Interfaces (mounts.filter (Store.ofInventory i).hasInterfaces)
      ((Store.ofInventory i).nidsOf mounts) := by
  induction mounts with
  | nil => exact .nil
  | cons m rest ih =>
    unfold Store.nidsOf at ih ⊢
    rw [List.filterMap_cons, List.filter_cons]
    cases hhost : (Store.ofInventory i).hosts.find? m.host.key with
    | none => simpa [Store.hasInterfaces, hhost] using ih
    | some h =>
      by_cases hnids : h.nids = []
      · simpa [Store.hasInterfaces, hhost, hnids] using ih
      · have hm : i.Interfaces m h.nids := interfaces_iff.mpr ⟨h, hhost, rfl, hnids⟩
        simpa [Store.hasInterfaces, hhost, hnids] using ⟨hm, ih⟩

/-- The interfaces that the store has for mounts, if the mounts are those wanted, in order. -/
theorem listedFor_nidsOf (ordered : mounts.Pairwise before)
    (exactly : ∀ m, m ∈ mounts ↔ m ∈ kept i.targetMounts ∧ wanted m) :
    i.ListedFor wanted before (mounts.filter (Store.ofInventory i).hasInterfaces)
      ((Store.ofInventory i).nidsOf mounts) where
  ordered := ordered.filter _
  exactly m := by rw [List.mem_filter, exactly, hasInterfaces_iff, and_assoc]
  each := forall₂_nidsOf mounts

theorem mem_mountsOf {target : TargetId} {m : TargetMount} :
    m ∈ (Store.ofInventory i).mountsOf target ↔ m ∈ kept i.targetMounts ∧ m.target = target := by
  rw [Store.mem_mountsOf]
  exact and_congr_left' Table.mem_ofList

theorem ordered_mountsOf (s : Store) (target : TargetId) :
    (s.mountsOf target).Pairwise TargetMount.Before :=
  s.targetMounts.ascending.filter _

theorem ordered_primaryFirst (h : mounts.Pairwise TargetMount.Before) :
    (Step.primaryFirst mounts).Pairwise TargetMount.PrimaryBefore := by
  have alike (p : TargetMount → Bool)
      (hp : ∀ a b, p a = true → p b = true → a.primary = b.primary) :
      (mounts.filter p).Pairwise TargetMount.PrimaryBefore := by
    refine (h.filter p).imp_of_mem fun ha hb hab => .inr ⟨?_, hab⟩
    exact hp _ _ (List.mem_filter.mp ha).2 (List.mem_filter.mp hb).2
  refine List.pairwise_append.mpr ⟨alike _ fun a b ha hb => ha.trans hb.symm,
    alike _ fun a b ha hb => ?_, fun a ha b hb => .inl ⟨?_, ?_⟩⟩
  · rw [Bool.not_eq_true'] at ha hb
    exact ha.trans hb.symm
  · exact (List.mem_filter.mp ha).2
  · simpa using (List.mem_filter.mp hb).2

theorem listedFor_managementNids (mgs : TargetId) :
    ∃ mounts, i.ListedFor (fun m => m.target = mgs) TargetMount.PrimaryBefore mounts
      ((Store.ofInventory i).nidsOf (Step.primaryFirst ((Store.ofInventory i).mountsOf mgs))) := by
  refine ⟨_, listedFor_nidsOf (ordered_primaryFirst (ordered_mountsOf _ mgs)) fun m => ?_⟩
  rw [← mem_mountsOf, Step.primaryFirst, List.mem_append, List.mem_filter, List.mem_filter]
  cases m.primary <;> simp

theorem listedFor_failnode (target : TargetId) :
    ∃ mounts, i.ListedFor (fun m => m.target = target ∧ m.primary = false) TargetMount.Before mounts
      ((Store.ofInventory i).nidsOf
        (((Store.ofInventory i).mountsOf target).filter fun m => !m.primary)) := by
  refine ⟨_, listedFor_nidsOf ((ordered_mountsOf _ target).filter _) fun m => ?_⟩
  rw [List.mem_filter, mem_mountsOf, and_assoc, Bool.not_eq_true']

theorem describable (h : i.Describes t) : (Store.ofInventory i).Describable t := by
  have served {m : TargetMount} (hm : ∃ h ∈ i.hosts, h.id = m.host) :
      (Store.ofInventory i).hosts.contains m.host.key = true := by
    obtain ⟨h, hh, hid⟩ := hm
    exact Table.contains_ofList.mpr ⟨h, hh, congrArg Id.key hid⟩
  refine ⟨fun m hm htarget hprimary => ?_, fun id hid => ?_⟩
  · exact served (h.servers m (Table.mem_ofList.mp hm) htarget hprimary)
  · obtain ⟨fs, hfs, hfsid, hservers⟩ := h.member id (TargetKind.filesystem?_iff.mp hid)
    refine ⟨fs, ?_, fun m hm htarget => served (hservers m (Table.mem_ofList.mp hm) htarget)⟩
    exact Table.find?_eq_some_iff.mpr ⟨Table.mem_ofList.mpr hfs, congrArg Id.key hfsid⟩

/-- **A store that is made from the inventory fills the arguments in as the inventory has them.** -/
theorem arguments_formatArgs (h : i.Describes t) (n : LunNode) :
    i.Arguments t n ((Store.ofInventory i).formatArgs t n) where
  targetTypes := rfl
  reformat := rfl
  device := rfl
  alone hkind := by
    simp [Store.formatArgs, Store.filesystemOf, hkind, TargetKind.filesystem?]
  member id hid := by
    obtain ⟨fs, hfs, hfsid, _⟩ := h.member id hid
    have hfind : (Store.ofInventory i).filesystemOf t = some fs := by
      rw [Store.filesystemOf, TargetKind.filesystem?_iff.mpr hid]
      exact Table.find?_eq_some_iff.mpr ⟨Table.mem_ofList.mpr hfs, congrArg Id.key hfsid⟩
    obtain ⟨mounts, hlists⟩ := listedFor_managementNids (i := i) fs.mgs
    refine ⟨fs, hfs, hfsid, ?_, mounts, _, ?_, hlists⟩
    · exact congrArg (Option.map Filesystem.name) hfind
    · exact congrArg (Option.map _) hfind
  failnode := by
    obtain ⟨mounts, hlists⟩ := listedFor_failnode (i := i) t.id
    refine ⟨mounts, _, ?_, hlists⟩
    simp [Store.formatArgs]

end Fleet.Inventory

/-- The arguments for a target, from it and its mounts. -/
def Step.formatArgsOf (t : Target) (n : LunNode) : Step.StepProgram FormatArgs := do
  formatArgs t (← call (.targetMounts t.id)) n

/-- **Arguments for formatting come from the inventory**, whatever the target is and whichever
servers of it have interfaces, if the file system and the servers are listed at all. There is one
way to fill them in as the inventory has it, and the store that is made from it does so. No list
in them is empty, and they are the same for every order of an inventory that repeats no number. -/
theorem format_arguments_come_from {σ : Type} (i : Inventory) (t : Target) (n : LunNode)
    (described : i.Describes t) (o : Outside σ) (w : World σ)
    (made : w.store = Store.ofInventory i) :
    ∃ args, (Step.formatArgsOf t n).run o w = (.done args, w) ∧
      (∀ args', i.Arguments t n args' ↔ args' = args) ∧
      (∀ lists, args.mgsnode = some lists ∨ args.failnode = some lists → [] ∉ lists) ∧
      args.failnode ≠ some [] ∧
      (i.Unrepeated → ∀ i' (w' : World σ), i.Reordered i' → w'.store = Store.ofInventory i' →
        (Step.formatArgsOf t n).run o w' = (.done args, w')) := by
  have run_of_made (w : World σ) (made : w.store = Store.ofInventory i) :
      (Step.formatArgsOf t n).run o w = (.done ((Store.ofInventory i).formatArgs t n), w) := by
    have hmounts : (Step.call (.targetMounts t.id)).Yields o w (w.store.mountsOf t.id) w :=
      Step.yields_targetMounts.mpr ⟨rfl, rfl⟩
    have hargs := Step.yields_formatArgs (o := o) (n := n) |>.mpr
      ⟨made ▸ Inventory.describable described, rfl, rfl⟩
    rw [Step.formatArgsOf, hmounts.run_bind, ← made]
    exact hargs
  have filled := Inventory.arguments_formatArgs described n
  refine ⟨_, run_of_made w made, fun args' => ⟨fun h => h.unique filled, fun h => h ▸ filled⟩,
    fun lists => filled.nil_not_mem, filled.failnode_ne_nil, fun unrepeated i' w' order made' => ?_⟩
  exact run_of_made w' (made'.trans (Store.ofInventory_reordered unrepeated order))

/-- A metadata target whose management target is not served by its first mount first, with a server
that has no interfaces; and the same inventory back to front. -/
theorem arguments_from_two_listings :
    let host (id : UInt32) (nids : List String) : Host := ⟨⟨id⟩, "mds", none, none, .up, none, nids⟩
    let mount (id target host : UInt32) (primary : Bool) : TargetMount :=
      ⟨⟨id⟩, ⟨target⟩, ⟨host⟩, primary, .configured, "/mnt", none⟩
    let i : Inventory :=
      { hosts := [host 1 ["a", "b"], host 2 [], host 3 ["c"]]
        filesystems := [⟨⟨7⟩, "scratch", ⟨1⟩⟩]
        targetMounts := [mount 11 1 3 false, mount 12 1 1 true, mount 13 1 2 false,
          mount 21 5 1 true, mount 22 5 2 false, mount 23 5 3 false] }
    let i' : Inventory :=
      { i with hosts := i.hosts.reverse, targetMounts := i.targetMounts.reverse }
    let t : Target := ⟨⟨5⟩, .mdt ⟨7⟩, none⟩
    let n : LunNode := ⟨⟨8⟩, ⟨⟨1⟩, "/dev/sda", 0, false⟩, none⟩
    let args : FormatArgs :=
      ⟨"mdt", some "scratch", some [["a", "b"], ["c"]], true, some [["c"]], "/dev/sda"⟩
    let o : Outside Unit := ⟨fun _ _ _ => (.ok ⟨0, "", ""⟩, ()), fun _ => (.unset, ())⟩
    let run := fun i => ((Step.formatArgsOf t n).run o (World.start (Store.ofInventory i) ())).1
    i.Describes t ∧ i.Arguments t n args ∧ run i = .done args ∧ run i' = .done args := by
  intro host mount i i' t n args o run
  have described : i.Describes t := by
    refine ⟨by decide +kernel, fun id hid => ⟨_, .head _, ?_, by decide +kernel⟩⟩
    simpa [t] using hid
  have unrepeated : i.Unrepeated := by
    constructor <;> unfold Store.Unrepeated <;> decide +kernel
  have order : i.Reordered i' :=
    { hosts := i.hosts.reverse_perm.symm, targetMounts := i.targetMounts.reverse_perm.symm
      targets := .refl _, luns := .refl _, lunNodes := .refl _, filesystems := .refl _
      mgs := .refl _, confParams := .refl _ }
  obtain ⟨args', hrun, hunique, _, _, hreordered⟩ :=
    format_arguments_come_from i t n described o (World.start (Store.ofInventory i) ()) rfl
  have hfilled : run i = .done args := by decide +kernel
  obtain rfl : args = args' := by
    have hsame : Ending.done args = .done args' := hfilled.symm.trans (congrArg Prod.fst hrun)
    injection hsame
  exact ⟨described, (hunique args).mpr rfl, hfilled,
    congrArg Prod.fst (hreordered unrepeated i' _ order rfl)⟩

end FleetJobs
