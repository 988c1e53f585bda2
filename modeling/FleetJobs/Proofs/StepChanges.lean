import FleetJobs.Proofs.Repetition
import FleetJobs.Proofs.StepCalls
import FleetJobs.Proofs.StepSafety

/-! What one step may change.

A record may become a later state of itself (`Target.Becomes` and its siblings): numbers
and what an inventory alone says of it stay, and what discovery, formatting or registration
once found out is not forgotten. A step that succeeds changes records in this way only, and
those alone that its kind is there to change (`Step.Changes`); it adds a record only where a
format finds no volume or a search finds no device. `Step.run_changes` says so of every
step, however it ends. -/
namespace FleetJobs

open FleetJobs.Fleet
open FleetJobs.Step (StepKind)

/-! ### Later states of records -/

namespace Fleet

/-- Only the label may differ, and a target that has one keeps having one. -/
structure Target.Becomes (t t' : Target) : Prop where
  same : t' = { t with name := t'.name }
  named : t.name.isSome = true → t'.name.isSome = true

/-- Only the device may differ, and a device that is known stays the same. -/
structure TargetMount.Becomes (m m' : TargetMount) : Prop where
  same : m' = { m with blockDevice := m'.blockDevice }
  device : ∀ d, m.blockDevice = some d → m'.blockDevice = some d

/-- Only the uuid may differ, and a volume that has one keeps having one. -/
structure Lun.Becomes (l l' : Lun) : Prop where
  same : l' = { l with fsUuid := l'.fsUuid }
  formatted : l.fsUuid.isSome = true → l'.fsUuid.isSome = true

/-- Only the volume may differ, and a device with a volume behind it keeps having one. -/
structure LunNode.Becomes (n n' : LunNode) : Prop where
  same : n' = { n with lun := n'.lun }
  attached : n.lun.isSome = true → n'.lun.isSome = true

/-- Only the version may differ. -/
structure Mgs.Becomes (m m' : Mgs) : Prop where
  same : m' = { m with versionApplied := m'.versionApplied }

theorem Target.Becomes.refl (t : Target) : t.Becomes t := ⟨rfl, fun h => h⟩
theorem TargetMount.Becomes.refl (m : TargetMount) : m.Becomes m := ⟨rfl, fun _ h => h⟩
theorem Lun.Becomes.refl (l : Lun) : l.Becomes l := ⟨rfl, fun h => h⟩
theorem LunNode.Becomes.refl (n : LunNode) : n.Becomes n := ⟨rfl, fun h => h⟩
theorem Mgs.Becomes.refl (m : Mgs) : m.Becomes m := ⟨rfl⟩

theorem Target.Becomes.trans {a b c : Target} (h : a.Becomes b) (h' : b.Becomes c) : a.Becomes c where
  same := by rw [h'.same, h.same]
  named := h'.named ∘ h.named

theorem TargetMount.Becomes.trans {a b c : TargetMount} (h : a.Becomes b) (h' : b.Becomes c) :
    a.Becomes c where
  same := by rw [h'.same, h.same]
  device d hd := h'.device d (h.device d hd)

theorem Lun.Becomes.trans {a b c : Lun} (h : a.Becomes b) (h' : b.Becomes c) : a.Becomes c where
  same := by rw [h'.same, h.same]
  formatted := h'.formatted ∘ h.formatted

theorem LunNode.Becomes.trans {a b c : LunNode} (h : a.Becomes b) (h' : b.Becomes c) :
    a.Becomes c where
  same := by rw [h'.same, h.same]
  attached := h'.attached ∘ h.attached

theorem Mgs.Becomes.trans {a b c : Mgs} (h : a.Becomes b) (h' : b.Becomes c) : a.Becomes c where
  same := by rw [h'.same, h.same]

end Fleet

/-! ### Tables -/

namespace Store.Table

open Keyed (key)

variable {α : Type} [Keyed α] {R : α → α → Prop} {t t' : Table α}

/-- Every record is followed, and at most so many are added. -/
structure Gains (R : α → α → Prop) (most : Nat) (t t' : Table α) : Prop where
  follows : t.Follows R t'
  added : t'.records.length ≤ t.records.length + most

theorem Gains.refl (hR : ∀ r, R r r) (most : Nat) (t : Table α) : t.Gains R most t :=
  ⟨.refl hR t, Nat.le_add_right _ _⟩

/-- A record put in the place of one of its key adds none. -/
theorem length_replace {old new : α} (hold : t.find? (key new) = some old) :
    (t.insert new).records.length = t.records.length := by
  have hkeys : ∀ k, k ∈ (t.insert new).records.map key ↔ k ∈ t.records.map key := by
    intro k
    simp only [List.mem_map, mem_insert]
    constructor
    · rintro ⟨r, rfl | ⟨hr, _⟩, rfl⟩
      · exact ⟨old, mem_of_find? hold, key_of_find? hold⟩
      · exact ⟨r, hr, rfl⟩
    · rintro ⟨r, hr, rfl⟩
      by_cases hk : key r = key new
      · exact ⟨new, .inl rfl, hk.symm⟩
      · exact ⟨r, .inr ⟨hr, hk⟩, rfl⟩
  have hnodup : ∀ t : Table α, (t.records.map key).Nodup := fun t =>
    List.Pairwise.map key (fun _ _ hlt => Nat.ne_of_lt hlt) t.ascending
  have hperm := (List.perm_ext_iff_of_nodup (hnodup (t.insert new)) (hnodup t)).mpr hkeys
  simpa using hperm.length_eq

theorem gains_replace (new : α) {old : α} (hold : t.find? (key new) = some old) (hR : ∀ r, R r r)
    (hnew : R old new) (most : Nat) : t.Gains R most (t.insert new) where
  follows := follows_replace new hold hR hnew
  added := by
    rw [length_replace hold]
    exact Nat.le_add_right _ _

theorem gains_next {new : α} (hnew : key new = t.nextKey) (hR : ∀ r, R r r) :
    t.Gains R 1 (t.insert new) where
  follows := follows_next hnew hR
  added := by
    rw [records_insert_next hnew]
    simp

end Store.Table

/-! ### Whose business a change is -/

namespace Step.StepKind

/-- The step registers the target, through one of the target's mounts. -/
def Registers (k : StepKind) (s : Store) (t : Target) : Prop :=
  ∃ id m, k = .registerTarget id ∧ s.targetMounts.find? id.key = some m ∧ m.target = t.id

/-- The step searches the device of the mount, which is not primary and has none yet. -/
def Searches (k : StepKind) (m : TargetMount) : Prop :=
  k = .findDevice m.id ∧ m.primary = false ∧ m.blockDevice = none

/-- The step formats the volume: that behind the device of the first primary mount of a
target. -/
def Formats (k : StepKind) (s : Store) (l : Lun) : Prop :=
  ∃ target, k = .mkfs target ∧
  ∃ primary, (s.targetMounts.filter fun m => m.target == target).find?
    TargetMount.primary = some primary ∧
  ∃ device, primary.blockDevice = some device ∧
  ∃ node, s.lunNodes.find? device.key = some node ∧ node.lun = some l.id

/-- How many volumes the step may add. -/
def newLuns : StepKind → Nat
  | mkfs _ => 1
  | _ => 0

/-- How many devices the step may add. -/
def newNodes : StepKind → Nat
  | findDevice _ => 1
  | _ => 0

end Step.StepKind

namespace Step

/-- What a step may make of a target. -/
structure TargetAfter (k : StepKind) (s : Store) (t t' : Target) : Prop where
  becomes : t.Becomes t'
  renamed : t'.name ≠ t.name → k.Registers s t

/-- What a step may make of a mount. -/
structure MountAfter (k : StepKind) (m m' : TargetMount) : Prop where
  becomes : m.Becomes m'
  placed : m'.blockDevice ≠ m.blockDevice → k.Searches m

/-- What a step may make of a volume. -/
structure LunAfter (k : StepKind) (s : Store) (l l' : Lun) : Prop where
  becomes : l.Becomes l'
  formatted : l'.fsUuid ≠ l.fsUuid → k.Formats s l

theorem TargetAfter.refl (k : StepKind) (s : Store) (t : Target) : TargetAfter k s t t :=
  ⟨.refl t, fun h => absurd rfl h⟩

theorem MountAfter.refl (k : StepKind) (m : TargetMount) : MountAfter k m m :=
  ⟨.refl m, fun h => absurd rfl h⟩

theorem LunAfter.refl (k : StepKind) (s : Store) (l : Lun) : LunAfter k s l l :=
  ⟨.refl l, fun h => absurd rfl h⟩

/-- What a step may do to the store. -/
structure Changes (k : StepKind) (s s' : Store) : Prop where
  hosts : s'.hosts = s.hosts
  filesystems : s'.filesystems = s.filesystems
  confParams : s'.confParams = s.confParams
  targets : s.targets.Gains (TargetAfter k s) 0 s'.targets
  targetMounts : s.targetMounts.Gains (MountAfter k) 0 s'.targetMounts
  luns : s.luns.Gains (LunAfter k s) k.newLuns s'.luns
  lunNodes : s.lunNodes.Gains LunNode.Becomes k.newNodes s'.lunNodes
  mgs : s.mgs.Gains Mgs.Becomes 0 s'.mgs

open FleetJobs.Program (Yields)
open FleetJobs.Store (Table)

variable {σ : Type} {o : Outside σ} {w w' : World σ}

theorem Changes.refl (k : StepKind) (s : Store) : Changes k s s where
  hosts := rfl
  filesystems := rfl
  confParams := rfl
  targets := .refl (TargetAfter.refl k s) 0 _
  targetMounts := .refl (MountAfter.refl k) 0 _
  luns := .refl (LunAfter.refl k s) _ _
  lunNodes := .refl LunNode.Becomes.refl _ _
  mgs := .refl Mgs.Becomes.refl 0 _

theorem changes_of_eq {k : StepKind} {s s' : Store} (h : s' = s) : Changes k s s' := h ▸ .refl k s

/-- A program that only looks things up leaves the store. -/
theorem store_of_asks {α : Type} {p : StepProgram α} (hp : p.Asks fun c => c.isWrite = false)
    (w : World σ) : (p.run o w).2.store = w.store := by
  induction p generalizing w with
  | done | fail => rfl
  | ask c next ih =>
    rcases hc : w.store.handle c with (r | _) | ⟨a, s⟩
    · rw [Program.run_ask_refused o hc]
      exact ih _ (hp.2 _) w
    · rw [Program.run_ask_exhausted o hc]
    · rw [Program.run_ask_answered o hc]
      exact (ih _ (hp.2 _) _).trans (Store.eq_of_read hp.1 hc)
  | send host line next ih => exact ih _ (hp _) _
  | look next ih => exact ih _ (hp _) _

/-! ### Steps that write -/

theorem changes_findDevice {agent : String} {id : TargetMountId}
    (h : (Step.findDevice agent id).Yields o w () w') :
    Changes (.findDevice id) w.store w'.store := by
  obtain ⟨mount, hm, ⟨_, rfl⟩ | ⟨hnone, hprimary, lun, _, _, _, host, _, output, w₁, hsend, location,
    _, node, w₂, hrecord, hset⟩⟩ := yields_findDevice.mp h
  · exact .refl _ _
  obtain ⟨_, _, rfl⟩ := yields_harmless.mp hsend
  -- whichever way the device is recorded, only devices change
  obtain ⟨nodes, hw₂, hnodes⟩ : ∃ nodes, w₂.store = { w.store with lunNodes := nodes } ∧
      w.store.lunNodes.Gains LunNode.Becomes 1 nodes := by
    rcases yields_recordDevice.mp hrecord with ⟨n, _, hattach, _⟩ | ⟨_, n, hcreate, _⟩
    · obtain ⟨s, hs, rfl⟩ := yields_call.mp hattach
      obtain ⟨l, n, _, hn, rfl⟩ := Store.attachLun_eq_ok.mp hs
      have hold : w.store.lunNodes.find? n.id.key = some n := by
        rw [show n.id.key = _ from Table.key_of_find? hn]
        exact hn
      exact ⟨_, rfl, Table.gains_replace { n with lun := some lun.id } hold LunNode.Becomes.refl
        ⟨rfl, fun _ => rfl⟩ 1⟩
    · obtain ⟨s, hs, rfl⟩ := yields_call.mp hcreate
      obtain ⟨_, hkey, _, _, rfl⟩ := Store.createLunNode_eq_ok hs
      exact ⟨_, rfl, Table.gains_next hkey LunNode.Becomes.refl⟩
  obtain ⟨s, hs, rfl⟩ := yields_call.mp hset
  rw [hw₂] at hs
  obtain ⟨_, m, _, hm', rfl⟩ := Store.setBlockDevice_eq_ok.mp hs
  obtain rfl : mount = m := Option.some.inj (hm.symm.trans hm')
  have hkey : mount.id.key = id.key := Table.key_of_find? hm
  have hold : w.store.targetMounts.find? mount.id.key = some mount := by rw [hkey]; exact hm
  have hbecomes : mount.Becomes { mount with blockDevice := some node } :=
    ⟨rfl, fun d hd => by rw [hnone] at hd; cases hd⟩
  have hsearch : StepKind.Searches (.findDevice id) mount :=
    ⟨congrArg StepKind.findDevice (Id.key_injective hkey).symm, hprimary, hnone⟩
  exact { Changes.refl (.findDevice id) w.store with
    lunNodes := hnodes
    targetMounts := Table.gains_replace { mount with blockDevice := some node } hold
      (MountAfter.refl _) ⟨hbecomes, fun _ => hsearch⟩ 0 }

theorem changes_formatTarget {agent : String} {id : TargetId}
    (h : (formatTarget agent id).Yields o w () w') : Changes (.mkfs id) w.store w'.store := by
  obtain ⟨target, _, primary, hp, device, hd, node, hn, host, _, args, w₁, hargs, output, w₂, hsend,
    result, _, hrecord⟩ := yields_formatTarget.mp h
  obtain ⟨_, _, rfl⟩ := yields_risky.mp hsend
  have hw₁ : w₁.store = w.store := by
    have hlooks := store_of_asks (o := o) (asks_formatArgs (fun _ hc => hc) target
      (w.store.targetMounts.filter fun m => m.target == id) node) w
    rwa [show (formatArgs target _ node).run o w = _ from hargs] at hlooks
  have hsent : (w₁.send o host (args.request.line agent)).2.store = w.store := hw₁
  rcases yields_recordUuid.mp hrecord with ⟨lun, hlun, hset⟩ | ⟨_, lun, w₃, hcreate, hattach⟩
  · obtain ⟨s, hs, rfl⟩ := yields_call.mp hset
    rw [hsent] at hs
    obtain ⟨_, l, hl, rfl⟩ := Store.setLunUuid_eq_ok.mp hs
    have hkey : l.id.key = lun.key := Table.key_of_find? hl
    have hold : w.store.luns.find? l.id.key = some l := by rw [hkey]; exact hl
    have hformats : StepKind.Formats (.mkfs id) w.store l :=
      ⟨id, rfl, primary, hp, device, hd, node, hn, by rw [hlun, Id.key_injective hkey]⟩
    exact { Changes.refl (.mkfs id) w.store with
      luns := Table.gains_replace { l with fsUuid := some result.uuid } hold (LunAfter.refl _ _)
        ⟨⟨rfl, fun _ => rfl⟩, fun _ => hformats⟩ _ }
  · obtain ⟨s, hs, rfl⟩ := yields_call.mp hcreate
    rw [hsent] at hs
    obtain ⟨_, hkey, _, rfl⟩ := Store.createLun_eq_ok hs
    obtain ⟨s, hs, rfl⟩ := yields_call.mp hattach
    obtain ⟨_, n, _, hn', rfl⟩ := Store.attachLun_eq_ok.mp hs
    have hold : w.store.lunNodes.find? n.id.key = some n := by
      rw [show n.id.key = _ from Table.key_of_find? hn']
      exact hn'
    exact { Changes.refl (.mkfs id) w.store with
      luns := Table.gains_next hkey (LunAfter.refl _ _)
      lunNodes := Table.gains_replace { n with lun := some lun.id } hold LunNode.Becomes.refl
        ⟨rfl, fun _ => rfl⟩ _ }

theorem changes_registerTarget {agent : String} {id : TargetMountId}
    (h : (Step.registerTarget agent id).Yields o w () w') :
    Changes (.registerTarget id) w.store w'.store := by
  obtain ⟨mount, hm, _, _, _, _, _, _, _, _, hsend, result, _, hset⟩ := yields_registerTarget.mp h
  obtain ⟨_, _, rfl⟩ := yields_harmless.mp hsend
  obtain ⟨s, hs, rfl⟩ := yields_call.mp hset
  obtain ⟨t, ht, rfl⟩ := Store.setTargetName_eq_ok.mp hs
  have hkey : t.id.key = mount.target.key := Table.key_of_find? ht
  have hold : w.store.targets.find? t.id.key = some t := by rw [hkey]; exact ht
  have hregisters : StepKind.Registers (.registerTarget id) w.store t :=
    ⟨id, mount, rfl, hm, (Id.key_injective hkey).symm⟩
  exact { Changes.refl (.registerTarget id) w.store with
    targets := Table.gains_replace { t with name := some result.label } hold (TargetAfter.refl _ _)
      ⟨⟨rfl, fun _ => rfl⟩, fun _ => hregisters⟩ 0 }

theorem changes_recordVersion {mgs : TargetId} {version : UInt64}
    (h : (recordVersion mgs version).Yields o w () w') :
    Changes (.confParamVersion mgs version) w.store w'.store := by
  obtain ⟨record, _, h⟩ := yields_recordVersion.mp h
  split at h
  · exact changes_of_eq (congrArg World.store h.symm)
  · obtain ⟨s, hs, rfl⟩ := yields_call.mp h
    obtain ⟨m, hm, rfl⟩ := Store.setVersionApplied_eq_ok.mp hs
    have hold : w.store.mgs.find? m.target.key = some m := by
      rw [show m.target.key = _ from Table.key_of_find? hm]
      exact hm
    exact { Changes.refl (.confParamVersion mgs version) w.store with
      mgs := Table.gains_replace { m with versionApplied := version } hold Mgs.Becomes.refl ⟨rfl⟩ 0 }

theorem store_applyConfParam (id : ConfParamId) (w : World σ) :
    ((applyConfParam id).run o w).2.store = w.store :=
  store_of_asks (asks_applyConfParam (fun _ hc => hc) id) w

/-- **A step changes nothing but what it is there to change.** -/
theorem run_changes (s : Step) (agent : String) (o : Outside σ) (w : World σ) :
    Changes s.kind w.store ((s.program agent).run o w).2.store := by
  by_cases hdone : ((s.program agent).run o w).1 = .done ()
  · have h : (s.kind.program agent).Yields o w () ((s.program agent).run o w).2 := Prod.ext hdone rfl
    revert h
    generalize ((s.program agent).run o w).2 = w'
    cases s.kind with
    | null => exact fun h => changes_of_eq (congrArg World.store (Program.yields_done.mp h).2.symm)
    | findDevice m => exact changes_findDevice
    | mkfs t => exact changes_formatTarget
    | mount t => exact fun h => changes_of_eq (store_requestByLabel h)
    | unmount t => exact fun h => changes_of_eq (store_requestByLabel h)
    | registerTarget m => exact changes_registerTarget
    | configurePacemaker m => exact fun h => changes_of_eq (store_configurePacemaker h)
    | startLnet host => exact fun h => changes_of_eq (store_controlLnet h)
    | stopLnet host => exact fun h => changes_of_eq (store_controlLnet h)
    | loadLnet host => exact fun h => changes_of_eq (store_controlLnet h)
    | unloadLnet host => exact fun h => changes_of_eq (store_controlLnet h)
    | confParam p =>
      intro h
      have hstore := store_applyConfParam (o := o) p w
      rw [show (applyConfParam p).run o w = _ from h] at hstore
      exact changes_of_eq hstore
    | confParamVersion mgs version => exact changes_recordVersion
  · exact changes_of_eq (store_of_run_ne_done hdone)

end Step

end FleetJobs
