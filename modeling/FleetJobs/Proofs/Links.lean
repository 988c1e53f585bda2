import FleetJobs.Proofs.StoreInvariant

/-! Links between mounts, devices and volumes.

A mount may name a device and a device a volume, and a store is linked if every record
so named is there (`Store.Linked`). Giving a mount its device or a device its volume asks
for the record and is refused without it. Making a new device does not ask: a new device
may name a volume that is not there (`new_device_dangles`), and it is found out only when
somebody follows the link. This is all that can go wrong, and `links_lead_somewhere` says
so: the device of a mount is there after any calls, and so is the volume of a device after
calls that made new devices of volumes that were there. -/
namespace FleetJobs.Store

open FleetJobs.Fleet
open Keyed (key)

/-- The record that is named, if one is, is in the table. -/
def Table.Has {α : Type} [Keyed α] {kind : Kind} (t : Table α) (id : Option (Id kind)) : Prop :=
  ∀ i ∈ id, t.contains i.key = true

namespace Table

variable {α : Type} [Keyed α] {kind : Kind} {t t' : Table α}

instance (id : Option (Id kind)) : Decidable (t.Has id) :=
  inferInstanceAs (Decidable (∀ i ∈ id, t.contains i.key = true))

theorem Has.grows {id : Option (Id kind)} (h : t.Has id) (hg : t.Grows t') : t'.Has id :=
  fun i hi => hg _ (h i hi)

theorem has_some {id : Id kind} (h : t.contains id.key = true) : t.Has (some id) := by
  rintro i ⟨⟩
  exact h

/-- What holds of a record that is put in and of those that were there holds of all. -/
theorem forall_mem_insert {P : α → Prop} {r : α} (hr : P r) (h : ∀ a ∈ t.records, P a) :
    ∀ a ∈ (t.insert r).records, P a := by
  intro a ha
  rcases mem_insert.mp ha with rfl | ⟨ha, _⟩
  · exact hr
  · exact h a ha

end Table

/-- Every device that a mount names is there. -/
def DevicesFound (s : Store) : Prop := ∀ m ∈ s.targetMounts.records, s.lunNodes.Has m.blockDevice

/-- Every volume that a device names is there. -/
def VolumesFound (s : Store) : Prop := ∀ n ∈ s.lunNodes.records, s.luns.Has n.lun

/-- No link of the store dangles. -/
structure Linked (s : Store) : Prop where
  devices : s.DevicesFound
  volumes : s.VolumesFound

instance (s : Store) : Decidable s.DevicesFound :=
  inferInstanceAs (Decidable (∀ m ∈ s.targetMounts.records, s.lunNodes.Has m.blockDevice))

instance (s : Store) : Decidable s.VolumesFound :=
  inferInstanceAs (Decidable (∀ n ∈ s.lunNodes.records, s.luns.Has n.lun))

instance (s : Store) : Decidable s.Linked :=
  decidable_of_iff (s.DevicesFound ∧ s.VolumesFound) ⟨fun h => ⟨h.1, h.2⟩, fun h => ⟨h.1, h.2⟩⟩

/-- If the call is to make a new device, its volume is there. -/
def Call.Founded (s : Store) : Call → Prop
  | .createLunNode _ volume => s.luns.contains volume.key = true
  | _ => True

variable {s s' : Store} {c : Call} {a : c.Answer}

/-- The device of a mount is never lost, whatever is called. -/
theorem DevicesFound.handle (h : s.DevicesFound) (hc : s.handle c = .ok (a, s')) :
    s'.DevicesFound := by
  have hg := grows_handle hc
  cases effect_of_handle hc with
  | deviceSet hn =>
    exact Table.forall_mem_insert (Table.has_some (Table.contains_of_find? hn)) h
  | nodeMade | lunAttached => exact fun m hm => (h m hm).grows hg.lunNodes
  | _ => exact h

/-- The volume of a device is not lost either, if a new device has one to begin with. -/
theorem VolumesFound.handle (h : s.VolumesFound) (founded : c.Founded s)
    (hc : s.handle c = .ok (a, s')) : s'.VolumesFound := by
  have hg := grows_handle hc
  cases effect_of_handle hc with
  | nodeMade _ _ _ hlun =>
    refine Table.forall_mem_insert ?_ h
    rw [hlun]
    exact Table.has_some founded
  | lunAttached hl => exact Table.forall_mem_insert (Table.has_some (Table.contains_of_find? hl)) h
  | lunMade | uuidSet => exact fun n hn => (h n hn).grows hg.luns
  | _ => exact h

theorem Linked.handle (h : s.Linked) (founded : c.Founded s) (hc : s.handle c = .ok (a, s')) :
    s'.Linked := ⟨h.devices.handle hc, h.volumes.handle founded hc⟩

/-- **A new device leaves the links as they should be exactly if its volume is there.** -/
theorem Linked.nodeMade {device : Device} {lun : LunId} {n : LunNode} (h : s.Linked)
    (hc : s.handle (.createLunNode device lun) = .ok (n, s')) :
    s'.Linked ↔ s.luns.contains lun.key = true := by
  constructor
  · intro h'
    obtain ⟨_, _, _, hlun, rfl⟩ := createLunNode_eq_ok hc
    exact h'.volumes n (Table.mem_insert.mpr (.inl rfl)) lun hlun
  · exact fun hl => h.handle (c := .createLunNode device lun) hl hc

/-! ### Calls one after another -/

/-- Whenever one of the calls is to make a new device, its volume is there. -/
def FoundedAll (s : Store) : List Call → Prop
  | [] => True
  | c :: cs => c.Founded s ∧ (s.after c).FoundedAll cs

theorem Linked.afterAll (h : s.Linked) {cs : List Call} (founded : s.FoundedAll cs) :
    (s.afterAll cs).Linked := by
  induction cs generalizing s with
  | nil => exact h
  | cons c cs ih =>
    refine ih ?_ founded.2
    rcases hc : s.handle c with e | ⟨a, s'⟩
    · rw [after_of_error hc]
      exact h
    · rw [after_of_ok hc]
      exact h.handle founded.1 hc

/-! ### Links to what is missing -/

theorem fetch_missing {α : Type} [Keyed α] {kind : Kind} {table : Table α} {label : Kind}
    {id : Id kind} (h : table.contains id.key = false) :
    fetch table label id = .error (.refused (.notFound label id.text)) := by
  have hnone : table.find? id.key = none := by simpa [Table.contains] using h
  rw [fetch, hnone]

/-- A mount is not given a device that is missing. -/
theorem handle_setBlockDevice_missing (id : TargetMountId) {node : LunNodeId}
    (h : s.lunNodes.contains node.key = false) :
    s.handle (.setBlockDevice id node) = .error (.refused (.notFound .lunNode node.text)) := by
  rw [handle, setBlockDevice, fetch_missing h]
  rfl

/-- A device is not given a volume that is missing. -/
theorem handle_attachLun_missing (node : LunNodeId) {lun : LunId}
    (h : s.luns.contains lun.key = false) :
    s.handle (.attachLun node lun) = .error (.refused (.notFound .lun lun.text)) := by
  rw [handle, attachLun, fetch_missing h]
  rfl

/-- **Links lead somewhere, but for those of new devices.** After any calls on a store without
dangling links the device of every mount is there. The volume of every device is there too if
none of the calls made a new device of a volume that was missing; and to make one leaves such a
link in any case. To give a mount a device, or a device a volume, that is missing is refused, and
then all is as before. -/
theorem links_lead_somewhere (s : Store) (h : s.Linked) :
    (∀ cs, (s.afterAll cs).DevicesFound) ∧
    (∀ cs, s.FoundedAll cs → (s.afterAll cs).Linked) ∧
    (∀ device lun n s', s.handle (.createLunNode device lun) = .ok (n, s') →
      (s'.Linked ↔ s.luns.contains lun.key = true)) ∧
    (∀ id node, s.lunNodes.contains node.key = false →
      s.handle (.setBlockDevice id node) = .error (.refused (.notFound .lunNode node.text)) ∧
        s.after (.setBlockDevice id node) = s) ∧
    ∀ node lun, s.luns.contains lun.key = false →
      s.handle (.attachLun node lun) = .error (.refused (.notFound .lun lun.text)) ∧
        s.after (.attachLun node lun) = s := by
  refine ⟨?_, fun cs => h.afterAll, fun device lun n s' => h.nodeMade, fun id node hn => ?_,
    fun node lun hl => ?_⟩
  · exact afterAll_invariant (P := DevicesFound) DevicesFound.handle h.devices
  · have hrefused := handle_setBlockDevice_missing id hn
    exact ⟨hrefused, after_of_error hrefused⟩
  · have hrefused := handle_attachLun_missing node hl
    exact ⟨hrefused, after_of_error hrefused⟩

/-- A new volume gets a device, and a mount gets this device, but not one that is missing. -/
theorem new_volume_is_linked :
    let s := ofInventory {
      targetMounts := [⟨⟨3⟩, ⟨2⟩, ⟨1⟩, true, .configured, "/mnt/t", none⟩]
      luns := [⟨⟨1⟩, some "a"⟩]
      lunNodes := [⟨⟨4⟩, ⟨⟨1⟩, "/dev/sda", 0, false⟩, some ⟨1⟩⟩] }
    let cs : List Call := [.createLun "b", .createLunNode ⟨⟨1⟩, "/dev/sdb", 0, false⟩ ⟨2⟩,
      .setBlockDevice ⟨3⟩ ⟨5⟩, .setBlockDevice ⟨3⟩ ⟨9⟩]
    s.Linked ∧ s.FoundedAll cs ∧ (s.afterAll cs).Linked ∧
      (s.afterAll cs).targetMounts.records.map (·.blockDevice) = [some ⟨5⟩] := by
  intro s cs
  have linked : s.Linked := by decide +kernel
  have hluns : (s.after (.createLun "b")).luns.contains 2 = true := by decide +kernel
  have founded : s.FoundedAll cs := ⟨trivial, hluns, trivial, trivial, trivial⟩
  exact ⟨linked, founded, (links_lead_somewhere s linked).2.1 cs founded, by decide +kernel⟩

/-- **A new device may name a volume that is missing**, while a device that is there may not be
given it. From then on the link dangles. -/
theorem new_device_dangles :
    let s := ofInventory {
      targetMounts := [⟨⟨3⟩, ⟨2⟩, ⟨1⟩, true, .configured, "/mnt/t", none⟩]
      luns := [⟨⟨1⟩, some "a"⟩]
      lunNodes := [⟨⟨4⟩, ⟨⟨1⟩, "/dev/sda", 0, false⟩, some ⟨1⟩⟩] }
    let s' := s.after (.createLunNode ⟨⟨1⟩, "/dev/sdb", 0, false⟩ ⟨9⟩)
    s.Linked ∧ s.handle (.setBlockDevice ⟨3⟩ ⟨9⟩) = .error (.refused (.notFound .lunNode "9")) ∧
      s.handle (.attachLun ⟨4⟩ ⟨9⟩) = .error (.refused (.notFound .lun "9")) ∧
      s'.lunNodes.find? 5 = some ⟨⟨5⟩, ⟨⟨1⟩, "/dev/sdb", 0, false⟩, some ⟨9⟩⟩ ∧
      s'.luns.find? 9 = none ∧ ¬ s'.Linked := by
  intro s s'
  exact ⟨by decide +kernel, by rfl, by rfl, by decide +kernel, by decide +kernel, by decide +kernel⟩

end FleetJobs.Store
