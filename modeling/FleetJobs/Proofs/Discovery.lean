import FleetJobs.Proofs.StepSuccess
import FleetJobs.Proofs.StoreInvariant
import Mathlib.Data.Finset.Card

/-! What is left of a search for a device.

A search that finds a device gives its mount the record of the device, the one there is
or a new one (`Located`), with the target's volume behind it. What earlier searches for
the same volume have left stays (`Equipped.equip`), and so does all that a search goes by
(`Served.equip`); a new number is used up only for a host whose device was not known
(`HasRoom.equip`). -/
namespace FleetJobs

open FleetJobs.Fleet

namespace Store

open Keyed (key)

/-! ### Numbers -/

section Numbers

variable {α : Type} [Keyed α] {t : Table α} {r : α}

theorem Table.nextKey_insert_next (h : key r = t.nextKey) : (t.insert r).nextKey = t.nextKey + 1 := by
  have hlast : (t.insert r).nextKey = key r + 1 := by
    unfold nextKey
    rw [records_insert_next h, List.getLast?_concat]
  rw [hlast, h]

theorem Table.nextKey_insert_le (h : t.contains (key r) = true) :
    (t.insert r).nextKey ≤ t.nextKey := by
  obtain ⟨old, hold⟩ := exists_of_contains h
  obtain ⟨hold, hkey⟩ := find?_eq_some_iff.mp hold
  have hlt := lt_nextKey hold
  by_cases hone : (t.insert r).nextKey = 1
  · omega
  · obtain ⟨x, hx, hnext⟩ := exists_of_nextKey hone
    rcases mem_insert.mp hx with rfl | ⟨hx, _⟩
    · omega
    · have := lt_nextKey hx
      omega

theorem freshId_of_lt (kind : Kind) (h : t.nextKey < UInt32.size) :
    ∃ id : Id kind, freshId t = .ok id ∧ id.key = t.nextKey := by
  unfold freshId
  rw [if_pos h]
  exact ⟨_, rfl, UInt32.toNat_ofNat_of_lt' h⟩

end Numbers

/-- A volume whose uuid is free is added, if there is a number for it. -/
theorem createLun_of_free {s : Store} {uuid : String}
    (free : ∀ l ∈ s.luns.records, l.fsUuid ≠ some uuid) (left : s.luns.nextKey < UInt32.size) :
    ∃ l : Lun, s.handle (.createLun uuid) = .ok (l, { s with luns := s.luns.insert l }) ∧
      l.fsUuid = some uuid := by
  have htaken : s.uuidTaken uuid none = false :=
    uuidTaken_eq_false_iff.mpr fun l hl _ => free l hl
  obtain ⟨id, hid, _⟩ := freshId_of_lt .lun left
  refine ⟨⟨id, some uuid⟩, ?_, rfl⟩
  show s.createLun uuid = _
  rw [createLun_eq, if_neg (by simpa using htaken), hid]
  rfl

/-- So is a device that is not known. -/
theorem createLunNode_of_unknown {s : Store} (device : Device) (lun : LunId)
    (unknown : s.lunNodes.any (isDevice device.host device.path) = false)
    (left : s.lunNodes.nextKey < UInt32.size) :
    ∃ d : LunNode, s.handle (.createLunNode device lun) =
        .ok (d, { s with lunNodes := s.lunNodes.insert d }) ∧
      d.id.key = s.lunNodes.nextKey ∧ d.device = device ∧ d.lun = some lun := by
  obtain ⟨id, hid, hnext⟩ := freshId_of_lt .lunNode left
  refine ⟨⟨id, device, some lun⟩, ?_, hnext, rfl, rfl⟩
  show s.createLunNode device lun = _
  rw [createLunNode_eq, if_neg (by simpa using unknown), hid]
  rfl

/-! ### The record of a device -/

/-- The record of the device at a path of a host, with a volume behind it: the one there is
or, if there is none, one under the next number. -/
structure Located (s : Store) (host : HostId) (path : String) (lun : LunId) (d : LunNode) : Prop where
  onHost : d.device.host = host
  atPath : d.device.path = path
  behind : d.lun = some lun
  place : (∃ old, s.lunNodes.find? d.id.key = some old ∧ old.device = d.device) ∨
    d.id.key = s.lunNodes.nextKey ∧ s.lunNodes.any (isDevice host path) = false

section Devices

variable {s : Store} {host : HostId} {path : String} {lun : LunId} {d : LunNode}

/-- Records that have the volume behind them already stay as they are. -/
theorem Located.keeps (h : s.Located host path lun d) {k : Nat} {n : LunNode}
    (hn : s.lunNodes.find? k = some n) (hlun : n.lun = some lun) :
    (s.lunNodes.insert d).find? k = some n := by
  by_cases hk : d.id.key = k
  · rw [Table.find?_insert_of_eq _ hk]
    rcases h.place with ⟨old, hold, hdevice⟩ | ⟨hnext, _⟩
    · -- the record that is written again already says the same
      rw [hk, hn] at hold
      obtain rfl := Option.some.inj hold
      have hid : d.id = n.id := Id.key_injective (hk.trans (Table.key_of_find? hn).symm)
      have hbehind : d.lun = n.lun := h.behind.trans hlun.symm
      obtain ⟨id, device, lun⟩ := d
      obtain ⟨_, _, _⟩ := n
      cases hid
      cases hdevice
      cases hbehind
      rfl
    · have hlt := Table.lt_nextKey (Table.mem_of_find? hn)
      have hkey : key n = k := Table.key_of_find? hn
      omega
  · rw [Table.find?_insert_of_ne _ hk, hn]

/-- Devices that are known stay known. -/
theorem Located.known (h : s.Located host path lun d) {host' : HostId} {path' : String}
    (hknown : s.lunNodes.any (isDevice host' path') = true) :
    (s.lunNodes.insert d).any (isDevice host' path') = true := by
  obtain ⟨n, hn, hdevice⟩ := List.any_eq_true.mp hknown
  refine List.any_eq_true.mpr ?_
  by_cases hk : n.id.key = d.id.key
  · refine ⟨d, Table.mem_insert.mpr (.inl rfl), ?_⟩
    rcases h.place with ⟨old, hold, hsame⟩ | ⟨hnext, _⟩
    · have hn' : s.lunNodes.find? n.id.key = some n := Table.find?_of_mem hn
      rw [hk, hold] at hn'
      obtain rfl := Option.some.inj hn'
      unfold isDevice at hdevice ⊢
      rwa [← hsame]
    · have hlt : n.id.key < s.lunNodes.nextKey := Table.lt_nextKey hn
      omega
  · exact ⟨n, Table.mem_insert.mpr (.inr ⟨hn, hk⟩), hdevice⟩

/-- And the device itself is known from now on. -/
theorem Located.found (h : s.Located host path lun d) :
    (s.lunNodes.insert d).any (isDevice host path) = true := by
  refine List.any_eq_true.mpr ⟨d, Table.mem_insert.mpr (.inl rfl), ?_⟩
  simp [isDevice, h.onHost, h.atPath]

end Devices

/-! ### Numbers that are left -/

/-- The hosts of mounts that do not know the device at their path yet. -/
def unknownHosts (s : Store) (path : HostId → String) (mounts : List TargetMount) : Finset HostId :=
  (mounts.map TargetMount.host).toFinset.filter fun h => s.lunNodes.any (isDevice h (path h)) = false

/-- There is a number left for every device that the mounts still want a record of. -/
def HasRoom (s : Store) (path : HostId → String) (mounts : List TargetMount) : Prop :=
  s.lunNodes.nextKey + (s.unknownHosts path mounts).card ≤ UInt32.size

section Room

variable {s : Store} {path : HostId → String} {m : TargetMount} {mounts : List TargetMount}

theorem mem_unknownHosts {h : HostId} :
    h ∈ s.unknownHosts path mounts ↔
      (∃ m ∈ mounts, m.host = h) ∧ s.lunNodes.any (isDevice h (path h)) = false := by
  simp [unknownHosts]

theorem HasRoom.next (room : s.HasRoom path (m :: mounts))
    (unknown : s.lunNodes.any (isDevice m.host (path m.host)) = false) :
    s.lunNodes.nextKey < UInt32.size := by
  have hpos : 0 < (s.unknownHosts path (m :: mounts)).card :=
    Finset.card_pos.mpr ⟨m.host, mem_unknownHosts.mpr ⟨⟨m, .head _, rfl⟩, unknown⟩⟩
  unfold HasRoom at room
  omega

theorem HasRoom.mono {s' : Store} {mounts' : List TargetMount} (room : s.HasRoom path mounts)
    (hnext : s'.lunNodes.nextKey ≤ s.lunNodes.nextKey)
    (hsub : s'.unknownHosts path mounts' ⊆ s.unknownHosts path mounts) : s'.HasRoom path mounts' := by
  have hcard := Finset.card_le_card hsub
  unfold HasRoom at room ⊢
  omega

theorem HasRoom.rest (room : s.HasRoom path (m :: mounts)) : s.HasRoom path mounts := by
  refine room.mono (Nat.le_refl _) fun h hh => ?_
  obtain ⟨⟨m', hm', hhost⟩, hunknown⟩ := mem_unknownHosts.mp hh
  exact mem_unknownHosts.mpr ⟨⟨m', .tail _ hm', hhost⟩, hunknown⟩

end Room

/-! ### Mounts and their devices -/

/-- The store once the mount has got the device. -/
def equip (s : Store) (m : TargetMount) (d : LunNode) : Store :=
  { s with
    lunNodes := s.lunNodes.insert d
    targetMounts := s.targetMounts.insert { m with blockDevice := some d.id } }

/-- The mount has the device at the path that its host has for the volume. -/
def Equipped (s : Store) (path : HostId → String) (lun : LunId) (m : TargetMount) : Prop :=
  ∃ d : LunNode, s.targetMounts.find? m.id.key = some { m with blockDevice := some d.id } ∧
    s.lunNodes.find? d.id.key = some d ∧ d.device.host = m.host ∧ d.device.path = path m.host ∧
    d.lun = some lun

/-- The mount is the one primary mount of the target. -/
structure OnlyPrimary (s : Store) (target : TargetId) (p : TargetMount) : Prop where
  mem : p ∈ s.targetMounts.records
  ofTarget : p.target = target
  isPrimary : p.primary = true
  only : ∀ m ∈ s.targetMounts.records, m.target = target → m.primary = true → m = p

theorem OnlyPrimary.find? {s : Store} {target : TargetId} {p : TargetMount}
    (h : s.OnlyPrimary target p) :
    (s.targetMounts.filter fun m => m.target == target).find? TargetMount.primary = some p := by
  have hp : p ∈ s.targetMounts.filter fun m => m.target == target :=
    List.mem_filter.mpr ⟨h.mem, by simp [h.ofTarget]⟩
  obtain ⟨q, hq⟩ := Option.isSome_iff_exists.mp (List.find?_isSome.mpr ⟨p, hp, h.isPrimary⟩)
  obtain ⟨hmem, htarget⟩ := List.mem_filter.mp (List.mem_of_find?_eq_some hq)
  rw [hq, h.only q hmem (by simpa using htarget) (List.find?_some hq)]

/-- The target is there, and its volume behind the device of its primary mount. -/
structure Served (s : Store) (t : Target) (p : TargetMount) (n : LunNode) (l : Lun) : Prop where
  target : s.targets.find? t.id.key = some t
  primary : s.OnlyPrimary t.id p
  device : p.blockDevice = some n.id
  node : s.lunNodes.find? n.id.key = some n
  behind : n.lun = some l.id
  volume : s.luns.find? l.id.key = some l

section Equipment

variable {s : Store} {path : HostId → String} {lun : LunId} {m m' : TargetMount} {d : LunNode}
  {mounts : List TargetMount}

theorem equipped_equip (h : s.Located m.host (path m.host) lun d) :
    (s.equip m d).Equipped path lun m :=
  ⟨d, Table.find?_insert_of_eq _ rfl, Table.find?_insert_of_eq _ rfl, h.onHost, h.atPath, h.behind⟩

/-- **What earlier searches for the volume have left stays.** -/
theorem Equipped.equip (h : s.Equipped path lun m') (hm : s.targetMounts.find? m.id.key = some m)
    (hdevice : m.blockDevice = none) {host : HostId} {at' : String} (hd : s.Located host at' lun d) :
    (s.equip m d).Equipped path lun m' := by
  obtain ⟨d', hm', hd', hhost, hpath, hlun⟩ := h
  refine ⟨d', ?_, hd.keeps hd' hlun, hhost, hpath, hlun⟩
  by_cases hk : m.id.key = m'.id.key
  · rw [← hk, hm] at hm'
    rw [Option.some.inj hm'] at hdevice
    cases hdevice
  · exact (Table.find?_insert_of_ne _ hk).trans hm'

theorem OnlyPrimary.equip {target : TargetId} {p : TargetMount} (h : s.OnlyPrimary target p)
    (hm : s.targetMounts.find? m.id.key = some m) (hsecondary : m.primary = false) :
    (s.equip m d).OnlyPrimary target p where
  mem := by
    refine Table.mem_insert.mpr (.inr ⟨h.mem, fun hk => ?_⟩)
    have hp : s.targetMounts.find? p.id.key = some p := Table.find?_of_mem h.mem
    have hk : p.id.key = m.id.key := hk
    rw [hk, hm] at hp
    have hprimary := h.isPrimary
    rw [← Option.some.inj hp, hsecondary] at hprimary
    cases hprimary
  ofTarget := h.ofTarget
  isPrimary := h.isPrimary
  only m' hm' htarget hprimary := by
    rcases Table.mem_insert.mp hm' with rfl | ⟨hm', _⟩
    · rw [show m.primary = true from hprimary] at hsecondary
      cases hsecondary
    · exact h.only m' hm' htarget hprimary

/-- So does all that a search goes by. -/
theorem Served.equip {t : Target} {p : TargetMount} {n : LunNode} {l : Lun} (h : s.Served t p n l)
    (hm : s.targetMounts.find? m.id.key = some m) (hsecondary : m.primary = false) {host : HostId}
    {at' : String} (hd : s.Located host at' l.id d) : (s.equip m d).Served t p n l where
  target := h.target
  primary := h.primary.equip hm hsecondary
  device := h.device
  node := hd.keeps h.node h.behind
  behind := h.behind
  volume := h.volume

/-- With the record of a device there is, all hosts know what they knew. -/
theorem Located.unknownHosts_subset {s' : Store} {host : HostId} {at' : String}
    (hd : s.Located host at' lun d) (hs' : s'.lunNodes = s.lunNodes.insert d) :
    s'.unknownHosts path mounts ⊆ s.unknownHosts path mounts := by
  intro h hh
  obtain ⟨hhost, hunknown⟩ := mem_unknownHosts.mp hh
  refine mem_unknownHosts.mpr ⟨hhost, ?_⟩
  cases hknown : s.lunNodes.any (isDevice h (path h)) with
  | false => rfl
  | true =>
    rw [hs', hd.known hknown] at hunknown
    cases hunknown

/-- A record that takes the place of another uses up no number. -/
theorem HasRoom.replace {s' : Store} {host : HostId} {at' : String} (room : s.HasRoom path mounts)
    (hd : s.Located host at' lun d) (hold : s.lunNodes.contains d.id.key = true)
    (hs' : s'.lunNodes = s.lunNodes.insert d) : s'.HasRoom path mounts := by
  refine room.mono ?_ (hd.unknownHosts_subset hs')
  rw [hs']
  exact Table.nextKey_insert_le hold

/-- **A new number is used up only for a device that was not known.** -/
theorem HasRoom.equip (room : s.HasRoom path (m :: mounts))
    (hd : s.Located m.host (path m.host) lun d) : (s.equip m d).HasRoom path mounts := by
  rcases hd.place with ⟨old, hold, _⟩ | ⟨hnext, hunknown⟩
  · exact room.rest.replace hd (Table.contains_of_find? hold) rfl
  · -- one number fewer is left, but one host fewer needs one
    have hsub : (s.equip m d).unknownHosts path mounts ⊆
        (s.unknownHosts path (m :: mounts)).erase m.host := by
      intro h hh
      obtain ⟨⟨m', hm', hhost⟩, hunknown'⟩ := mem_unknownHosts.mp (hd.unknownHosts_subset rfl hh)
      refine Finset.mem_erase.mpr ⟨?_, mem_unknownHosts.mpr ⟨⟨m', .tail _ hm', hhost⟩, hunknown'⟩⟩
      rintro rfl
      have hstill := (mem_unknownHosts.mp hh).2
      rw [show (s.equip m d).lunNodes.any _ = true from hd.found] at hstill
      cases hstill
    have hcard := Finset.card_le_card hsub
    have herase := Finset.card_erase_add_one
      (mem_unknownHosts.mpr ⟨⟨m, .head mounts, rfl⟩, hunknown⟩)
    have heq : (s.equip m d).lunNodes.nextKey = s.lunNodes.nextKey + 1 :=
      Table.nextKey_insert_next hnext
    unfold HasRoom at room ⊢
    omega

end Equipment

end Store

namespace Step

open FleetJobs.Command
open FleetJobs.Gateway
open FleetJobs.Program (Yields)
open FleetJobs.Store (Table)

/-! ### A search -/

section Search

variable {σ : Type} {o : Outside σ} {w : World σ} {t : Target} {p : TargetMount} {n : LunNode}
  {l : Lun}

theorem volumeBehind_of_served {s : Store} (h : s.Served t p n l) : VolumeBehind s t.id l :=
  ⟨p, h.primary.find?, n.id, h.device, n, h.node, l.id, h.behind, h.volume⟩

/-- The device of a location gets a record, if there is a number for it. -/
theorem recordDevice_located (host : Host) (location : DeviceLocation)
    (hl : w.store.luns.find? l.id.key = some l)
    (left : w.store.lunNodes.any (Store.isDevice host.id location.path) = false →
      w.store.lunNodes.nextKey < UInt32.size) :
    ∃ d, w.store.Located host.id location.path l.id d ∧
      (recordDevice host location l).Yields o w d.id
        { w with store := { w.store with lunNodes := w.store.lunNodes.insert d } } := by
  cases hfound : w.store.lunNodes.records.find? (Store.isDevice host.id location.path) with
  | some old =>
    have hold : w.store.lunNodes.find? old.id.key = some old :=
      Table.find?_of_mem (List.mem_of_find?_eq_some hfound)
    have hdevice := List.find?_some hfound
    simp only [Store.isDevice, Bool.and_eq_true, beq_iff_eq] at hdevice
    refine ⟨{ old with lun := some l.id }, ⟨hdevice.1, hdevice.2, rfl, .inl ⟨old, hold, rfl⟩⟩, ?_⟩
    refine yields_recordDevice.mpr (.inl ⟨old, hfound, yields_call.mpr ⟨_, ?_, rfl⟩, rfl⟩)
    exact Store.attachLun_eq_ok.mpr ⟨l, old, hl, hold, rfl⟩
  | none =>
    have hunknown : w.store.lunNodes.any (Store.isDevice host.id location.path) = false :=
      List.any_eq_false.mpr (List.find?_eq_none.mp hfound)
    obtain ⟨d, hcreate, hnext, hdevice, hlun⟩ := Store.createLunNode_of_unknown
      ⟨host.id, location.path, location.size, location.used⟩ l.id hunknown (left hunknown)
    refine ⟨d, ⟨?_, ?_, hlun, .inr ⟨hnext, hunknown⟩⟩, ?_⟩
    · rw [hdevice]
    · rw [hdevice]
    · exact yields_recordDevice.mpr (.inr ⟨hfound, d, yields_call.mpr ⟨_, hcreate, rfl⟩, rfl⟩)

/-- **A mount without a device gets the one that its host has for the volume.** -/
theorem findDevice_equips {m : TargetMount} {uuid agent : String} {host : Host}
    {output : CommandOutput} {location : DeviceLocation} (served : w.store.Served t p n l)
    (huuid : l.fsUuid = some uuid) (hm : w.store.targetMounts.find? m.id.key = some m)
    (htarget : m.target = t.id) (hsecondary : m.primary = false) (hdevice : m.blockDevice = none)
    (hhost : w.store.hosts.find? m.host.key = some host)
    (hreply : (w.send o host ((AgentRequest.locateDevice uuid).line agent)).1 = .ok output)
    (hsuccess : output.success = true)
    (hread : DeviceLocation.read output.stdout = .ok (some location))
    (left : w.store.lunNodes.any (Store.isDevice m.host location.path) = false →
      w.store.lunNodes.nextKey < UInt32.size) :
    ∃ d, w.store.Located m.host location.path l.id d ∧
      (Step.findDevice agent m.id).Yields o w ()
        { (w.send o host ((AgentRequest.locateDevice uuid).line agent)).2 with
          store := w.store.equip m d } := by
  have hid : host.id = m.host := Id.key_injective (Table.key_of_find? hhost)
  obtain ⟨d, hd, hrecord⟩ := recordDevice_located (o := o) host location
    (w := (w.send o host ((AgentRequest.locateDevice uuid).line agent)).2) served.volume
    (hid ▸ left)
  have hbehind : VolumeBehind w.store m.target l := htarget ▸ volumeBehind_of_served served
  refine ⟨d, hid ▸ hd, yields_findDevice.mpr ⟨m, hm, .inr ⟨hdevice, hsecondary, l, hbehind, uuid, huuid,
    host, hhost, output, _, yields_harmless.mpr ⟨hreply, hsuccess, rfl⟩, location, hread, d.id, _,
    hrecord, yields_call.mpr ⟨_, ?_, rfl⟩⟩⟩⟩
  exact Store.setBlockDevice_eq_ok.mpr ⟨d, m, Table.find?_insert_of_eq _ rfl, hm, rfl⟩

end Search

end Step

end FleetJobs
