import FleetJobs.Store.Basic

/-! What one call may do to the store.

A read answers from the store and leaves it alone. A write that is carried out puts in
one record: over the record of that number, or under a number that was not taken. So no
record ever goes, and hosts, filesystems and parameters stay as they are; that is
`Store.Grows`, and `grows_handle` says it of every call. A write that names only records
that are there is carried out, so once they were seen it cannot be refused. -/
namespace FleetJobs.Store

open FleetJobs.Fleet
open Keyed (key)

/-! ### Tables that lose nothing -/

namespace Table

variable {α : Type} [Keyed α]

theorem contains_of_find? {t : Table α} {k : Nat} {r : α} (h : t.find? k = some r) :
    t.contains k = true := by
  simp [contains, h]

theorem exists_of_contains {t : Table α} {k : Nat} (h : t.contains k = true) :
    ∃ r, t.find? k = some r := Option.isSome_iff_exists.mp h

/-- A record of the table is found under its own key, if not it then one in its place. -/
theorem contains_of_mem {t : Table α} {r : α} (h : r ∈ t.records) : t.contains (key r) = true :=
  List.find?_isSome.mpr ⟨r, h, by simp⟩

/-- The table holds a record for every key that the other has one for. -/
def Grows (t t' : Table α) : Prop := ∀ k, t.contains k = true → t'.contains k = true

theorem grows_insert (t : Table α) (r : α) : t.Grows (t.insert r) := by
  intro k h
  simp only [contains, find?_insert] at h ⊢
  split
  · rfl
  · exact h

theorem contains_insert_self (t : Table α) (r : α) : (t.insert r).contains (key r) = true :=
  contains_of_find? (by rw [find?_insert, if_pos rfl])

end Table

/-! ### Stores that lose nothing -/

/-- What every call leaves: the records that none writes, and some record under every
number that is taken. -/
structure Grows (s s' : Store) : Prop where
  hosts : s'.hosts = s.hosts
  targets : s.targets.Grows s'.targets
  targetMounts : s.targetMounts.Grows s'.targetMounts
  luns : s.luns.Grows s'.luns
  lunNodes : s.lunNodes.Grows s'.lunNodes
  filesystems : s'.filesystems = s.filesystems
  mgs : s.mgs.Grows s'.mgs
  confParams : s'.confParams = s.confParams

namespace Grows

theorem refl (s : Store) : s.Grows s :=
  ⟨rfl, fun _ h => h, fun _ h => h, fun _ h => h, fun _ h => h, rfl, fun _ h => h, rfl⟩

theorem trans {a b c : Store} (h : a.Grows b) (h' : b.Grows c) : a.Grows c where
  hosts := h'.hosts.trans h.hosts
  targets k hk := h'.targets k (h.targets k hk)
  targetMounts k hk := h'.targetMounts k (h.targetMounts k hk)
  luns k hk := h'.luns k (h.luns k hk)
  lunNodes k hk := h'.lunNodes k (h.lunNodes k hk)
  filesystems := h'.filesystems.trans h.filesystems
  mgs k hk := h'.mgs k (h.mgs k hk)
  confParams := h'.confParams.trans h.confParams

end Grows

/-! ### What each write does when it is carried out -/

theorem fetch_eq_ok_iff {α : Type} [Keyed α] {kind : Kind} {table : Table α} {label : Kind}
    {id : Id kind} {r : α} : fetch table label id = .ok r ↔ table.find? id.key = some r := by
  unfold fetch
  cases table.find? id.key <;> simp

/-- A number is given out only if it is above all that are taken. -/
theorem freshId_eq_ok {α : Type} [Keyed α] {kind : Kind} {table : Table α} {id : Id kind}
    (h : freshId table = .ok id) : id.key = table.nextKey := by
  unfold freshId at h
  split at h
  · rename_i hlt
    cases h
    exact UInt32.toNat_ofNat_of_lt' hlt
  · cases h

variable {s s' : Store}

theorem setTargetName_eq_ok {id : TargetId} {name : String} :
    s.setTargetName id name = .ok ((), s') ↔
      ∃ t, s.targets.find? id.key = some t ∧
        s' = { s with targets := s.targets.insert { t with name := some name } } := by
  simp only [setTargetName, bind_eq_ok, fetch_eq_ok_iff, pure, Except.pure, Except.ok.injEq,
    Prod.mk.injEq, true_and]
  exact exists_congr fun _ => and_congr_right fun _ => eq_comm

theorem setBlockDevice_eq_ok {id : TargetMountId} {node : LunNodeId} :
    s.setBlockDevice id node = .ok ((), s') ↔
      ∃ n m, s.lunNodes.find? node.key = some n ∧ s.targetMounts.find? id.key = some m ∧
        s' = { s with targetMounts := s.targetMounts.insert { m with blockDevice := some node } } := by
  simp only [setBlockDevice, bind_eq_ok, fetch_eq_ok_iff, pure, Except.pure, Except.ok.injEq,
    Prod.mk.injEq, true_and]
  grind

theorem attachLun_eq_ok {node : LunNodeId} {lun : LunId} :
    s.attachLun node lun = .ok ((), s') ↔
      ∃ l n, s.luns.find? lun.key = some l ∧ s.lunNodes.find? node.key = some n ∧
        s' = { s with lunNodes := s.lunNodes.insert { n with lun := some lun } } := by
  simp only [attachLun, bind_eq_ok, fetch_eq_ok_iff, pure, Except.pure, Except.ok.injEq,
    Prod.mk.injEq, true_and]
  grind

theorem setVersionApplied_eq_ok {target : TargetId} {version : UInt64} :
    s.setVersionApplied target version = .ok ((), s') ↔
      ∃ m, s.mgs.find? target.key = some m ∧
        s' = { s with mgs := s.mgs.insert { m with versionApplied := version } } := by
  simp only [setVersionApplied, bind_eq_ok, fetch_eq_ok_iff, pure, Except.pure, Except.ok.injEq,
    Prod.mk.injEq, true_and]
  exact exists_congr fun _ => and_congr_right fun _ => eq_comm

theorem setLunUuid_eq_ok {id : LunId} {uuid : String} :
    s.setLunUuid id uuid = .ok ((), s') ↔
      s.uuidTaken uuid (some id) = false ∧ ∃ l, s.luns.find? id.key = some l ∧
        s' = { s with luns := s.luns.insert { l with fsUuid := some uuid } } := by
  unfold setLunUuid
  cases s.uuidTaken uuid (some id)
  · simp only [Bool.false_eq_true, if_false, bind_eq_ok, fetch_eq_ok_iff, true_and, pure,
      Except.pure, Except.ok.injEq, Prod.mk.injEq]
    exact exists_congr fun _ => and_congr_right fun _ => eq_comm
  · simp [throw, throwThe, MonadExceptOf.throw, bind, Except.bind]

theorem createLun_eq_ok {uuid : String} {l : Lun} (h : s.createLun uuid = .ok (l, s')) :
    s.uuidTaken uuid none = false ∧ l.id.key = s.luns.nextKey ∧ l.fsUuid = some uuid ∧
      s' = { s with luns := s.luns.insert l } := by
  unfold createLun at h
  cases hu : s.uuidTaken uuid none
  · rw [hu] at h
    simp only [Bool.false_eq_true, if_false, bind_eq_ok] at h
    obtain ⟨id, hid, h⟩ := h
    cases h
    exact ⟨rfl, freshId_eq_ok hid, rfl, rfl⟩
  · rw [hu] at h
    cases h

theorem createLunNode_eq_ok {device : Device} {lun : LunId} {n : LunNode}
    (h : s.createLunNode device lun = .ok (n, s')) :
    s.lunNodes.any (isDevice device.host device.path) = false ∧ n.id.key = s.lunNodes.nextKey ∧
      n.device = device ∧ n.lun = some lun ∧ s' = { s with lunNodes := s.lunNodes.insert n } := by
  unfold createLunNode at h
  cases hd : s.lunNodes.any (isDevice device.host device.path)
  · rw [hd] at h
    simp only [Bool.false_eq_true, if_false, bind_eq_ok] at h
    obtain ⟨id, hid, h⟩ := h
    cases h
    exact ⟨rfl, freshId_eq_ok hid, rfl, rfl, rfl⟩
  · rw [hd] at h
    cases h

/-! ### Every call -/

/-- Whether the call may change the store. -/
def Call.isWrite : Call → Bool
  | .setTargetName .. | .setBlockDevice .. | .createLunNode .. | .attachLun .. | .createLun _
  | .setLunUuid .. | .setVersionApplied .. => true
  | _ => false

theorem fetch_ne_exhausted {α : Type} [Keyed α] {kind : Kind} {table : Table α} {label : Kind}
    {id : Id kind} : fetch table label id ≠ .error .exhausted := by
  unfold fetch
  split <;> simp

theorem reading_outcome {α : Type} {x : Except Stop α} (h : x ≠ .error .exhausted) :
    (∃ a, s.reading x = .ok (a, s)) ∨ ∃ r, s.reading x = .error (.refused r) := by
  rcases x with (r | _) | a
  · exact .inr ⟨r, rfl⟩
  · exact absurd rfl h
  · exact .inl ⟨a, rfl⟩

/-- **A read leaves the store as it is**, and no read wants a new number. -/
theorem handle_read {c : Call} (hc : c.isWrite = false) :
    (∃ a, s.handle c = .ok (a, s)) ∨ ∃ r, s.handle c = .error (.refused r) := by
  cases c with
  | host | target | targetMount | lunNode | lun | filesystem | mgs | confParam =>
    exact reading_outcome fetch_ne_exhausted
  | targetMounts | findLunNode => exact reading_outcome (by simp)
  | _ => simp [Call.isWrite] at hc

theorem eq_of_read {c : Call} (hc : c.isWrite = false) {a : c.Answer}
    (h : s.handle c = .ok (a, s')) : s' = s := by
  rcases handle_read (s := s) hc with ⟨b, hb⟩ | ⟨r, hr⟩
  · rw [hb] at h
    cases h
    rfl
  · rw [hr] at h
    cases h

/-- All that a call can do that is carried out. A read leaves the store, and a write puts
one record into one table. -/
inductive Effect (s : Store) : Call → Store → Prop
  | nothing {c : Call} (hc : c.isWrite = false) : Effect s c s
  | targetNamed {id : TargetId} {name : String} {t : Target}
    (ht : s.targets.find? id.key = some t) :
    Effect s (.setTargetName id name)
      { s with targets := s.targets.insert { t with name := some name } }
  | deviceSet {id : TargetMountId} {node : LunNodeId} {n : LunNode} {m : TargetMount}
    (hn : s.lunNodes.find? node.key = some n) (hm : s.targetMounts.find? id.key = some m) :
    Effect s (.setBlockDevice id node)
      { s with targetMounts := s.targetMounts.insert { m with blockDevice := some node } }
  | nodeMade {device : Device} {lun : LunId} {n : LunNode}
    (new : s.lunNodes.any (isDevice device.host device.path) = false)
    (hkey : n.id.key = s.lunNodes.nextKey) (hdevice : n.device = device) (hlun : n.lun = some lun) :
    Effect s (.createLunNode device lun) { s with lunNodes := s.lunNodes.insert n }
  | lunAttached {node : LunNodeId} {lun : LunId} {l : Lun} {n : LunNode}
    (hl : s.luns.find? lun.key = some l) (hn : s.lunNodes.find? node.key = some n) :
    Effect s (.attachLun node lun)
      { s with lunNodes := s.lunNodes.insert { n with lun := some lun } }
  | lunMade {uuid : String} {l : Lun} (new : s.uuidTaken uuid none = false)
    (hkey : l.id.key = s.luns.nextKey) (huuid : l.fsUuid = some uuid) :
    Effect s (.createLun uuid) { s with luns := s.luns.insert l }
  | uuidSet {id : LunId} {uuid : String} {l : Lun} (new : s.uuidTaken uuid (some id) = false)
    (hl : s.luns.find? id.key = some l) :
    Effect s (.setLunUuid id uuid) { s with luns := s.luns.insert { l with fsUuid := some uuid } }
  | versionSet {target : TargetId} {version : UInt64} {m : Mgs}
    (hm : s.mgs.find? target.key = some m) :
    Effect s (.setVersionApplied target version)
      { s with mgs := s.mgs.insert { m with versionApplied := version } }

/-- **Nothing else comes of a call.** -/
theorem effect_of_handle {c : Call} {a : c.Answer} (h : s.handle c = .ok (a, s')) :
    s.Effect c s' := by
  by_cases hc : c.isWrite = true
  · cases c with
    | setTargetName =>
      obtain ⟨t, ht, rfl⟩ := setTargetName_eq_ok.mp h
      exact .targetNamed ht
    | setBlockDevice =>
      obtain ⟨n, m, hn, hm, rfl⟩ := setBlockDevice_eq_ok.mp h
      exact .deviceSet hn hm
    | createLunNode =>
      obtain ⟨new, hkey, hdevice, hlun, rfl⟩ := createLunNode_eq_ok h
      exact .nodeMade new hkey hdevice hlun
    | attachLun =>
      obtain ⟨l, n, hl, hn, rfl⟩ := attachLun_eq_ok.mp h
      exact .lunAttached hl hn
    | createLun =>
      obtain ⟨new, hkey, huuid, rfl⟩ := createLun_eq_ok h
      exact .lunMade new hkey huuid
    | setLunUuid =>
      obtain ⟨new, l, hl, rfl⟩ := setLunUuid_eq_ok.mp h
      exact .uuidSet new hl
    | setVersionApplied =>
      obtain ⟨m, hm, rfl⟩ := setVersionApplied_eq_ok.mp h
      exact .versionSet hm
    | _ => simp [Call.isWrite] at hc
  · rw [eq_of_read (by simpa using hc) h]
    exact .nothing (by simpa using hc)

/-- **No call takes a record away**, nor touches what no write names. -/
theorem grows_handle {c : Call} {a : c.Answer} (h : s.handle c = .ok (a, s')) : s.Grows s' := by
  have base := Grows.refl s
  cases effect_of_handle h with
  | nothing => exact base
  | targetNamed => exact { base with targets := Table.grows_insert _ _ }
  | deviceSet => exact { base with targetMounts := Table.grows_insert _ _ }
  | nodeMade | lunAttached => exact { base with lunNodes := Table.grows_insert _ _ }
  | lunMade | uuidSet => exact { base with luns := Table.grows_insert _ _ }
  | versionSet => exact { base with mgs := Table.grows_insert _ _ }

/-! ### What is known to be there -/

theorem find?_of_reading {α : Type} [Keyed α] {kind : Kind} {table : Table α} {label : Kind}
    {id : Id kind} {r : α} (h : s.reading (fetch table label id) = .ok (r, s')) :
    table.find? id.key = some r ∧ s' = s := by
  unfold reading at h
  rcases hf : fetch table label id with e | r'
  · rw [hf] at h
    cases h
  · rw [hf] at h
    cases h
    exact ⟨fetch_eq_ok_iff.mp hf, rfl⟩

theorem contains_of_targetMount {id : TargetMountId} {m : TargetMount}
    (h : s.handle (.targetMount id) = .ok (m, s')) : s'.targetMounts.contains id.key = true := by
  obtain ⟨hm, rfl⟩ := find?_of_reading h
  exact Table.contains_of_find? hm

theorem contains_of_lunNode {id : LunNodeId} {n : LunNode}
    (h : s.handle (.lunNode id) = .ok (n, s')) : s'.lunNodes.contains n.id.key = true := by
  obtain ⟨hn, rfl⟩ := find?_of_reading h
  have hkey : n.id.key = id.key := Table.key_of_find? hn
  rw [hkey]
  exact Table.contains_of_find? hn

theorem contains_of_lun {id : LunId} {l : Lun} (h : s.handle (.lun id) = .ok (l, s')) :
    s'.luns.contains l.id.key = true := by
  obtain ⟨hl, rfl⟩ := find?_of_reading h
  have hkey : l.id.key = id.key := Table.key_of_find? hl
  rw [hkey]
  exact Table.contains_of_find? hl

theorem contains_of_findLunNode {host : HostId} {path : String} {n : LunNode}
    (h : s.handle (.findLunNode host path) = .ok (some n, s')) :
    s'.lunNodes.contains n.id.key = true := by
  have hread : s.lunNodes.records.find? (isDevice host path) = some n ∧ s' = s := by
    simpa [handle, reading, Except.map, eq_comm] using h
  obtain ⟨hn, rfl⟩ := hread
  exact Table.contains_of_mem (List.mem_of_find?_eq_some hn)

theorem contains_of_createLun {uuid : String} {l : Lun}
    (h : s.handle (.createLun uuid) = .ok (l, s')) : s'.luns.contains l.id.key = true := by
  obtain ⟨_, _, _, rfl⟩ := createLun_eq_ok h
  exact Table.contains_insert_self _ _

theorem contains_of_createLunNode {device : Device} {lun : LunId} {n : LunNode}
    (h : s.handle (.createLunNode device lun) = .ok (n, s')) :
    s'.lunNodes.contains n.id.key = true := by
  obtain ⟨_, _, _, _, rfl⟩ := createLunNode_eq_ok h
  exact Table.contains_insert_self _ _

/-! ### Writes that cannot be refused -/

theorem handle_attachLun {node : LunNodeId} {lun : LunId} (hl : s.luns.contains lun.key = true)
    (hn : s.lunNodes.contains node.key = true) :
    ∃ s', s.handle (.attachLun node lun) = .ok ((), s') := by
  obtain ⟨l, hl⟩ := Table.exists_of_contains hl
  obtain ⟨n, hn⟩ := Table.exists_of_contains hn
  exact ⟨_, attachLun_eq_ok.mpr ⟨l, n, hl, hn, rfl⟩⟩

theorem handle_setBlockDevice {id : TargetMountId} {node : LunNodeId}
    (hn : s.lunNodes.contains node.key = true) (hm : s.targetMounts.contains id.key = true) :
    ∃ s', s.handle (.setBlockDevice id node) = .ok ((), s') := by
  obtain ⟨n, hn⟩ := Table.exists_of_contains hn
  obtain ⟨m, hm⟩ := Table.exists_of_contains hm
  exact ⟨_, setBlockDevice_eq_ok.mpr ⟨n, m, hn, hm, rfl⟩⟩

end FleetJobs.Store
