import FleetJobs.Proofs.Interleaving
import FleetJobs.Proofs.Tables

/-! What the store keeps true of its records.

However its records came about, no two devices of a host have one path and no two volumes
one uuid, if that was so to begin with (`Apart`). A call that makes a record adds it behind
all others of its table, under a number of its own (`Table.Adds`), and the only call that
finds no number left is one that makes a record when the highest number is taken. All this
holds after any calls, whoever makes them: `records_stay_apart`. -/
namespace FleetJobs

open FleetJobs.Fleet

namespace Store

open Keyed (key)

/-! ### One call after another -/

/-- The store after a call, whether that is carried out or not. -/
def after (s : Store) (c : Call) : Store :=
  match s.handle c with
  | .ok (_, s') => s'
  | .error _ => s

/-- The store after calls one after another. -/
def afterAll (s : Store) (cs : List Call) : Store := cs.foldl after s

theorem after_of_ok {s s' : Store} {c : Call} {a : c.Answer} (h : s.handle c = .ok (a, s')) :
    s.after c = s' := by
  unfold after
  rw [h]

theorem after_of_error {s : Store} {c : Call} {e : Stop} (h : s.handle c = .error e) :
    s.after c = s := by
  unfold after
  rw [h]

theorem afterAll_append_singleton (s : Store) (cs : List Call) (c : Call) :
    s.afterAll (cs ++ [c]) = (s.afterAll cs).after c := by
  unfold afterAll
  rw [List.foldl_append]
  rfl

/-- What every call keeps that is carried out, calls one after another keep. -/
theorem afterAll_invariant {P : Store → Prop}
    (step : ∀ {s s' : Store} {c : Call} {a : c.Answer}, P s → s.handle c = .ok (a, s') → P s')
    {s : Store} (h : P s) (cs : List Call) : P (s.afterAll cs) := by
  induction cs using List.reverseRecOn with
  | nil => exact h
  | append_singleton cs c ih =>
    rw [afterAll_append_singleton]
    rcases hc : (s.afterAll cs).handle c with e | ⟨a, s'⟩
    · rw [after_of_error hc]
      exact ih
    · rw [after_of_ok hc]
      exact step ih hc

end Store

/-- **The store that a pool leaves behind is that of some calls one after another**, whatever
the programs and their turns. -/
theorem Pool.Reaches.calls {ε α : Type} {p q : Pool ε α} (h : p.Reaches q) :
    ∃ cs, q.store = p.store.afterAll cs := by
  induction h with
  | refl => exact ⟨[], rfl⟩
  | tail _ hmove ih =>
    obtain ⟨cs, hcs⟩ := ih
    cases hmove with
    | turn before after hturn =>
      cases hturn with
      | @answered _ _ c _ _ hc =>
        refine ⟨cs ++ [c], ?_⟩
        rw [Store.afterAll_append_singleton, ← hcs]
        exact (Store.after_of_ok hc).symm
      | _ => exact ⟨cs, hcs⟩

namespace Store

open Keyed (key)

/-! ### Records are told apart -/

/-- No two devices of a host have one path, and no two volumes have one uuid. -/
structure Apart (nodes : List LunNode) (luns : List Lun) : Prop where
  devices : Distinct (fun n : LunNode => some (n.device.host, n.device.path)) nodes
  uuids : Distinct Lun.fsUuid luns

theorem uuidTaken_eq_false_iff {s : Store} {uuid : String} {except : Option LunId} :
    s.uuidTaken uuid except = false ↔
      ∀ l ∈ s.luns.records, some l.id ≠ except → l.fsUuid ≠ some uuid := by
  simp [uuidTaken, Table.any]

theorem deviceTaken_eq_false_iff {s : Store} {host : HostId} {path : String} :
    s.lunNodes.any (isDevice host path) = false ↔
      ∀ n ∈ s.lunNodes.records, ¬ (n.device.host = host ∧ n.device.path = path) := by
  simp [Table.any, isDevice]

/-- A record that replaces one with the same mark leaves the marks apart. -/
theorem Distinct.replace {α β : Type} [Keyed α] {mark : α → Option β} {t : Table α}
    (h : Distinct mark t.records) (old new : α) (hold : t.find? (key new) = some old)
    (hmark : mark new = mark old) : Distinct mark (t.insert new).records := by
  obtain ⟨hmem, hkey⟩ := Table.find?_eq_some_iff.mp hold
  refine h.insert fun x hx hne m hm hxm => hne ?_
  rw [h x hx old hmem m hxm (hmark ▸ hm), hkey]

theorem Apart.handle {s s' : Store} {c : Call} {a : c.Answer}
    (h : Apart s.lunNodes.records s.luns.records) (hc : s.handle c = .ok (a, s')) :
    Apart s'.lunNodes.records s'.luns.records := by
  cases effect_of_handle hc with
  | nothing | targetNamed | deviceSet | versionSet => exact h
  | nodeMade new _ hdevice =>
    refine ⟨h.devices.insert fun x hx _ m hm hxm => ?_, h.uuids⟩
    have hsame := Option.some.inj (hxm.trans hm.symm)
    rw [hdevice] at hsame
    refine deviceTaken_eq_false_iff.mp new x hx ?_
    exact ⟨congrArg Prod.fst hsame, congrArg Prod.snd hsame⟩
  | @lunAttached node lun l n _ hn =>
    -- the device itself stays where it is
    rw [← Table.key_of_find? hn] at hn
    exact ⟨h.devices.replace n { n with lun := some lun } hn rfl, h.uuids⟩
  | lunMade new _ huuid =>
    refine ⟨h.devices, h.uuids.insert fun x hx _ m hm => ?_⟩
    rw [← hm, huuid]
    exact uuidTaken_eq_false_iff.mp new x hx (Option.some_ne_none _)
  | @uuidSet id uuid l new hl =>
    have hkey : l.id.key = id.key := Table.key_of_find? hl
    refine ⟨h.devices, h.uuids.insert fun x hx hne m hm => ?_⟩
    rw [← hm]
    -- only the volume under `id` may have the uuid, and that one is replaced
    refine uuidTaken_eq_false_iff.mp new x hx fun hx' => hne ?_
    show x.id.key = l.id.key
    rw [Option.some.inj hx', hkey]

/-! ### New records -/

/-- The table with one record more, behind all others. -/
structure Table.Adds {α : Type} [Keyed α] (t : Table α) (r : α) (t' : Table α) : Prop where
  records : t'.records = t.records ++ [r]
  above : ∀ x ∈ t.records, key x < key r
  first : t.records = [] → key r = 1

theorem Table.adds_insert {α : Type} [Keyed α] {t : Table α} {r : α} (h : key r = t.nextKey) :
    t.Adds r (t.insert r) where
  records := records_insert_next h
  above _ hx := h ▸ lt_nextKey hx
  first hnil := h.trans (nextKey_of_nil hnil)

/-- A number is left unless the highest there can be is taken. -/
theorem freshId_eq_error_iff {α : Type} [Keyed α] {kind : Kind} {table : Table α}
    (small : ∀ r ∈ table.records, key r < UInt32.size) {e : Stop} :
    (freshId table : Except Stop (Id kind)) = .error e ↔
      e = .exhausted ∧ ∃ r ∈ table.records, key r = 4294967295 := by
  have hsize : UInt32.size = 4294967296 := rfl
  unfold freshId
  by_cases hnext : table.nextKey < UInt32.size
  · rw [if_pos hnext]
    refine ⟨nofun, ?_⟩
    rintro ⟨_, r, hr, hkey⟩
    have := Table.lt_nextKey hr
    omega
  · rw [if_neg hnext]
    constructor
    · rintro ⟨⟩
      obtain ⟨r, hr, hkey⟩ := Table.exists_of_nextKey (t := table) (by omega)
      have := small r hr
      exact ⟨rfl, r, hr, by omega⟩
    · rintro ⟨rfl, _⟩
      rfl

theorem createLun_eq (s : Store) (uuid : String) :
    s.createLun uuid =
      if s.uuidTaken uuid none then .error (.refused (.conflict (.uuidTaken uuid)))
      else (freshId s.luns).map fun id =>
        (⟨id, some uuid⟩, { s with luns := s.luns.insert ⟨id, some uuid⟩ }) := by
  unfold createLun
  split
  · rfl
  · cases (freshId s.luns : Except Stop LunId) <;> rfl

theorem createLunNode_eq (s : Store) (device : Device) (lun : LunId) :
    s.createLunNode device lun =
      if s.lunNodes.any (isDevice device.host device.path) then
        .error (.refused (.conflict (.deviceTaken device.host device.path)))
      else (freshId s.lunNodes).map fun id =>
        (⟨id, device, some lun⟩, { s with lunNodes := s.lunNodes.insert ⟨id, device, some lun⟩ }) := by
  unfold createLunNode
  split
  · rfl
  · cases (freshId s.lunNodes : Except Stop LunNodeId) <;> rfl

theorem map_eq_error_iff {ε α β : Type} {x : Except ε α} {f : α → β} {e : ε} :
    x.map f = .error e ↔ x = .error e := by
  cases x <;> simp [Except.map]

theorem id_key_lt {kind : Kind} (id : Id kind) : id.key < UInt32.size := id.number.toNat_lt_size

/-- **A volume is refused if its uuid is taken, finds no number if the highest one is taken,
and is added otherwise.** -/
theorem handle_createLun_eq_error_iff {s : Store} {uuid : String} {e : Stop} :
    s.handle (.createLun uuid) = .error e ↔
      if ∃ l ∈ s.luns.records, l.fsUuid = some uuid then e = .refused (.conflict (.uuidTaken uuid))
      else e = .exhausted ∧ ∃ l ∈ s.luns.records, l.id.key = 4294967295 := by
  show s.createLun uuid = .error e ↔ _
  rw [createLun_eq]
  by_cases htaken : s.uuidTaken uuid none = true
  · have hl : ∃ l ∈ s.luns.records, l.fsUuid = some uuid := by
      simpa [uuidTaken, Table.any] using htaken
    rw [if_pos htaken, if_pos hl, Except.error.injEq]
    exact eq_comm
  · have hl : ¬ ∃ l ∈ s.luns.records, l.fsUuid = some uuid := by
      simpa [uuidTaken, Table.any] using htaken
    rw [if_neg htaken, if_neg hl, map_eq_error_iff]
    exact freshId_eq_error_iff fun l _ => id_key_lt l.id

theorem handle_createLunNode_eq_error_iff {s : Store} {device : Device} {lun : LunId} {e : Stop} :
    s.handle (.createLunNode device lun) = .error e ↔
      if ∃ n ∈ s.lunNodes.records, n.device.host = device.host ∧ n.device.path = device.path then
        e = .refused (.conflict (.deviceTaken device.host device.path))
      else e = .exhausted ∧ ∃ n ∈ s.lunNodes.records, n.id.key = 4294967295 := by
  show s.createLunNode device lun = .error e ↔ _
  rw [createLunNode_eq]
  by_cases htaken : s.lunNodes.any (isDevice device.host device.path) = true
  · have hn : ∃ n ∈ s.lunNodes.records, n.device.host = device.host ∧ n.device.path = device.path := by
      simpa [isDevice, Table.any] using htaken
    rw [if_pos htaken, if_pos hn, Except.error.injEq]
    exact eq_comm
  · have hn : ¬ ∃ n ∈ s.lunNodes.records,
        n.device.host = device.host ∧ n.device.path = device.path := by
      simpa [isDevice, Table.any] using htaken
    rw [if_neg htaken, if_neg hn, map_eq_error_iff]
    exact freshId_eq_error_iff fun n _ => id_key_lt n.id

theorem createLun_adds (s : Store) (uuid : String) :
    (∃ e, s.handle (.createLun uuid) = .error e) ∨
      ∃ l s', s.handle (.createLun uuid) = .ok (l, s') ∧ l.fsUuid = some uuid ∧
        s.luns.Adds l s'.luns ∧ s' = { s with luns := s'.luns } := by
  rcases h : s.handle (.createLun uuid) with e | ⟨l, s'⟩
  · exact .inl ⟨e, rfl⟩
  · obtain ⟨_, hkey, hl, rfl⟩ := createLun_eq_ok h
    exact .inr ⟨l, _, rfl, hl, Table.adds_insert hkey, rfl⟩

theorem createLunNode_adds (s : Store) (device : Device) (lun : LunId) :
    (∃ e, s.handle (.createLunNode device lun) = .error e) ∨
      ∃ n s', s.handle (.createLunNode device lun) = .ok (n, s') ∧ n.device = device ∧
        n.lun = some lun ∧ s.lunNodes.Adds n s'.lunNodes ∧ s' = { s with lunNodes := s'.lunNodes } := by
  rcases h : s.handle (.createLunNode device lun) with e | ⟨n, s'⟩
  · exact .inl ⟨e, rfl⟩
  · obtain ⟨_, hkey, hdevice, hlun, rfl⟩ := createLunNode_eq_ok h
    exact .inr ⟨n, _, rfl, hdevice, hlun, Table.adds_insert hkey, rfl⟩

/-- No call but one that makes a record wants a number for it. -/
theorem creates_of_exhausted {s : Store} {c : Call} (h : s.handle c = .error .exhausted) :
    (∃ uuid, c = .createLun uuid) ∨ ∃ device lun, c = .createLunNode device lun := by
  by_cases hw : c.isWrite = true
  · cases c with
    | createLun uuid => exact .inl ⟨uuid, rfl⟩
    | createLunNode device lun => exact .inr ⟨device, lun, rfl⟩
    | setTargetName | setBlockDevice | attachLun | setVersionApplied =>
      simp only [handle, setTargetName, setBlockDevice, attachLun, setVersionApplied, bind_eq_error,
        fetch_ne_exhausted, pure, Except.pure, reduceCtorEq, and_false, exists_false, or_self] at h
    | setLunUuid id uuid =>
      simp only [handle, setLunUuid] at h
      split at h
      · cases h
      · simp only [bind_eq_error, fetch_ne_exhausted, pure, Except.pure, reduceCtorEq, and_false,
          exists_false, or_self] at h
    | _ => simp [Call.isWrite] at hw
  · rcases handle_read (s := s) (by simpa using hw) with ⟨a, ha⟩ | ⟨r, hr⟩
    · rw [ha] at h
      cases h
    · rw [hr] at h
      cases h

/-- **A call finds no number only if it is to make a record that nothing speaks against, and
the highest number of its table is taken.** -/
theorem handle_eq_exhausted_iff {s : Store} {c : Call} :
    s.handle c = .error .exhausted ↔
      (∃ uuid, c = .createLun uuid ∧ (∀ l ∈ s.luns.records, l.fsUuid ≠ some uuid) ∧
        ∃ l ∈ s.luns.records, l.id.key = 4294967295) ∨
      ∃ device lun, c = .createLunNode device lun ∧
        (∀ n ∈ s.lunNodes.records, ¬ (n.device.host = device.host ∧ n.device.path = device.path)) ∧
        ∃ n ∈ s.lunNodes.records, n.id.key = 4294967295 := by
  constructor
  · intro h
    rcases creates_of_exhausted h with ⟨uuid, rfl⟩ | ⟨device, lun, rfl⟩
    · rw [handle_createLun_eq_error_iff] at h
      split at h
      · cases h
      · rename_i hfree
        exact .inl ⟨uuid, rfl, fun l hl hu => hfree ⟨l, hl, hu⟩, h.2⟩
    · rw [handle_createLunNode_eq_error_iff] at h
      split at h
      · cases h
      · rename_i hfree
        exact .inr ⟨device, lun, rfl, fun n hn hd => hfree ⟨n, hn, hd⟩, h.2⟩
  · rintro (⟨uuid, rfl, hfree, hhighest⟩ | ⟨device, lun, rfl, hfree, hhighest⟩)
    · rw [handle_createLun_eq_error_iff, if_neg fun ⟨l, hl, hu⟩ => hfree l hl hu]
      exact ⟨rfl, hhighest⟩
    · rw [handle_createLunNode_eq_error_iff, if_neg fun ⟨n, hn, hd⟩ => hfree n hn hd]
      exact ⟨rfl, hhighest⟩

/-- Every call leaves some record under every number that is taken. -/
theorem grows_after (s : Store) (c : Call) : s.Grows (s.after c) := by
  rcases h : s.handle c with e | ⟨a, s'⟩
  · rw [after_of_error h]
    exact Grows.refl s
  · rw [after_of_ok h]
    exact grows_handle h

/-! ### All of it, after any calls -/

/-- Every record is found under its own number and under no other. -/
def Table.Indexed {α : Type} [Keyed α] (t : Table α) : Prop :=
  ∀ r ∈ t.records, ∀ k, t.find? k = some r ↔ k = key r

theorem Table.indexed {α : Type} [Keyed α] (t : Table α) : t.Indexed := by
  intro r hr k
  rw [find?_eq_some_iff]
  constructor
  · exact fun h => h.2.symm
  · exact fun h => ⟨hr, h.symm⟩

structure Indexed (s : Store) : Prop where
  hosts : s.hosts.Indexed
  targets : s.targets.Indexed
  targetMounts : s.targetMounts.Indexed
  luns : s.luns.Indexed
  lunNodes : s.lunNodes.Indexed
  filesystems : s.filesystems.Indexed
  mgs : s.mgs.Indexed
  confParams : s.confParams.Indexed

theorem indexed (s : Store) : s.Indexed :=
  ⟨Table.indexed _, Table.indexed _, Table.indexed _, Table.indexed _, Table.indexed _,
    Table.indexed _, Table.indexed _, Table.indexed _⟩

/-- The store of an inventory tells its records apart if the inventory does, of which the
last under every number counts. -/
theorem apart_ofInventory {i : Inventory} (h : Apart (kept i.lunNodes) (kept i.luns)) :
    Apart (ofInventory i).lunNodes.records (ofInventory i).luns.records where
  devices a ha b hb := h.devices a (Table.mem_ofList.mp ha) b (Table.mem_ofList.mp hb)
  uuids a ha b hb := h.uuids a (Table.mem_ofList.mp ha) b (Table.mem_ofList.mp hb)

/-- **What the store keeps true of its records, whatever calls are made.** Take an inventory
whose records, of each number the last, are told apart by uuid and by host and path. After
any calls they still are, and each is found under its own number. No call takes a record
away. A new volume or device is added behind all others, with a number above theirs, or the
call fails. A call that fails, be it that the highest number is taken, leaves the store as
it is. And programs that take turns on the store make nothing but calls. -/
theorem records_stay_apart (i : Inventory) (h : Apart (kept i.lunNodes) (kept i.luns))
    (cs : List Call) :
    let s := (ofInventory i).afterAll cs
    Apart s.lunNodes.records s.luns.records ∧ s.Indexed ∧
    (∀ c, s.Grows (s.after c)) ∧
    (∀ uuid, (∃ e, s.handle (.createLun uuid) = .error e) ∨
      ∃ l s', s.handle (.createLun uuid) = .ok (l, s') ∧ l.fsUuid = some uuid ∧
        s.luns.Adds l s'.luns ∧ s' = { s with luns := s'.luns }) ∧
    (∀ device lun, (∃ e, s.handle (.createLunNode device lun) = .error e) ∨
      ∃ n s', s.handle (.createLunNode device lun) = .ok (n, s') ∧ n.device = device ∧
        n.lun = some lun ∧ s.lunNodes.Adds n s'.lunNodes ∧ s' = { s with lunNodes := s'.lunNodes }) ∧
    (∀ c e, s.handle c = .error e → s.after c = s) ∧
    (∀ c, s.handle c = .error .exhausted ↔
      (∃ uuid, c = .createLun uuid ∧ (∀ l ∈ s.luns.records, l.fsUuid ≠ some uuid) ∧
        ∃ l ∈ s.luns.records, l.id.key = 4294967295) ∨
      ∃ device lun, c = .createLunNode device lun ∧
        (∀ n ∈ s.lunNodes.records, ¬ (n.device.host = device.host ∧ n.device.path = device.path)) ∧
        ∃ n ∈ s.lunNodes.records, n.id.key = 4294967295) ∧
    ∀ (ε α : Type) (ps : List (Program ε α)) (q : Pool ε α), (Pool.start (ofInventory i) ps).Reaches q →
      ∃ cs, q.store = (ofInventory i).afterAll cs := by
  intro s
  have hapart : Apart s.lunNodes.records s.luns.records :=
    afterAll_invariant (P := fun s => Apart s.lunNodes.records s.luns.records) Apart.handle
      (apart_ofInventory h) cs
  exact ⟨hapart, indexed s, grows_after s, createLun_adds s, createLunNode_adds s,
    fun c e => after_of_error, fun c => handle_eq_exhausted_iff, fun ε α ps q hq => hq.calls⟩

/-- A volume is listed twice, with a uuid of its own only in the end, and the highest number of
a device is taken. -/
theorem listed_twice_stays_apart :
    let i : Inventory := {
      luns := [⟨⟨4⟩, some "a"⟩, ⟨⟨5⟩, some "a"⟩, ⟨⟨4⟩, some "b"⟩]
      lunNodes := [⟨⟨4294967295⟩, ⟨⟨1⟩, "/dev/sda", 0, false⟩, some ⟨4⟩⟩] }
    let cs : List Call :=
      [.setLunUuid ⟨4⟩ "a", .createLun "c", .setLunUuid ⟨5⟩ "c", .setLunUuid ⟨5⟩ "d", .createLun "a"]
    let s := (ofInventory i).afterAll cs
    Apart (kept i.lunNodes) (kept i.luns) ∧
      s.luns.records = [⟨⟨4⟩, some "b"⟩, ⟨⟨5⟩, some "d"⟩, ⟨⟨6⟩, some "c"⟩, ⟨⟨7⟩, some "a"⟩] ∧
      Apart s.lunNodes.records s.luns.records ∧
      s.handle (.createLunNode ⟨⟨1⟩, "/dev/sdb", 0, false⟩ ⟨4⟩) = .error .exhausted := by
  intro i cs s
  have apart : Apart (kept i.lunNodes) (kept i.luns) := by
    constructor
    · simp [Distinct, kept, i]
    · simp [Distinct, kept, i, key, Id.key]
  have hluns : s.luns.records =
      [⟨⟨4⟩, some "b"⟩, ⟨⟨5⟩, some "d"⟩, ⟨⟨6⟩, some "c"⟩, ⟨⟨7⟩, some "a"⟩] := by decide +kernel
  have hnodes : s.lunNodes.records = i.lunNodes := by decide +kernel
  obtain ⟨happart, _, _, _, _, _, hexhausted, _⟩ := records_stay_apart i apart cs
  have hs : s = (ofInventory i).afterAll cs := rfl
  rw [← hs] at happart hexhausted
  -- from here on only what is known of the store counts, not how it came about
  clear_value s
  have hfree : ∀ n ∈ s.lunNodes.records, ¬ (n.device.host = ⟨1⟩ ∧ n.device.path = "/dev/sdb") := by
    rw [hnodes]
    simp [i]
  have hhighest : ∃ n ∈ s.lunNodes.records, n.id.key = 4294967295 := by
    rw [hnodes]
    exact ⟨_, .head _, by decide⟩
  exact ⟨apart, hluns, happart, (hexhausted _).mpr (.inr ⟨_, _, rfl, hfree, hhighest⟩)⟩

end Store

end FleetJobs
