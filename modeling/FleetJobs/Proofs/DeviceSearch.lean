import FleetJobs.Proofs.Formatting

/-! Searching for the device of a mount, from the records that it goes by to those that it leaves.

A mount that has a device is left alone. One that has none is searched for by the uuid of its
target's volume, four lookups away (`Store.Searchable`), with one command to the mount's own
host. The location in the answer is that of a device: the record there is for it gets the volume,
or a new record does, and the mount gets the record (`Store.Found`). An answer without a location
is a failure outright. -/
namespace FleetJobs

open FleetJobs.Command
open FleetJobs.Data
open FleetJobs.Fleet
open FleetJobs.Gateway
open FleetJobs.Step (StepKind)

namespace Store

/-! ### What a search goes by and what it leaves -/

/-- The target's primary mount has a device, and behind that is a volume with the uuid. The host
is that of the mount to be searched for. -/
structure Searchable (s : Store) (m p : TargetMount) (n : LunNode) (l : Lun) (uuid : String)
    (host : Host) : Prop where
  primary : s.PrimaryOf m.target p
  device : p.blockDevice = some n.id
  node : s.lunNodes.find? n.id.key = some n
  behind : n.lun = some l.id
  volume : s.luns.find? l.id.key = some l
  formatted : l.fsUuid = some uuid
  host : s.hosts.find? m.host.key = some host

/-- The record is that of the device at a path of a host; of several it is that with the lowest
number. -/
structure RecordOf (s : Store) (host : HostId) (path : String) (n : LunNode) : Prop where
  mem : n ∈ s.lunNodes.records
  onHost : n.device.host = host
  atPath : n.device.path = path
  lowest : ∀ n' ∈ s.lunNodes.records, n'.device.host = host → n'.device.path = path →
    n.id.key ≤ n'.id.key

theorem first_record_iff {s : Store} {host : HostId} {path : String} {n : LunNode} :
    s.lunNodes.records.find? (isDevice host path) = some n ↔ s.RecordOf host path n := by
  rw [Table.first_eq_some_iff]
  simp only [isDevice, Bool.and_eq_true, beq_iff_eq, and_imp]
  constructor
  · rintro ⟨hmem, ⟨hhost, hpath⟩, hlowest⟩
    exact ⟨hmem, hhost, hpath, hlowest⟩
  · exact fun h => ⟨h.mem, ⟨h.onHost, h.atPath⟩, h.lowest⟩

/-- There is a record of the device, or a number for one. -/
def Placeable (s : Store) (host : HostId) (path : String) : Prop :=
  (∃ n, s.RecordOf host path n) ∨ s.lunNodes.nextKey < UInt32.size

/-- The mount has the device of the location, with the volume behind it. Its record is the one that
there was, which keeps all else that it says, or a new one behind all others, with the size and
the flag that the location tells. Nothing else has changed. -/
structure Found (s s' : Store) (m : TargetMount) (location : DeviceLocation) (l : LunId)
    (d : LunNode) : Prop where
  mount : s'.targetMounts.find? m.id.key = some { m with blockDevice := some d.id }
  node : s'.lunNodes.find? d.id.key = some d
  onHost : d.device.host = m.host
  atPath : d.device.path = location.path
  behind : d.lun = some l
  reused : ∀ old, s.RecordOf m.host location.path old →
    d = { old with lun := some l } ∧ ∀ k, s'.lunNodes.contains k = s.lunNodes.contains k
  added : (¬ ∃ old, s.RecordOf m.host location.path old) →
    d.device = ⟨m.host, location.path, location.size, location.used⟩ ∧
      s'.lunNodes.records = s.lunNodes.records ++ [d]
  rest : s' = { s with
    lunNodes := s.lunNodes.insert d
    targetMounts := s.targetMounts.insert { m with blockDevice := some d.id } }

theorem found_old {s : Store} {m : TargetMount} {location : DeviceLocation} {l : LunId}
    {old : LunNode} (hold : s.RecordOf m.host location.path old) :
    s.Found (s.equip m { old with lun := some l }) m location l { old with lun := some l } where
  mount := Table.find?_insert_of_eq _ rfl
  node := Table.find?_insert_of_eq _ rfl
  onHost := hold.onHost
  atPath := hold.atPath
  behind := rfl
  reused other hother := by
    obtain rfl : old = other :=
      Option.some.inj ((first_record_iff.mpr hold).symm.trans (first_record_iff.mpr hother))
    have hknown : s.lunNodes.contains old.id.key = true := Table.contains_of_mem hold.mem
    exact ⟨rfl, Table.contains_insert_of_contains hknown⟩
  added hnone := absurd ⟨old, hold⟩ hnone
  rest := rfl

theorem found_new {s : Store} {m : TargetMount} {location : DeviceLocation} {l : LunId} {d : LunNode}
    (hnone : ¬ ∃ old, s.RecordOf m.host location.path old) (hnext : d.id.key = s.lunNodes.nextKey)
    (hdevice : d.device = ⟨m.host, location.path, location.size, location.used⟩)
    (hlun : d.lun = some l) : s.Found (s.equip m d) m location l d where
  mount := Table.find?_insert_of_eq _ rfl
  node := Table.find?_insert_of_eq _ rfl
  onHost := by rw [hdevice]
  atPath := by rw [hdevice]
  behind := hlun
  reused old hold := absurd ⟨old, hold⟩ hnone
  added _ := ⟨hdevice, Table.records_insert_next hnext⟩
  rest := rfl

end Store

namespace Step

open FleetJobs.Program (Yields yields_bind yields_done yields_pure yields_fail)
open FleetJobs.Store (Table first_primary_iff first_record_iff)

variable {σ : Type} {o : Outside σ} {w w' : World σ} {agent uuid : String} {m p : TargetMount}
  {n : LunNode} {l : Lun} {host : Host} {location : DeviceLocation}

/-! ### Before the command -/

/-- The uuid of a target's volume. -/
def uuidOf (target : TargetId) (lun : Lun) : StepProgram String :=
  match lun.fsUuid with
  | none => inconsistent (.unformatted target)
  | some uuid => pure uuid

/-- All that a search looks up: the volume, its uuid, and the host to ask. -/
def searchPlan (m : TargetMount) : StepProgram (Lun × String × Host) := do
  let lun ← volumeOf m.target
  let uuid ← uuidOf m.target lun
  let host ← call (.host m.host)
  return (lun, uuid, host)

/-- What is done with an answer. -/
def placeDevice (m : TargetMount) (id : TargetMountId) (lun : Lun) (uuid : String) (host : Host) :
    Option DeviceLocation → StepProgram Unit
  | none => inconsistent (.notLocated m.target host.display uuid)
  | some location => recordDevice host location lun >>= fun node => call (.setBlockDevice id node)

/-- The search for the device of a mount that needs one. -/
def searchFor (agent : String) (m : TargetMount) (id : TargetMountId) : StepProgram Unit :=
  searchPlan m >>= fun (lun, uuid, host) =>
    harmless "locate-device" host ((AgentRequest.locateDevice uuid).line agent) >>= fun output =>
      decode (DeviceLocation.read output.stdout) >>= placeDevice m id lun uuid host

theorem run_findDevice {id : TargetMountId} (hm : w.store.targetMounts.find? id.key = some m)
    (agent : String) :
    (Step.findDevice agent id).run o w =
      (match m.primary, m.blockDevice with
        | true, none => inconsistent (.primaryMountWithoutDevice id)
        | _, some _ => pure ()
        | false, none => searchFor agent m id : StepProgram Unit).run o w := by
  have hfound : (call (.targetMount id)).Yields o w m w := yields_targetMount.mpr ⟨hm, rfl⟩
  rw [Step.findDevice, hfound.run_bind]
  congr 1
  cases m.primary <;> cases m.blockDevice <;> try rfl
  -- the search is the same but for how its parts are put together
  simp only [searchFor, searchPlan, bind_assoc, pure_bind]
  refine bind_congr fun lun => ?_
  unfold uuidOf
  cases lun.fsUuid with
  | none => rfl
  | some uuid =>
    refine bind_congr fun host => bind_congr fun output => bind_congr fun location => ?_
    cases location <;> rfl

theorem yields_uuidOf {target : TargetId} :
    (uuidOf target l).Yields o w uuid w' ↔ l.fsUuid = some uuid ∧ w = w' := by
  unfold uuidOf
  cases l.fsUuid <;> simp

theorem yields_searchPlan :
    (searchPlan m).Yields o w (l, uuid, host) w' ↔
      (∃ p n, w.store.Searchable m p n l uuid host) ∧ w = w' := by
  simp only [searchPlan, yields_bind, yields_volumeOf, yields_uuidOf, yields_host, yields_pure,
    and_assoc, exists_and_left, exists_eq_left']
  constructor
  · rintro ⟨l', ⟨p, hp, device, hdevice, n, hn, id, hbehind, hl⟩, uuid', huuid, host', hhost, h, rfl⟩
    cases h
    obtain rfl : n.id = device := Id.key_injective (Table.key_of_find? hn)
    obtain rfl : l.id = id := Id.key_injective (Table.key_of_find? hl)
    exact ⟨⟨p, n, first_primary_iff.mp hp, hdevice, hn, hbehind, hl, huuid, hhost⟩, rfl⟩
  · rintro ⟨⟨p, n, h⟩, rfl⟩
    exact ⟨l, ⟨p, first_primary_iff.mpr h.primary, n.id, h.device, n, h.node, l.id, h.behind,
      h.volume⟩, uuid, h.formatted, host, h.host, rfl, rfl⟩

theorem looks_volumeOf (target : TargetId) : Looks o (volumeOf target) w := by
  refine (looks_call rfl).bind fun mounts _ => Looks.bind ?_ fun primary _ => ?_
  · unfold primaryAmong
    split
    · exact looks_pure _
    · exact .inr ⟨_, rfl⟩
  · split
    · exact .inr ⟨_, rfl⟩
    · refine (looks_call rfl).bind fun node _ => ?_
      split
      · exact .inr ⟨_, rfl⟩
      · exact looks_call rfl

theorem looks_searchPlan (m : TargetMount) : Looks o (searchPlan m) w := by
  refine (looks_volumeOf m.target).bind fun lun _ => Looks.bind ?_ fun uuid _ =>
    (looks_call rfl).bind fun host _ => looks_pure _
  unfold uuidOf
  split
  · exact .inr ⟨_, rfl⟩
  · exact looks_pure _

/-! ### After the command -/

/-- The device of a location gets its record, and the mount gets the device. -/
theorem placeDevice_found {id : TargetMountId} (uuid : String)
    (hm : w.store.targetMounts.find? id.key = some m) (hl : w.store.luns.find? l.id.key = some l)
    (hhost : w.store.hosts.find? m.host.key = some host)
    (placeable : w.store.Placeable m.host location.path) :
    ∃ d s, w.store.Found s m location l.id d ∧
      (placeDevice m id l uuid host (some location)).Yields o w () { w with store := s } := by
  obtain rfl : m.id = id := Id.key_injective (Table.key_of_find? hm)
  have hid : host.id = m.host := Id.key_injective (Table.key_of_find? hhost)
  have hset (d : LunNode) : (call (.setBlockDevice m.id d.id)).Yields o
      { w with store := { w.store with lunNodes := w.store.lunNodes.insert d } } ()
      { w with store := w.store.equip m d } :=
    yields_call.mpr ⟨_, Store.setBlockDevice_eq_ok.mpr ⟨d, m, Table.find?_insert_of_eq _ rfl, hm, rfl⟩,
      rfl⟩
  by_cases hknown : ∃ old, w.store.RecordOf m.host location.path old
  · obtain ⟨old, hold⟩ := hknown
    refine ⟨_, _, Store.found_old hold, yields_bind.mpr ⟨old.id, _, yields_recordDevice.mpr (.inl
      ⟨old, hid ▸ first_record_iff.mpr hold, yields_call.mpr ⟨_, ?_, rfl⟩, rfl⟩),
      hset { old with lun := some l.id }⟩⟩
    exact Store.attachLun_eq_ok.mpr ⟨l, old, hl, Table.find?_of_mem hold.mem, rfl⟩
  · have hfirst : w.store.lunNodes.records.find? (Store.isDevice m.host location.path) = none := by
      refine Option.eq_none_iff_forall_ne_some.mpr fun old hold => ?_
      exact hknown ⟨old, first_record_iff.mp hold⟩
    have hunknown : w.store.lunNodes.any (Store.isDevice m.host location.path) = false :=
      List.any_eq_false.mpr (List.find?_eq_none.mp hfirst)
    obtain ⟨d, hcreate, hnext, hdevice, hlun⟩ := Store.createLunNode_of_unknown
      ⟨m.host, location.path, location.size, location.used⟩ l.id hunknown
      (placeable.resolve_left hknown)
    refine ⟨d, _, Store.found_new hknown hnext hdevice hlun, yields_bind.mpr ⟨d.id, _,
      yields_recordDevice.mpr (.inr ⟨hid ▸ hfirst, d, yields_call.mpr ⟨_, hid ▸ hcreate, rfl⟩, rfl⟩),
      hset d⟩⟩

theorem placeable_of_placeDevice {id : TargetMountId}
    (hhost : w.store.hosts.find? m.host.key = some host)
    (h : (placeDevice m id l uuid host (some location)).Yields o w () w') :
    w.store.Placeable m.host location.path := by
  have hid : host.id = m.host := Id.key_injective (Table.key_of_find? hhost)
  obtain ⟨node, w₁, hrecord, _⟩ := yields_bind.mp h
  rcases yields_recordDevice.mp hrecord with ⟨old, hold, _⟩ | ⟨_, d, hcreate, _⟩
  · exact .inl ⟨old, first_record_iff.mp (hid ▸ hold)⟩
  · obtain ⟨_, hcreate, _⟩ := yields_call.mp hcreate
    obtain ⟨_, hnext, _⟩ := Store.createLunNode_eq_ok hcreate
    exact .inr (hnext ▸ Store.id_key_lt d.id)

theorem mute_placeDevice (m : TargetMount) (id : TargetMountId) (l : Lun) (uuid : String) (host : Host)
    (place : Option DeviceLocation) : Mute o (placeDevice m id l uuid host place) := by
  cases place with
  | none => exact fun _ => rfl
  | some location =>
    refine Mute.bind ?_ fun node => mute_call _
    refine (mute_call _).bind fun found => ?_
    split
    · exact (mute_call _).bind fun _ _ => rfl
    · exact (mute_call _).bind fun _ _ => rfl

end Step

/-! ### From end to end -/

/-- The one command of a search and its reply. -/
def searchCommand {σ : Type} (o : Outside σ) (w : World σ) (agent uuid : String) (host : Host) : Sent :=
  let line := (AgentRequest.locateDevice uuid).line agent
  ⟨host, line, (w.send o host line).1⟩

/-- The command exited zero, and its answer tells of this location, or that there is none. -/
def Sent.TellsPlace (c : Sent) (place : Option DeviceLocation) : Prop :=
  ∃ output, c.reply = .ok output ∧ output.exitCode = 0 ∧
    DeviceLocation.read output.stdout = .ok place

/-- The answer is empty, null or a map of nothing. -/
def Command.SaysNothing (answer : String) : Prop :=
  Text.allBlank answer = true ∨ Json.readDatum answer = .ok .null ∨
    Json.readDatum answer = .ok (.map [])

theorem Command.read_of_saysNothing {answer : String} (h : SaysNothing answer) :
    DeviceLocation.read answer = .ok none := by
  unfold DeviceLocation.read
  by_cases hblank : Text.allBlank answer = true
  · rw [if_pos hblank]
    rfl
  · rw [if_neg hblank]
    rcases h.resolve_left hblank with hread | hread
    · rw [hread]
      rfl
    · rw [hread]
      rfl

namespace Step

open FleetJobs.Program (yields_bind yields_pure)
open FleetJobs.Store (Table)

variable {σ : Type} {o : Outside σ} {w : World σ} {agent uuid : String} {id : TargetMountId}
  {m p : TargetMount} {n : LunNode} {l : Lun} {host : Host}

/-- The world once the command is answered. -/
abbrev searchSent (o : Outside σ) (w : World σ) (agent uuid : String) (host : Host) : World σ :=
  (w.send o host ((AgentRequest.locateDevice uuid).line agent)).2

theorem run_searchFor_of_missing (agent : String) (id : TargetMountId)
    (h : ¬ ∃ p n l uuid host, w.store.Searchable m p n l uuid host) :
    ∃ e, (searchFor agent m id).run o w = (.failed e, w) := by
  rcases looks_searchPlan (o := o) (w := w) m with ⟨⟨l, uuid, host⟩, hfound⟩ | ⟨e, hfailed⟩
  · obtain ⟨⟨p, n, hsearchable⟩, _⟩ := yields_searchPlan.mp hfound
    exact absurd ⟨p, n, l, uuid, host, hsearchable⟩ h
  · exact ⟨e, Program.run_bind_of_failed hfailed _⟩

/-- With an answer that can be read, all that is left is to place the device. -/
theorem run_searchFor_of_told (id : TargetMountId) (h : w.store.Searchable m p n l uuid host)
    {place : Option DeviceLocation}
    (told : (searchCommand o w agent uuid host).TellsPlace place) :
    (searchFor agent m id).run o w =
      (placeDevice m id l uuid host place).run o (searchSent o w agent uuid host) := by
  obtain ⟨output, hreply, hexit, hread⟩ := told
  have hplan : (searchPlan m).Yields o w (l, uuid, host) w := yields_searchPlan.mpr ⟨⟨p, n, h⟩, rfl⟩
  have hcommand : (harmless "locate-device" host ((AgentRequest.locateDevice uuid).line agent)).Yields
      o w output (searchSent o w agent uuid host) :=
    yields_harmless.mpr ⟨hreply, by simpa [CommandOutput.success] using hexit, rfl⟩
  rw [searchFor, hplan.run_bind]
  dsimp only
  rw [hcommand.run_bind, (yields_decode.mpr ⟨hread, rfl⟩).run_bind]

/-- Without one the step fails then and there. -/
theorem run_searchFor_of_untold (id : TargetMountId) (h : w.store.Searchable m p n l uuid host)
    (untold : ¬ ∃ place, (searchCommand o w agent uuid host).TellsPlace place) :
    ∃ e, (searchFor agent m id).run o w = (.failed e, searchSent o w agent uuid host) := by
  have hplan : (searchPlan m).Yields o w (l, uuid, host) w := yields_searchPlan.mpr ⟨⟨p, n, h⟩, rfl⟩
  rw [searchFor, hplan.run_bind]
  dsimp only
  rcases run_harmless o w "locate-device" ((AgentRequest.locateDevice uuid).line agent) host with
    ⟨_, output, hcommand⟩ | ⟨_, e, hfailed⟩
  · obtain ⟨hreply, hsuccess, _⟩ := yields_harmless.mp hcommand
    rw [hcommand.run_bind]
    cases hread : DeviceLocation.read output.stdout with
    | error e => exact ⟨_, Program.run_bind_of_failed rfl _⟩
    | ok place =>
      exact absurd ⟨place, output, hreply, by simpa [CommandOutput.success] using hsuccess, hread⟩
        untold
  · exact ⟨e, Program.run_bind_of_failed hfailed _⟩

/-- **The search for a mount that needs one**, once it is known what it goes by. -/
theorem searchFor_ends (hm : w.store.targetMounts.find? id.key = some m)
    (h : w.store.Searchable m p n l uuid host) (agent : String) :
    let ending := ((searchFor agent m id).run o w).1
    let after := ((searchFor agent m id).run o w).2
    let c := searchCommand o w agent uuid host
    after.sent = w.sent ++ [c] ∧
    (ending = .done () → ∃ location, c.TellsPlace (some location) ∧
      w.store.Placeable m.host location.path) ∧
    (∀ location, c.TellsPlace (some location) → w.store.Placeable m.host location.path →
      ending = .done () ∧ ∃ d, w.store.Found after.store m location l.id d) ∧
    (c.TellsPlace none →
      ending = .failed (.failed (.inconsistent (.notLocated m.target host.display uuid))) ∧
      after.store = w.store) := by
  intro ending after c
  refine ⟨?_, fun hdone => ?_, fun location told placeable => ?_, fun told => ?_⟩
  · by_cases htold : ∃ place, c.TellsPlace place
    · obtain ⟨place, told⟩ := htold
      show ((searchFor agent m id).run o w).2.sent = _
      rw [run_searchFor_of_told id h told]
      exact mute_placeDevice m id l uuid host place _
    · obtain ⟨e, hrun⟩ := run_searchFor_of_untold id h htold
      exact congrArg (fun r => r.2.sent) hrun
  · by_cases htold : ∃ place, c.TellsPlace place
    · obtain ⟨place, told⟩ := htold
      have hrun : (placeDevice m id l uuid host place).run o (searchSent o w agent uuid host) =
          (.done (), after) := (run_searchFor_of_told id h told).symm.trans (Prod.ext hdone rfl)
      cases place with
      | none => cases congrArg Prod.fst hrun
      | some location =>
        exact ⟨location, told, placeable_of_placeDevice (w := searchSent o w agent uuid host) h.host hrun⟩
    · obtain ⟨e, hrun⟩ := run_searchFor_of_untold id h htold
      cases hdone.symm.trans (congrArg Prod.fst hrun)
  · obtain ⟨d, s, hfound, hplace⟩ := placeDevice_found (o := o)
      (w := searchSent o w agent uuid host) uuid hm h.volume h.host placeable
    have hrun := (run_searchFor_of_told id h told).trans hplace
    exact ⟨congrArg Prod.fst hrun, d, (congrArg (fun r => r.2.store) hrun) ▸ hfound⟩
  · have hrun := run_searchFor_of_told id h told
    exact ⟨congrArg Prod.fst hrun, congrArg (fun r => r.2.store) hrun⟩

end Step

open FleetJobs.Step in
/-- **A search from end to end.** A mount with a device is left alone, and a primary one without
is a failure outright; neither has a command sent. Any other search sends a command only if all
that it goes by is on record, and it succeeds exactly if the one command exits zero with an answer
that tells a location, and the device there has a record or can get one. Then the mount has that
device with the volume behind it, and nothing else has changed. An answer that says nothing is a
failure outright. -/
theorem search_end_to_end {σ : Type} (o : Outside σ) (w : World σ) (agent : String)
    (id : TargetMountId) (m : TargetMount) (hm : w.store.targetMounts.find? id.key = some m) :
    let ending := (((StepKind.findDevice id).program agent).run o w).1
    let after := (((StepKind.findDevice id).program agent).run o w).2
    (m.blockDevice.isSome = true → ending = .done () ∧ after = w) ∧
    (m.blockDevice = none → m.primary = true →
      ending = .failed (.failed (.inconsistent (.primaryMountWithoutDevice id))) ∧ after = w) ∧
    (m.blockDevice = none → m.primary = false →
      (ending = .done () ↔ ∃ p n l uuid host location, w.store.Searchable m p n l uuid host ∧
        (searchCommand o w agent uuid host).TellsPlace (some location) ∧
        w.store.Placeable m.host location.path) ∧
      ((¬ ∃ p n l uuid host, w.store.Searchable m p n l uuid host) → after = w) ∧
      ∀ p n l uuid host, w.store.Searchable m p n l uuid host →
        let c := searchCommand o w agent uuid host
        after.sent = w.sent ++ [c] ∧
        (∀ location, c.TellsPlace (some location) → w.store.Placeable m.host location.path →
          ∃ d, w.store.Found after.store m location l.id d) ∧
        (∀ output, c.reply = .ok output → output.exitCode = 0 → SaysNothing output.stdout →
          ending = .failed (.failed (.inconsistent (.notLocated m.target host.display uuid))) ∧
          after.store = w.store)) := by
  have hrun := run_findDevice (o := o) hm agent
  intro ending after
  refine ⟨fun hdevice => ?_, fun hdevice hprimary => ?_, fun hdevice hsecondary => ?_⟩
  · obtain ⟨device, hdevice⟩ := Option.isSome_iff_exists.mp hdevice
    have hdone : (Step.findDevice agent id).run o w = (.done (), w) := by
      rw [hrun, hdevice]
      cases m.primary <;> rfl
    exact ⟨congrArg Prod.fst hdone, congrArg Prod.snd hdone⟩
  · rw [hdevice, hprimary] at hrun
    exact ⟨congrArg Prod.fst hrun, congrArg Prod.snd hrun⟩
  · rw [hdevice, hsecondary] at hrun
    have hending : ending = ((searchFor agent m id).run o w).1 := congrArg Prod.fst hrun
    have hafter : after = ((searchFor agent m id).run o w).2 := congrArg Prod.snd hrun
    rw [hending, hafter]
    refine ⟨⟨fun hdone => ?_, ?_⟩, fun hmissing => ?_, fun p n l uuid host h => ?_⟩
    · by_cases hsearchable : ∃ p n l uuid host, w.store.Searchable m p n l uuid host
      · obtain ⟨p, n, l, uuid, host, h⟩ := hsearchable
        obtain ⟨location, told, placeable⟩ := (searchFor_ends hm h agent).2.1 hdone
        exact ⟨p, n, l, uuid, host, location, h, told, placeable⟩
      · obtain ⟨e, hfailed⟩ := run_searchFor_of_missing (o := o) agent id hsearchable
        cases hdone.symm.trans (congrArg Prod.fst hfailed)
    · rintro ⟨p, n, l, uuid, host, location, h, told, placeable⟩
      exact ((searchFor_ends hm h agent).2.2.1 location told placeable).1
    · obtain ⟨e, hfailed⟩ := run_searchFor_of_missing (o := o) agent id hmissing
      exact congrArg Prod.snd hfailed
    · obtain ⟨hsent, _, hfound, hnowhere⟩ := searchFor_ends (o := o) hm h agent
      refine ⟨hsent, fun location told placeable => (hfound location told placeable).2,
        fun output hreply hexit hnothing => hnowhere ⟨output, hreply, hexit, ?_⟩⟩
      exact read_of_saysNothing hnothing

/-- A device that has a record, one that has none, and one that is nowhere. -/
theorem known_new_or_nowhere :
    let p : TargetMount := ⟨⟨5⟩, ⟨4⟩, ⟨1⟩, true, .unconfigured, "/mnt/mgs", some ⟨8⟩⟩
    let m : TargetMount := ⟨⟨6⟩, ⟨4⟩, ⟨2⟩, false, .unconfigured, "/mnt/mgs", none⟩
    let n : LunNode := ⟨⟨8⟩, ⟨⟨1⟩, "/dev/sda", 0, false⟩, some ⟨3⟩⟩
    let known : LunNode := ⟨⟨9⟩, ⟨⟨2⟩, "/dev/sdb", 7, true⟩, none⟩
    let l : Lun := ⟨⟨3⟩, some "u3"⟩
    let host : Host := ⟨⟨2⟩, "oss2", none, none, .up, none, []⟩
    let s := Store.ofInventory
      { hosts := [⟨⟨1⟩, "oss1", none, none, .up, none, []⟩, host], targets := [⟨⟨4⟩, .mgs, none⟩],
        targetMounts := [p, m], lunNodes := [n, known, { known with id := ⟨10⟩ }], luns := [l] }
    let answer : String → String := fun path => "\x7b\"path\": \"" ++ path ++ "\", \"size\": 5\x7d"
    let o : String → Outside Unit := fun stdout =>
      ⟨fun _ _ _ => (.ok ⟨0, stdout, ""⟩, ()), fun _ => (.unset, ())⟩
    let w := World.start s ()
    let run := fun stdout => ((StepKind.findDevice ⟨6⟩).program "agent").run (o stdout) w
    s.targetMounts.find? 6 = some m ∧ s.Searchable m p n l "u3" host ∧
      (∀ path ∈ ["/dev/sdb", "/dev/sdc"],
        (searchCommand (o (answer path)) w "agent" "u3" host).TellsPlace (some ⟨path, 5, false⟩) ∧
        s.Placeable m.host path ∧ (run (answer path)).1 = .done () ∧
        ∃ d, s.Found (run (answer path)).2.store m ⟨path, 5, false⟩ l.id d) ∧
      (run "null").1 = .failed (.failed (.inconsistent (.notLocated ⟨4⟩ host.display "u3"))) ∧
      (run "null").2.store = s := by
  intro p m n known l host s answer o w run
  have hm : s.targetMounts.find? 6 = some m := by decide +kernel
  have primary : s.PrimaryOf ⟨4⟩ p := ⟨by decide +kernel, rfl, rfl, by decide +kernel⟩
  have searchable : s.Searchable m p n l "u3" host :=
    ⟨primary, rfl, by decide +kernel, rfl, by decide +kernel, rfl, by decide +kernel⟩
  have left : s.lunNodes.nextKey < UInt32.size := by decide +kernel
  have hread : ∀ path ∈ ["/dev/sdb", "/dev/sdc"],
      DeviceLocation.read (answer path) = .ok (some ⟨path, 5, false⟩) := by decide +kernel
  have placed (path : String) (hpath : path ∈ ["/dev/sdb", "/dev/sdc"]) :
      (searchCommand (o (answer path)) w "agent" "u3" host).TellsPlace (some ⟨path, 5, false⟩) ∧
        s.Placeable m.host path ∧ (run (answer path)).1 = .done () ∧
        ∃ d, s.Found (run (answer path)).2.store m ⟨path, 5, false⟩ l.id d := by
    have told : (searchCommand (o (answer path)) w "agent" "u3" host).TellsPlace
        (some ⟨path, 5, false⟩) := ⟨_, rfl, rfl, hread path hpath⟩
    obtain ⟨_, _, hsearch⟩ := search_end_to_end (o (answer path)) w "agent" ⟨6⟩ m hm
    obtain ⟨hdone, _, hfound⟩ := hsearch rfl rfl
    exact ⟨told, .inr left, hdone.mpr ⟨p, n, l, "u3", host, _, searchable, told, .inr left⟩,
      (hfound p n l "u3" host searchable).2.1 _ told (.inr left)⟩
  have hnull : SaysNothing "null" := .inr (.inl (by rfl))
  obtain ⟨_, _, hsearch⟩ := search_end_to_end (o "null") w "agent" ⟨6⟩ m hm
  have hnowhere := ((hsearch rfl rfl).2.2 p n l "u3" host searchable).2.2 _ rfl rfl hnull
  exact ⟨hm, searchable, placed, hnowhere⟩

end FleetJobs
