import FleetJobs.Program.Run
import FleetJobs.Proofs.Calls
import FleetJobs.Step.Execute

/-! When steps succeed.

Run alone, a program succeeds exactly if all its parts do, one after another: every record
that it looks up is there, every command exits zero with an answer that can be read, and
every write is carried out. The rules here say so of each part, so that the success of a
step is what its program says, line by line, and nothing else. -/
namespace FleetJobs

open FleetJobs.Fleet
open FleetJobs.Gateway

namespace Program

variable {ε α β σ : Type} {o : Outside σ} {w w' : World σ}

/-- Run alone, the program has a result and leaves the world so. -/
def Yields (o : Outside σ) (p : Program ε α) (w : World σ) (a : α) (w' : World σ) : Prop :=
  p.run o w = (.done a, w')

@[simp] theorem yields_done {a b : α} : (done a : Program ε α).Yields o w b w' ↔ a = b ∧ w = w' := by
  simp [Yields, run]

@[simp] theorem yields_pure {a b : α} : (pure a : Program ε α).Yields o w b w' ↔ a = b ∧ w = w' :=
  yields_done

@[simp] theorem yields_fail {e : ε} {b : α} : ¬ (fail e : Program ε α).Yields o w b w' := by
  simp [Yields, run]

/-- A program followed by another goes on as the other. -/
theorem Yields.run_bind {p : Program ε α} {a : α} (h : p.Yields o w a w') (f : α → Program ε β) :
    (p >>= f).run o w = (f a).run o w' := by
  show (p.bind f).run o w = _
  rw [Program.run_bind, show p.run o w = _ from h]

/-- Or it fails as the first. -/
theorem run_bind_of_failed {p : Program ε α} {e : ε} (h : p.run o w = (.failed e, w'))
    (f : α → Program ε β) : (p >>= f).run o w = (.failed e, w') := by
  show (p.bind f).run o w = _
  rw [Program.run_bind, h]

/-- **A program followed by another succeeds if both do.** -/
@[simp] theorem yields_bind {p : Program ε α} {f : α → Program ε β} {b : β} :
    (p >>= f).Yields o w b w' ↔ ∃ a w₁, p.Yields o w a w₁ ∧ (f a).Yields o w₁ b w' := by
  unfold Yields
  show (p.bind f).run o w = _ ↔ _
  rw [run_bind]
  rcases p.run o w with ⟨a | e | _, w₁⟩
  · constructor
    · exact fun h => ⟨a, w₁, rfl, h⟩
    · rintro ⟨_, _, ⟨⟩, h⟩
      exact h
  · simp
  · simp

@[simp] theorem yields_map {p : Program ε α} {f : α → β} {b : β} :
    (f <$> p).Yields o w b w' ↔ ∃ a, p.Yields o w a w' ∧ f a = b := by
  rw [← bind_pure_comp]
  simp only [yields_bind, yields_pure]
  constructor
  · rintro ⟨a, _, h, hb, rfl⟩
    exact ⟨a, h, hb⟩
  · rintro ⟨a, h, hb⟩
    exact ⟨a, w', h, hb, rfl⟩

end Program

namespace Step

open FleetJobs.Data
open FleetJobs.Program (Yields yields_bind yields_done yields_pure yields_fail)
open FleetJobs.Store (fetch_eq_ok_iff)

variable {α σ : Type} {o : Outside σ} {w w' : World σ}

/-! ### The parts of steps -/

/-- A call that is carried out. -/
theorem yields_call {c : Store.Call} {a : c.Answer} :
    (call c).Yields o w a w' ↔
      ∃ s, w.store.handle c = .ok (a, s) ∧ { w with store := s } = w' := by
  unfold Yields call Program.run
  rcases w.store.handle c with (r | _) | ⟨b, s⟩
  · simp [Program.run]
  · simp
  · simp only [Program.run, Prod.mk.injEq, Ending.done.injEq, Except.ok.injEq]
    constructor
    · exact fun h => ⟨s, ⟨h.1, rfl⟩, h.2⟩
    · rintro ⟨_, ⟨ha, rfl⟩, hw⟩
      exact ⟨ha, hw⟩

theorem yields_command {idempotent : Bool} {host : Host} {line : String} {output : CommandOutput} :
    (command idempotent host line).Yields o w output w' ↔
      (w.send o host line).1 = .ok output ∧ (w.send o host line).2 = w' := by
  unfold Yields command Program.run
  rcases (w.send o host line).1 with e | out
  · simp [Program.run]
  · simp [Program.run]

/-- A command that must exit zero, whatever it is called and however it fails. -/
theorem yields_checked {idempotent : Bool} {host : Host} {line : String} {output : CommandOutput}
    {failure : CommandOutput → Failure} :
    (command idempotent host line >>= fun output =>
      if output.success then pure output else .fail (failure output)).Yields o w output w' ↔
      (w.send o host line).1 = .ok output ∧ output.success = true ∧ (w.send o host line).2 = w' := by
  simp only [yields_bind, yields_command]
  constructor
  · rintro ⟨out, _, ⟨hreply, rfl⟩, h⟩
    split at h
    · rename_i hout
      obtain ⟨rfl, rfl⟩ := yields_pure.mp h
      exact ⟨hreply, hout, rfl⟩
    · exact absurd h yields_fail
  · rintro ⟨hreply, hout, rfl⟩
    refine ⟨output, _, ⟨hreply, rfl⟩, ?_⟩
    rw [if_pos hout]
    exact yields_pure.mpr ⟨rfl, rfl⟩

theorem yields_harmless {action line : String} {host : Host} {output : CommandOutput} :
    (harmless action host line).Yields o w output w' ↔
      (w.send o host line).1 = .ok output ∧ output.success = true ∧ (w.send o host line).2 = w' :=
  yields_checked

theorem yields_risky {action line : String} {host : Host} {output : CommandOutput} :
    (risky action host line).Yields o w output w' ↔
      (w.send o host line).1 = .ok output ∧ output.success = true ∧ (w.send o host line).2 = w' :=
  yields_checked

@[simp] theorem yields_decode {r : Except ReadError α} {a : α} :
    (decode r).Yields o w a w' ↔ r = .ok a ∧ w = w' := by
  cases r with
  | ok b => simp [decode, yields_done]
  | error e => simp [decode, yields_fail]

@[simp] theorem yields_inconsistent {i : Inconsistency} {a : α} :
    ¬ (inconsistent i).Yields o w a w' := yields_fail

@[simp] theorem yields_failClean {r : Reason} {a : α} : ¬ (failClean r).Yields o w a w' := yields_fail

@[simp] theorem yields_primaryAmong {mounts : List TargetMount} {target : TargetId} {m : TargetMount} :
    (primaryAmong mounts target).Yields o w m w' ↔
      mounts.find? TargetMount.primary = some m ∧ w = w' := by
  unfold primaryAmong
  cases mounts.find? TargetMount.primary with
  | none => simp
  | some m' => simp [yields_done]

/-! ### Lookups

The type of an answer hangs on the call, so the simplifier is kept from going by it. -/

section Lookups

theorem yields_reading {c : Store.Call} {x : Except Store.Stop c.Answer}
    (hc : w.store.handle c = w.store.reading x) {a : c.Answer} :
    (call c).Yields o w a w' ↔ x = .ok a ∧ w = w' := by
  rw [yields_call, hc]
  cases x with
  | error e => simp [Store.reading, Except.map]
  | ok b =>
    simp only [Store.reading, Except.map, Except.ok.injEq, Prod.mk.injEq]
    constructor
    · rintro ⟨_, ⟨hb, rfl⟩, hw⟩
      exact ⟨hb, hw⟩
    · exact fun h => ⟨_, ⟨h.1, rfl⟩, h.2⟩

@[simp] theorem yields_host {id : HostId} {h : Host} :
    @Yields Failure (no_index _) σ o (call (.host id)) w h w' ↔
      w.store.hosts.find? id.key = some h ∧ w = w' := by
  rw [yields_reading rfl, fetch_eq_ok_iff]

@[simp] theorem yields_target {id : TargetId} {t : Target} :
    @Yields Failure (no_index _) σ o (call (.target id)) w t w' ↔
      w.store.targets.find? id.key = some t ∧ w = w' := by
  rw [yields_reading rfl, fetch_eq_ok_iff]

@[simp] theorem yields_targetMount {id : TargetMountId} {m : TargetMount} :
    @Yields Failure (no_index _) σ o (call (.targetMount id)) w m w' ↔
      w.store.targetMounts.find? id.key = some m ∧ w = w' := by
  rw [yields_reading rfl, fetch_eq_ok_iff]

@[simp] theorem yields_targetMounts {target : TargetId} {ms : List TargetMount} :
    @Yields Failure (no_index _) σ o (call (.targetMounts target)) w ms w' ↔
      (w.store.targetMounts.filter fun m => m.target == target) = ms ∧ w = w' := by
  rw [yields_reading rfl, Except.ok.injEq]

@[simp] theorem yields_lunNode {id : LunNodeId} {n : LunNode} :
    @Yields Failure (no_index _) σ o (call (.lunNode id)) w n w' ↔
      w.store.lunNodes.find? id.key = some n ∧ w = w' := by
  rw [yields_reading rfl, fetch_eq_ok_iff]

@[simp] theorem yields_findLunNode {host : HostId} {path : String} {n : Option LunNode} :
    @Yields Failure (no_index _) σ o (call (.findLunNode host path)) w n w' ↔
      w.store.lunNodes.records.find? (Store.isDevice host path) = n ∧ w = w' := by
  rw [yields_reading rfl, Except.ok.injEq]

@[simp] theorem yields_lun {id : LunId} {l : Lun} :
    @Yields Failure (no_index _) σ o (call (.lun id)) w l w' ↔
      w.store.luns.find? id.key = some l ∧ w = w' := by
  rw [yields_reading rfl, fetch_eq_ok_iff]

@[simp] theorem yields_filesystem {id : FilesystemId} {f : Filesystem} :
    @Yields Failure (no_index _) σ o (call (.filesystem id)) w f w' ↔
      w.store.filesystems.find? id.key = some f ∧ w = w' := by
  rw [yields_reading rfl, fetch_eq_ok_iff]

@[simp] theorem yields_mgs {target : TargetId} {m : Mgs} :
    @Yields Failure (no_index _) σ o (call (.mgs target)) w m w' ↔
      w.store.mgs.find? target.key = some m ∧ w = w' := by
  rw [yields_reading rfl, fetch_eq_ok_iff]

@[simp] theorem yields_confParam {id : ConfParamId} {p : ConfParam} :
    @Yields Failure (no_index _) σ o (call (.confParam id)) w p w' ↔
      w.store.confParams.find? id.key = some p ∧ w = w' := by
  rw [yields_reading rfl, fetch_eq_ok_iff]

end Lookups

/-! ### Registration -/

section Registration

open FleetJobs.Command (AgentRequest RegisterResult)

theorem yields_registerTarget {agent : String} {id : TargetMountId} :
    (Step.registerTarget agent id).Yields o w () w' ↔
      ∃ mount, w.store.targetMounts.find? id.key = some mount ∧
      ∃ device, mount.blockDevice = some device ∧
      ∃ node, w.store.lunNodes.find? device.key = some node ∧
      ∃ host, w.store.hosts.find? mount.host.key = some host ∧
      ∃ output w₁, (harmless "register-target" host
        ((AgentRequest.registerTarget node.device.path mount.mountPoint).line agent)).Yields
          o w output w₁ ∧
      ∃ result, Json.read RegisterResult.reader output.stdout = .ok result ∧
      (call (.setTargetName mount.target result.label)).Yields o w₁ () w' := by
  simp only [Step.registerTarget, yields_bind, yields_targetMount, and_assoc, exists_and_left,
    exists_eq_left']
  refine exists_congr fun mount => and_congr_right fun _ => ?_
  cases mount.blockDevice with
  | none => simp
  | some device => simp [and_assoc]

theorem yields_configurePacemaker {agent : String} {id : TargetMountId} :
    (Step.configurePacemaker agent id).Yields o w () w' ↔
      ∃ mount, w.store.targetMounts.find? id.key = some mount ∧
      ∃ target, w.store.targets.find? mount.target.key = some target ∧
      ∃ device, mount.blockDevice = some device ∧
      ∃ label, target.name = some label ∧
      ∃ node, w.store.lunNodes.find? device.key = some node ∧
      ∃ host, w.store.hosts.find? mount.host.key = some host ∧
      ∃ output, (harmless "configure-ha" host ((AgentRequest.configureHa node.device.path label
        mount.primary mount.mountPoint).line agent)).Yields o w output w' := by
  simp only [Step.configurePacemaker, bind_pure_comp, yields_bind, yields_targetMount, yields_target,
    and_assoc, exists_and_left, exists_eq_left']
  refine exists_congr fun mount => and_congr_right fun _ => ?_
  refine exists_congr fun target => and_congr_right fun _ => ?_
  cases mount.blockDevice with
  | none => simp
  | some device =>
    cases target.name with
    | none => simp
    | some label => simp [and_assoc]

end Registration

/-! ### Commands for hosts and targets -/

theorem yields_controlLnet {id : HostId} {action : Command.LnetAction} :
    (controlLnet id action).Yields o w () w' ↔
      ∃ host, w.store.hosts.find? id.key = some host ∧
      ∃ output, (harmless s!"'{action.line}'" host action.line).Yields o w output w' := by
  simp [controlLnet, and_assoc]

theorem yields_requestByLabel {agent : String} {id : TargetId}
    {request : String → Command.AgentRequest} :
    (requestByLabel agent id request).Yields o w () w' ↔
      ∃ target, w.store.targets.find? id.key = some target ∧
      ∃ label, target.name = some label ∧
      (runOnAnyMount target ((request label).line agent)).Yields o w () w' := by
  simp only [requestByLabel, yields_bind, yields_target, and_assoc, exists_and_left, exists_eq_left']
  refine exists_congr fun target => and_congr_right fun _ => ?_
  cases target.name with
  | none => simp
  | some label => simp

/-! ### Tuning -/

theorem yields_recordVersion {mgs : TargetId} {version : UInt64} :
    (recordVersion mgs version).Yields o w () w' ↔
      ∃ record, w.store.mgs.find? mgs.key = some record ∧
      if version < record.versionApplied then w = w'
      else (call (.setVersionApplied mgs version)).Yields o w () w' := by
  simp only [recordVersion, yields_bind, yields_mgs, and_assoc, exists_and_left, exists_eq_left']
  refine exists_congr fun record => and_congr_right fun _ => ?_
  split
  · simp
  · rfl

/-! ### Discovery -/

section Discovery

open FleetJobs.Command (AgentRequest DeviceLocation)

/-- The volume is the one behind the device of the target's first primary mount. -/
def VolumeBehind (s : Store) (target : TargetId) (lun : Lun) : Prop :=
  ∃ primary, (s.targetMounts.filter fun m => m.target == target).find?
    TargetMount.primary = some primary ∧
  ∃ device, primary.blockDevice = some device ∧
  ∃ node, s.lunNodes.find? device.key = some node ∧
  ∃ id, node.lun = some id ∧ s.luns.find? id.key = some lun

@[simp] theorem yields_volumeOf {target : TargetId} {lun : Lun} :
    (volumeOf target).Yields o w lun w' ↔ VolumeBehind w.store target lun ∧ w = w' := by
  simp only [volumeOf, VolumeBehind, yields_bind, yields_targetMounts, yields_primaryAmong, and_assoc,
    exists_and_left, exists_eq_left', ← exists_and_right]
  refine exists_congr fun primary => and_congr_right fun _ => ?_
  cases primary.blockDevice with
  | none => simp
  | some device =>
    simp only [yields_bind, yields_lunNode, and_assoc, exists_and_left, exists_eq_left',
      Option.some.injEq]
    refine exists_congr fun node => and_congr_right fun _ => ?_
    cases node.lun with
    | none => simp
    | some id => simp

theorem yields_recordDevice {host : Host} {location : DeviceLocation} {lun : Lun} {id : LunNodeId} :
    (recordDevice host location lun).Yields o w id w' ↔
      (∃ node, w.store.lunNodes.records.find? (Store.isDevice host.id location.path) = some node ∧
        (call (.attachLun node.id lun.id)).Yields o w () w' ∧ node.id = id) ∨
      w.store.lunNodes.records.find? (Store.isDevice host.id location.path) = none ∧
        ∃ node, (call (.createLunNode ⟨host.id, location.path, location.size, location.used⟩
          lun.id)).Yields o w node w' ∧ node.id = id := by
  simp only [recordDevice, yields_bind, yields_findLunNode, and_assoc, exists_and_left, exists_eq_left']
  cases w.store.lunNodes.records.find? (Store.isDevice host.id location.path) with
  | none => simp
  | some node =>
    simp only [yields_bind, yields_pure, Option.some.injEq, exists_eq_left', reduceCtorEq, false_and,
      or_false]
    constructor
    · rintro ⟨_, _, hattach, hid, rfl⟩
      exact ⟨hattach, hid⟩
    · exact fun h => ⟨(), w', h.1, h.2, rfl⟩

theorem yields_findDevice {agent : String} {id : TargetMountId} :
    (Step.findDevice agent id).Yields o w () w' ↔
      ∃ mount, w.store.targetMounts.find? id.key = some mount ∧
      ((∃ device, mount.blockDevice = some device) ∧ w = w' ∨
        mount.blockDevice = none ∧ mount.primary = false ∧
        ∃ lun, VolumeBehind w.store mount.target lun ∧
        ∃ uuid, lun.fsUuid = some uuid ∧
        ∃ host, w.store.hosts.find? mount.host.key = some host ∧
        ∃ output w₁, (harmless "locate-device" host
          ((AgentRequest.locateDevice uuid).line agent)).Yields o w output w₁ ∧
        ∃ location, DeviceLocation.read output.stdout = .ok (some location) ∧
        ∃ node w₂, (recordDevice host location lun).Yields o w₁ node w₂ ∧
        (call (.setBlockDevice id node)).Yields o w₂ () w') := by
  simp only [Step.findDevice, yields_bind, yields_targetMount, and_assoc, exists_and_left,
    exists_eq_left']
  refine exists_congr fun mount => and_congr_right fun _ => ?_
  rcases mount.blockDevice with _ | device
  · cases mount.primary with
    | true => simp
    | false =>
      simp only [yields_bind, yields_volumeOf, and_assoc, exists_and_left, exists_eq_left', true_and,
        reduceCtorEq, false_and, exists_false, false_or]
      refine exists_congr fun lun => and_congr_right fun _ => ?_
      cases lun.fsUuid with
      | none => simp
      | some uuid =>
        simp only [yields_bind, yields_host, yields_decode, and_assoc, exists_and_left,
          exists_eq_left', Option.some.injEq]
        refine exists_congr fun host => and_congr_right fun _ => ?_
        refine exists_congr fun output => exists_congr fun w₁ => and_congr_right fun _ => ?_
        constructor
        · rintro ⟨_ | location, hread, h⟩
          · exact absurd h yields_inconsistent
          · exact ⟨location, hread, yields_bind.mp h⟩
        · rintro ⟨location, hread, h⟩
          exact ⟨some location, hread, yields_bind.mpr h⟩
  · simp

end Discovery

/-! ### Formatting -/

section Formatting

open FleetJobs.Command (FormatResult)

theorem yields_recordUuid {node : LunNode} {uuid : String} :
    (recordUuid node uuid).Yields o w () w' ↔
      (∃ lun, node.lun = some lun ∧ (call (.setLunUuid lun uuid)).Yields o w () w') ∨
      node.lun = none ∧ ∃ lun w₁, (call (.createLun uuid)).Yields o w lun w₁ ∧
        (call (.attachLun node.id lun.id)).Yields o w₁ () w' := by
  unfold recordUuid
  cases node.lun with
  | none => simp
  | some lun => simp

theorem yields_formatTarget {agent : String} {id : TargetId} :
    (formatTarget agent id).Yields o w () w' ↔
      ∃ target, w.store.targets.find? id.key = some target ∧
      ∃ primary, (w.store.targetMounts.filter fun m => m.target == id).find?
        TargetMount.primary = some primary ∧
      ∃ device, primary.blockDevice = some device ∧
      ∃ node, w.store.lunNodes.find? device.key = some node ∧
      ∃ host, w.store.hosts.find? primary.host.key = some host ∧
      ∃ args w₁, (formatArgs target (w.store.targetMounts.filter fun m => m.target == id)
        node).Yields o w args w₁ ∧
      ∃ output w₂, (risky "format-target" host (args.request.line agent)).Yields o w₁ output w₂ ∧
      ∃ result, Json.read FormatResult.reader output.stdout = .ok result ∧
      (recordUuid node result.uuid).Yields o w₂ () w' := by
  simp only [formatTarget, yields_bind, yields_target, yields_targetMounts, yields_primaryAmong,
    and_assoc, exists_and_left, exists_eq_left']
  refine exists_congr fun target => and_congr_right fun _ => ?_
  refine exists_congr fun primary => and_congr_right fun _ => ?_
  cases primary.blockDevice with
  | none => simp
  | some device => simp [and_assoc]

end Formatting

end Step

end FleetJobs
