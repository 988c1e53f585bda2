import FleetJobs.Proofs.FanOut
import FleetJobs.Proofs.Hosts
import FleetJobs.Proofs.Tables

/-! Doing a step again.

A step that is declared idempotent may be run a second time on the store that its first
run has left, as long as hosts reply the same to the same command: it ends the same and
changes nothing (`idempotent_steps_repeat`). If the first run has written nothing, the
second meets the same store. Of the steps that write, registration and the recording of a
version write the same record again, and a search does not search again once its mount has
a device. -/
namespace FleetJobs

open FleetJobs.Fleet
open FleetJobs.Gateway

variable {σ : Type} {o : Outside σ} {reply : Host → String → Reply} {w w' v : World σ}

/-- What is replied hangs on the host and the line alone. -/
def Outside.Steady (o : Outside σ) (reply : Host → String → Reply) : Prop :=
  ∀ state host line, (o.send state host line).1 = reply host line

/-- Steady replies do not tell apart worlds with the same store. -/
theorem Outside.Steady.matches (h : o.Steady reply) : o.Matches o fun w v => w.store = v.store where
  store hw := hw
  written _ _ := rfl
  sent {w v} host line hw := ⟨(h w.outside host line).trans (h v.outside host line).symm, hw⟩

namespace Step

open FleetJobs.Program (Yields)
open FleetJobs.Store (Table)

/-- From worlds with the store that was left, the program succeeds and leaves that store. -/
def Repeats (o : Outside σ) (p : StepProgram Unit) (w' : World σ) : Prop :=
  ∀ v, v.store = w'.store → ∃ v', p.Yields o v () v' ∧ v'.store = w'.store

/-! ### Steps that write -/

theorem repeats_findDevice {agent : String} {id : TargetMountId}
    (h : (Step.findDevice agent id).Yields o w () w') : Repeats o (Step.findDevice agent id) w' := by
  have hdevice : ∃ mount, w'.store.targetMounts.find? id.key = some mount ∧
      ∃ device, mount.blockDevice = some device := by
    obtain ⟨mount, hm, ⟨hdevice, rfl⟩ | ⟨_, _, _, _, _, _, _, _, _, _, _, _, _, node, w₂, _, hset⟩⟩ :=
      yields_findDevice.mp h
    · exact ⟨mount, hm, hdevice⟩
    · obtain ⟨s, hs, rfl⟩ := yields_call.mp hset
      obtain ⟨n, m, _, hm, rfl⟩ := Store.setBlockDevice_eq_ok.mp hs
      have hkey : m.id.key = id.key := Table.key_of_find? hm
      exact ⟨_, Table.find?_insert_of_eq _ hkey, node, rfl⟩
  obtain ⟨mount, hm, hdevice⟩ := hdevice
  intro v hv
  exact ⟨v, yields_findDevice.mpr ⟨mount, hv ▸ hm, .inl ⟨hdevice, rfl⟩⟩, hv⟩

theorem repeats_registerTarget (steady : o.Steady reply) {agent : String} {id : TargetMountId}
    (h : (Step.registerTarget agent id).Yields o w () w') :
    Repeats o (Step.registerTarget agent id) w' := by
  obtain ⟨mount, hm, device, hd, node, hn, host, hh, output, w₁, hsend, result, hread, hset⟩ :=
    yields_registerTarget.mp h
  obtain ⟨hreply, hsuccess, rfl⟩ := yields_harmless.mp hsend
  obtain ⟨s, hs, rfl⟩ := yields_call.mp hset
  obtain ⟨t, ht, hstore⟩ := Store.setTargetName_eq_ok.mp hs
  have hkey : t.id.key = mount.target.key := Table.key_of_find? ht
  -- only the target's name has changed, and no lookup of the step goes by names
  intro v hv
  have hv : v.store = s := hv
  rw [← hv] at hstore
  have hagain : v.store.setTargetName mount.target result.label = .ok ((), v.store) := by
    refine Store.setTargetName_eq_ok.mpr ⟨{ t with name := some result.label }, ?_, ?_⟩
    · rw [hstore]
      exact Table.find?_insert_of_eq _ hkey
    · rw [hstore, Table.insert_insert rfl]
  refine ⟨_, yields_registerTarget.mpr ⟨mount, ?_, device, hd, node, ?_, host, ?_, output, _,
    yields_harmless.mpr ⟨?_, hsuccess, rfl⟩, result, hread, yields_call.mpr ⟨v.store, hagain, rfl⟩⟩, hv⟩
  · rw [hstore]
    exact hm
  · rw [hstore]
    exact hn
  · rw [hstore]
    exact hh
  · exact (steady v.outside host _).trans ((steady w.outside host _).symm.trans hreply)

theorem repeats_recordVersion {mgs : TargetId} {version : UInt64}
    (h : (recordVersion mgs version).Yields o w () w') : Repeats o (recordVersion mgs version) w' := by
  obtain ⟨record, hrecord, h⟩ := yields_recordVersion.mp h
  intro v hv
  split at h
  · rename_i hlt
    obtain rfl := h
    exact ⟨v, yields_recordVersion.mpr ⟨record, hv ▸ hrecord, by rw [if_pos hlt]⟩, hv⟩
  · obtain ⟨s, hs, rfl⟩ := yields_call.mp h
    obtain ⟨m, hm, hstore⟩ := Store.setVersionApplied_eq_ok.mp hs
    have hkey : m.target.key = mgs.key := Table.key_of_find? hm
    have hv : v.store = s := hv
    rw [← hv] at hstore
    have hfound : v.store.mgs.find? mgs.key = some { m with versionApplied := version } := by
      rw [hstore]
      exact Table.find?_insert_of_eq _ hkey
    have hagain : v.store.setVersionApplied mgs version = .ok ((), v.store) := by
      refine Store.setVersionApplied_eq_ok.mpr ⟨_, hfound, ?_⟩
      rw [hstore, Table.insert_insert rfl]
    refine ⟨v, yields_recordVersion.mpr ⟨_, hfound, ?_⟩, hv⟩
    -- the version that is recorded now is not above itself, so it is recorded again
    rw [if_neg (UInt64.lt_irrefl version)]
    exact yields_call.mpr ⟨v.store, hagain, rfl⟩

/-! ### Steps that write nothing -/

theorem store_configurePacemaker {agent : String} {id : TargetMountId}
    (h : (Step.configurePacemaker agent id).Yields o w () w') : w'.store = w.store := by
  obtain ⟨_, _, _, _, _, _, _, _, _, _, _, _, _, hsend⟩ := yields_configurePacemaker.mp h
  obtain ⟨_, _, rfl⟩ := yields_harmless.mp hsend
  rfl

theorem store_controlLnet {id : HostId} {action : Command.LnetAction}
    (h : (controlLnet id action).Yields o w () w') : w'.store = w.store := by
  obtain ⟨_, _, _, hsend⟩ := yields_controlLnet.mp h
  obtain ⟨_, _, rfl⟩ := yields_harmless.mp hsend
  rfl

theorem store_requestByLabel {agent : String} {id : TargetId} {request : String → Command.AgentRequest}
    (h : (requestByLabel agent id request).Yields o w () w') : w'.store = w.store := by
  obtain ⟨target, _, label, _, hrun⟩ := yields_requestByLabel.mp h
  have hstore := store_runOnAnyMount o w target ((request label).line agent)
  rwa [show (runOnAnyMount target _).run o w = _ from hrun] at hstore

/-- Of the steps that may be done again, these are all that write. -/
theorem repeats_of_written {k : StepKind} (idempotent : k.isIdempotent = true)
    (steady : o.Steady reply) {agent : String} (h : (k.program agent).Yields o w () w')
    (written : w'.store ≠ w.store) : Repeats o (k.program agent) w' := by
  cases k with
  | null => exact absurd (congrArg World.store (Program.yields_done.mp h).2.symm) written
  | findDevice m => exact repeats_findDevice h
  | mkfs t => cases idempotent
  | mount t => exact absurd (store_requestByLabel h) written
  | unmount t => exact absurd (store_requestByLabel h) written
  | registerTarget m => exact repeats_registerTarget steady h
  | configurePacemaker m => exact absurd (store_configurePacemaker h) written
  | startLnet host | stopLnet host | loadLnet host | unloadLnet host =>
    exact absurd (store_controlLnet h) written
  | confParam p => cases idempotent
  | confParamVersion mgs version => exact repeats_recordVersion h

end Step

open FleetJobs.Step

/-- **A step that is declared idempotent may be done again**: on the store that it has left
it ends the same and changes nothing. -/
theorem idempotent_steps_repeat (s : Step) (agent : String) (o : Outside σ)
    (reply : Host → String → Reply) (idempotent : s.isIdempotent = true) (steady : o.Steady reply)
    (w v : World σ) (left : v.store = ((s.program agent).run o w).2.store) :
    ((s.program agent).run o v).1 = ((s.program agent).run o w).1 ∧
      ((s.program agent).run o v).2.store = ((s.program agent).run o w).2.store := by
  by_cases written : ((s.program agent).run o w).2.store = w.store
  · have again := s.run_matches agent steady.matches (left.trans written)
    exact ⟨again.1, again.2⟩
  · have hdone : ((s.program agent).run o w).1 = .done () := by
      by_contra hne
      exact written (Step.store_of_run_ne_done hne)
    have hyields : (s.kind.program agent).Yields o w () ((s.program agent).run o w).2 :=
      Prod.ext hdone rfl
    obtain ⟨v', hagain, hstore⟩ := repeats_of_written idempotent steady hyields written v left
    have hagain : (s.program agent).run o v = (.done (), v') := hagain
    rw [hagain, hdone]
    exact ⟨rfl, hstore⟩

/-- A target that is registered twice has the same label twice. -/
theorem registered_twice :
    let i : Inventory :=
      { hosts := [⟨⟨1⟩, "oss1", none, none, .up, none, []⟩]
        targets := [⟨⟨4⟩, .mgs, none⟩]
        targetMounts := [⟨⟨6⟩, ⟨4⟩, ⟨1⟩, true, .configured, "/mnt/mgs", some ⟨8⟩⟩]
        lunNodes := [⟨⟨8⟩, ⟨⟨1⟩, "/dev/sdb", 0, false⟩, none⟩] }
    let s : Step := ⟨.registerTarget ⟨6⟩, true⟩
    let reply : Host → String → Reply := fun _ _ => .ok ⟨0, "\x7b\"label\": \"MGS\"\x7d", ""⟩
    let o := (Remote.ofReplies reply).outside
    let w := World.start (Store.ofInventory i) ((), Job.Control.unset)
    let first := (s.program "agent").run o w
    let second := (s.program "agent").run o first.2
    s.isIdempotent = true ∧ o.Steady reply ∧ first.1 = .done () ∧
      first.2.store.targets.records = [⟨⟨4⟩, .mgs, some "MGS"⟩] ∧
      second.1 = .done () ∧ second.2.store = first.2.store := by
  intro i s reply o w first second
  have steady : o.Steady reply := fun _ _ _ => rfl
  have hfirst : first.1 = .done () ∧ first.2.store.targets.records = [⟨⟨4⟩, .mgs, some "MGS"⟩] := by
    decide +kernel
  obtain ⟨hending, hstore⟩ := idempotent_steps_repeat s "agent" o reply rfl steady w first.2 rfl
  exact ⟨rfl, steady, hfirst.1, hfirst.2, hending.trans hfirst.1, hstore⟩

end FleetJobs
