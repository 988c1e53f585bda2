import FleetJobs.Proofs.ClosedStores
import FleetJobs.Proofs.Turns
import FleetJobs.Step.Execute

/-! Jobs on closed stores.

On a closed store a step finds every record that it looks for, given that those its own
arguments name are there: it goes from record to record by what these name, and what a
record names stays there while others use the store. So all calls of a step are sound
(`safe_program`), whatever other steps do meanwhile, if these make sound calls too; and
`closed_stores_stay_closed` says this of jobs that take turns. -/
namespace FleetJobs

/-- Whether the event is a call that was told of a record that it is missing. -/
def Event.isMissing : Event → Bool
  | refused _ r => r.isMissing
  | _ => false

namespace Step

open FleetJobs.Fleet

variable {α β : Type}

/-- Stores change as by sound calls, and no call is told that a record is missing. -/
def soundTerms : Terms where
  others := Store.Evolves
  allows _ e s s' := s.Evolves s' ∧ e.isMissing = false
  refl := .refl
  trans := .trans
  tolerated h := h.1

/-- From a closed store on, the program misses no record, and what it ends with is as `K`
says. -/
def Safe (s : Store) (K : α → Store → Prop) (p : StepProgram α) : Prop :=
  s.Closed → Abides soundTerms (fun r => r.isMissing = false) K s p

namespace Safe

variable {s : Store} {K : α → Store → Prop} {L : β → Store → Prop}

theorem done {a : α} (ha : K a s) : Safe s K (.done a) := fun _ => .done ha

theorem inconsistent {i : Inconsistency} : Safe s K (inconsistent i) := fun _ => .inconsistent

theorem failClean {r : Reason} : Safe s K (failClean r) := fun _ => .failClean

theorem harmless (action : String) (host : Host) (line : String) :
    Safe s anything (harmless action host line) := fun _ => .harmless action host line

theorem risky (action : String) (host : Host) (line : String) :
    Safe s anything (risky action host line) := fun _ => .risky action host line

theorem decode {r : Except Data.ReadError α} : Safe s anything (decode r) := fun _ => .decode

theorem primaryAmong (mounts : List TargetMount) (target : TargetId) :
    Safe s (fun m _ => m ∈ mounts) (primaryAmong mounts target) := fun _ => .primaryAmong mounts target

theorem bind {p : StepProgram α} (hp : Safe s K p) {f : α → StepProgram β}
    (hf : ∀ a s', s.Evolves s' → K a s' → Safe s' L (f a)) : Safe s L (p >>= f) :=
  fun hc => (hp hc).bind fun a s' hs ha => hf a s' hs ha (hs.closed hc)

theorem weaken {p : StepProgram α} (hp : Safe s K p) {K' : α → Store → Prop}
    (hK : ∀ a s', K a s' → K' a s') : Safe s K' p := fun hc => (hp hc).weaken hK

end Safe

/-! ### Calls -/

section Calls

variable {s : Store}

/-- A sound call, and how its answer came about. -/
theorem safe_call (c : Store.Call) (sound : c.Sound s) :
    Safe s (fun a s' => ∃ s₀ : Store, s₀.Closed ∧ s₀.handle c = .ok (a, s')) (call c) := by
  refine fun hc => Abides.call (fun h s' a s'' hs hok => ⟨⟨?_, rfl⟩, s', hs.closed hc, hok⟩)
    (fun h s' r hs hr => ?_) fun h s' hs _ => ⟨.refl s', rfl⟩
  · exact Store.evolves_handle (sound.evolves hs) hok
  · have hmissing := (sound.evolves hs).not_missing hr
    exact ⟨⟨.refl s', hmissing⟩, hmissing⟩

/-- A call whose answer is not gone into. -/
theorem safe_order (c : Store.Call) (sound : c.Sound s) : Safe s anything (call c) :=
  (safe_call c sound).weaken fun _ _ _ => trivial

theorem safe_host {id : HostId} (h : s.hosts.contains id.key = true) :
    Safe s (fun host _ => host.id = id) (call (.host id)) := by
  refine (safe_call (.host id) h).weaken fun host s' ⟨s₀, _, hok⟩ => ?_
  have hkey : host.id.key = id.key := Store.Table.key_of_find? (Store.find?_of_reading hok).1
  exact Id.key_injective hkey

theorem safe_target {id : TargetId} (h : s.targets.contains id.key = true) :
    Safe s (fun t s' => s'.filesystems.Has t.kind.filesystem?) (call (.target id)) := by
  refine (safe_call (.target id) h).weaken fun t s' ⟨s₀, hclosed, hok⟩ => ?_
  obtain ⟨ht, rfl⟩ := Store.find?_of_reading hok
  exact hclosed.targets t (Store.Table.mem_of_find? ht)

theorem safe_targetMount {id : TargetMountId} (h : s.targetMounts.contains id.key = true) :
    Safe s (fun m s' => s'.FoundsMount m ∧ s'.MountOn id m.host) (call (.targetMount id)) := by
  refine (safe_call (.targetMount id) h).weaken fun m s' ⟨s₀, hclosed, hok⟩ => ?_
  obtain ⟨hm, rfl⟩ := Store.find?_of_reading hok
  exact ⟨hclosed.mounts m (Store.Table.mem_of_find? hm), m, hm, rfl⟩

theorem safe_targetMounts (target : TargetId) :
    Safe s (fun ms s' => ∀ m ∈ ms, s'.FoundsMount m) (call (.targetMounts target)) := by
  refine (safe_call (.targetMounts target) trivial).weaken fun ms s' ⟨s₀, hclosed, hok⟩ => ?_
  cases hok
  exact fun m hm => hclosed.mounts m ((List.mem_filter.mp hm).1)

theorem safe_lunNode {id : LunNodeId} (h : s.lunNodes.contains id.key = true) :
    Safe s (fun n s' => s'.FoundsNode n ∧ s'.lunNodes.contains n.id.key = true) (call (.lunNode id)) := by
  refine (safe_call (.lunNode id) h).weaken fun n s' ⟨s₀, hclosed, hok⟩ => ?_
  have hcontains := Store.contains_of_lunNode hok
  obtain ⟨hn, rfl⟩ := Store.find?_of_reading hok
  exact ⟨hclosed.nodes n (Store.Table.mem_of_find? hn), hcontains⟩

theorem safe_findLunNode (host : HostId) (path : String) :
    Safe s (fun n s' => ∀ m ∈ n, s'.NodeOn m.id host) (call (.findLunNode host path)) := by
  refine (safe_call (.findLunNode host path) trivial).weaken fun n s' ⟨s₀, _, hok⟩ m hm => ?_
  cases hok
  have hdevice := List.find?_some hm
  simp only [Store.isDevice, Bool.and_eq_true, beq_iff_eq] at hdevice
  exact ⟨m, Store.Table.find?_of_mem (List.mem_of_find?_eq_some hm), hdevice.1⟩

theorem safe_lun {id : LunId} (h : s.luns.contains id.key = true) :
    Safe s (fun l s' => s'.luns.contains l.id.key = true) (call (.lun id)) :=
  (safe_call (.lun id) h).weaken fun _ _ ⟨_, _, hok⟩ => Store.contains_of_lun hok

theorem safe_confParam {id : ConfParamId} (h : s.confParams.contains id.key = true) :
    Safe s (fun p s' => s'.FoundsScope p.scope) (call (.confParam id)) := by
  refine (safe_call (.confParam id) h).weaken fun p s' ⟨s₀, hclosed, hok⟩ => ?_
  obtain ⟨hp, rfl⟩ := Store.find?_of_reading hok
  exact hclosed.params p (Store.Table.mem_of_find? hp)

theorem safe_createLunNode {device : Device} {lun : LunId}
    (hh : s.hosts.contains device.host.key = true) (hl : s.luns.contains lun.key = true) :
    Safe s (fun n s' => s'.NodeOn n.id device.host) (call (.createLunNode device lun)) := by
  refine (safe_call (.createLunNode device lun) ⟨hh, hl⟩).weaken fun n s' ⟨s₀, _, hok⟩ => ?_
  obtain ⟨_, _, hdevice, _, rfl⟩ := Store.createLunNode_eq_ok hok
  exact ⟨n, Store.Table.find?_insert_of_eq _ rfl, congrArg Device.host hdevice⟩

theorem safe_createLun (uuid : String) :
    Safe s (fun l s' => s'.luns.contains l.id.key = true) (call (.createLun uuid)) :=
  (safe_call (.createLun uuid) trivial).weaken fun _ _ ⟨_, _, hok⟩ => Store.contains_of_createLun hok

end Calls

/-! ### Lookups that several steps share -/

section Lookups

variable {s : Store} {mounts : List TargetMount}

theorem safe_nidsOf (h : ∀ m ∈ mounts, s.FoundsMount m) : Safe s anything (nidsOf mounts) := by
  induction mounts generalizing s with
  | nil => exact .done trivial
  | cons m rest ih =>
    obtain ⟨hm, hrest⟩ := List.forall_mem_cons.mp h
    refine (safe_host hm.host).bind fun host s' hs _ => ?_
    exact (ih fun m hm => (hrest m hm).grows hs.grows).bind fun _ _ _ _ => .done trivial

theorem safe_pairUp (h : ∀ m ∈ mounts, s.FoundsMount m) : Safe s anything (pairUp mounts) := by
  induction mounts generalizing s with
  | nil => exact .done trivial
  | cons m rest ih =>
    obtain ⟨hm, hrest⟩ := List.forall_mem_cons.mp h
    refine (safe_host hm.host).bind fun host s' hs _ => ?_
    exact (ih fun m hm => (hrest m hm).grows hs.grows).bind fun _ _ _ _ => .done trivial

/-- The primary mount of some mounts, and what it names. -/
theorem safe_primaryAmong (h : ∀ m ∈ mounts, s.FoundsMount m) (target : TargetId) :
    Safe s (fun m s' => s'.FoundsMount m) (primaryAmong mounts target) := by
  unfold primaryAmong
  split
  · rename_i m hm
    exact .done (h m (List.mem_of_find?_eq_some hm))
  · exact .inconsistent

theorem safe_primaryServer (target : TargetId) : Safe s anything (primaryServer target) :=
  (safe_targetMounts target).bind fun _ _ _ hmounts =>
    (safe_primaryAmong hmounts target).bind fun _ _ _ hprimary =>
      (safe_host hprimary.host).weaken fun _ _ _ => trivial

theorem safe_managementNids (mgs : TargetId) : Safe s anything (managementNids mgs) := by
  refine (safe_targetMounts mgs).bind fun mounts s' _ hmounts => safe_nidsOf fun m hm => hmounts m ?_
  rcases List.mem_append.mp hm with hm | hm
  · exact (List.mem_filter.mp hm).1
  · exact (List.mem_filter.mp hm).1

/-- From the target over its primary mount and the device to the volume. -/
theorem safe_volumeOf (target : TargetId) :
    Safe s (fun l s' => s'.luns.contains l.id.key = true) (volumeOf target) := by
  refine (safe_targetMounts target).bind fun mounts _ _ hmounts => ?_
  refine (safe_primaryAmong hmounts target).bind fun primary _ _ hprimary => ?_
  split
  · exact .inconsistent
  · rename_i device hdevice
    refine (safe_lunNode (hprimary.device device hdevice)).bind fun node _ _ hnode => ?_
    split
    · exact .inconsistent
    · rename_i lun hlun
      exact safe_lun (hnode.1.volume lun hlun)

end Lookups

/-! ### Steps -/

section Steps

variable {s : Store} (agent : String)

theorem safe_controlLnet {id : HostId} (h : s.hosts.contains id.key = true)
    (action : Command.LnetAction) : Safe s anything (controlLnet id action) :=
  (safe_host h).bind fun _ _ _ _ => (Safe.harmless _ _ _).bind fun _ _ _ _ => .done trivial

theorem safe_requestByLabel {id : TargetId} (h : s.targets.contains id.key = true)
    (request : String → Command.AgentRequest) : Safe s anything (requestByLabel agent id request) := by
  refine (safe_target h).bind fun target _ _ _ => ?_
  split
  · exact .failClean
  · refine (safe_targetMounts _).bind fun mounts _ _ hmounts => ?_
    refine (safe_pairUp hmounts).bind fun pairs _ _ _ => ?_
    refine Safe.bind (K := anything) (fun _ => .tryEach _ _) fun succeeded _ _ _ => ?_
    split
    · exact .done trivial
    · exact .failClean

theorem safe_registerTarget {id : TargetMountId} (h : s.targetMounts.contains id.key = true) :
    Safe s anything (registerTarget agent id) := by
  refine (safe_targetMount h).bind fun mount s₁ _ ⟨hmount, _⟩ => ?_
  split
  · exact .failClean
  · rename_i device hdevice
    refine (safe_lunNode (hmount.device device hdevice)).bind fun node s₂ h₂ _ => ?_
    have hmount := hmount.grows h₂.grows
    refine (safe_host hmount.host).bind fun host s₃ h₃ _ => ?_
    refine (Safe.harmless _ _ _).bind fun output s₄ h₄ _ => ?_
    refine Safe.decode.bind fun result s₅ h₅ _ => ?_
    have hmount := hmount.grows (h₃.trans (h₄.trans h₅)).grows
    exact safe_order (.setTargetName _ _) hmount.target

theorem safe_configurePacemaker {id : TargetMountId} (h : s.targetMounts.contains id.key = true) :
    Safe s anything (configurePacemaker agent id) := by
  refine (safe_targetMount h).bind fun mount s₁ _ ⟨hmount, _⟩ => ?_
  refine (safe_target hmount.target).bind fun target s₂ h₂ _ => ?_
  have hmount := hmount.grows h₂.grows
  split
  · exact .failClean
  · exact .failClean
  · rename_i device label hdevice hlabel
    refine (safe_lunNode (hmount.device device hdevice)).bind fun node s₃ h₃ _ => ?_
    have hmount := hmount.grows h₃.grows
    exact (safe_host hmount.host).bind fun _ _ _ _ =>
      (Safe.harmless _ _ _).bind fun _ _ _ _ => .done trivial

theorem safe_fullKey {p : ConfParam} (h : s.FoundsScope p.scope) : Safe s anything (fullKey p) := by
  unfold fullKey
  split
  · rename_i id hscope
    rw [hscope] at h
    exact (safe_order (.filesystem id) h).bind fun _ _ _ _ => .done trivial
  · rename_i id hscope
    rw [hscope] at h
    refine (safe_target h).bind fun target _ _ _ => ?_
    split
    · exact .done trivial
    · exact .inconsistent

theorem safe_applyConfParam {id : ConfParamId} (h : s.confParams.contains id.key = true) :
    Safe s anything (applyConfParam id) :=
  (safe_confParam h).bind fun p _ _ hp => (safe_fullKey hp).bind fun _ _ _ _ =>
    (safe_primaryServer p.mgs).bind fun _ _ _ _ => (Safe.risky _ _ _).bind fun _ _ _ _ => .done trivial

theorem safe_recordVersion {mgs : TargetId} (h : s.mgs.contains mgs.key = true) (version : UInt64) :
    Safe s anything (recordVersion mgs version) := by
  refine (safe_order (.mgs mgs) h).bind fun record s' hs _ => ?_
  split
  · exact .done trivial
  · exact safe_order (.setVersionApplied mgs version) (hs.grows.mgs _ h)

theorem safe_formatArgs {target : Target} (ht : s.filesystems.Has target.kind.filesystem?)
    {mounts : List TargetMount} (hm : ∀ m ∈ mounts, s.FoundsMount m) (device : LunNode) :
    Safe s anything (formatArgs target mounts device) := by
  have hothers : ∀ m ∈ mounts.filter fun m => !m.primary, s.FoundsMount m :=
    fun m h => hm m (List.mem_filter.mp h).1
  unfold formatArgs
  dsimp only
  split
  · exact (safe_nidsOf hothers).bind fun _ _ _ _ => .done trivial
  · rename_i id hid
    refine (safe_order (.filesystem id) (ht id hid)).bind fun fs s₁ h₁ _ => ?_
    refine (safe_managementNids fs.mgs).bind fun nids s₂ h₂ _ => ?_
    have hothers := fun m h => (hothers m h).grows (h₁.trans h₂).grows
    exact (safe_nidsOf hothers).bind fun _ _ _ _ => .done trivial

theorem safe_recordUuid {node : LunNode} (hn : s.FoundsNode node)
    (hself : s.lunNodes.contains node.id.key = true) (uuid : String) :
    Safe s anything (recordUuid node uuid) := by
  unfold recordUuid
  split
  · rename_i lun hlun
    exact safe_order (.setLunUuid lun uuid) (hn.volume lun hlun)
  · refine (safe_createLun uuid).bind fun lun s' hs hl => ?_
    exact safe_order (.attachLun node.id lun.id) ⟨hl, hs.grows.lunNodes _ hself⟩

theorem safe_formatTarget {id : TargetId} (h : s.targets.contains id.key = true) :
    Safe s anything (formatTarget agent id) := by
  refine (safe_target h).bind fun target s₁ _ ht => ?_
  refine (safe_targetMounts id).bind fun mounts s₂ h₂ hmounts => ?_
  refine (safe_primaryAmong hmounts id).bind fun primary s₃ h₃ hprimary => ?_
  dsimp only
  split
  · rename_i device hdevice
    refine (safe_lunNode (hprimary.device device hdevice)).bind fun node s₄ h₄ ⟨hnode, hself⟩ => ?_
    have hprimary := hprimary.grows h₄.grows
    refine (safe_host hprimary.host).bind fun host s₅ h₅ _ => ?_
    have hmounts := fun m hm => (hmounts m hm).grows (h₃.trans (h₄.trans h₅)).grows
    have ht : s₅.filesystems.Has target.kind.filesystem? := by
      rw [(h₂.trans (h₃.trans (h₄.trans h₅))).grows.filesystems]
      exact ht
    refine (safe_formatArgs ht hmounts node).bind fun args s₆ h₆ _ => ?_
    refine (Safe.risky _ _ _).bind fun output s₇ h₇ _ => ?_
    refine Safe.decode.bind fun result s₈ h₈ _ => ?_
    have hs := (h₅.trans (h₆.trans (h₇.trans h₈))).grows
    exact safe_recordUuid (hnode.grows hs) (hs.lunNodes _ hself) result.uuid
  · exact .inconsistent

/-- The device that is recorded is on the host on which it was located. -/
theorem safe_recordDevice {host : Host} (hh : s.hosts.contains host.id.key = true)
    (location : Command.DeviceLocation) {lun : Lun} (hl : s.luns.contains lun.id.key = true) :
    Safe s (fun node s' => s'.NodeOn node host.id) (recordDevice host location lun) := by
  refine (safe_findLunNode host.id location.path).bind fun known s₁ h₁ hknown => ?_
  split
  · rename_i node
    have hnode := hknown node rfl
    have hself : s₁.lunNodes.contains node.id.key = true := by
      obtain ⟨n, hn, _⟩ := hnode
      exact Store.Table.contains_of_find? hn
    refine (safe_order (.attachLun node.id lun.id) ⟨h₁.grows.luns _ hl, hself⟩).bind
      fun _ s₂ h₂ _ => .done (hnode.keeps h₂.nodes)
  · have hh : s₁.hosts.contains host.id.key = true := by
      rw [h₁.grows.hosts]
      exact hh
    exact (safe_createLunNode hh (h₁.grows.luns _ hl)).bind fun node _ _ hnode => .done hnode

theorem safe_findDevice {id : TargetMountId} (h : s.targetMounts.contains id.key = true) :
    Safe s anything (findDevice agent id) := by
  refine (safe_targetMount h).bind fun mount s₁ _ ⟨hmount, hplace⟩ => ?_
  split
  · exact .inconsistent
  · exact .done trivial
  · refine (safe_volumeOf mount.target).bind fun lun s₂ h₂ hlun => ?_
    split
    · exact .inconsistent
    · have hmount := hmount.grows h₂.grows
      refine (safe_host hmount.host).bind fun host s₃ h₃ hid => ?_
      refine (Safe.harmless _ _ _).bind fun output s₄ h₄ _ => ?_
      refine Safe.decode.bind fun location s₅ h₅ _ => ?_
      split
      · exact .inconsistent
      · have hs := h₃.trans (h₄.trans h₅)
        have hh := (hmount.grows hs.grows).host
        rw [← hid] at hh
        refine (safe_recordDevice hh _ (hs.grows.luns _ hlun)).bind fun node s₆ h₆ hnode => ?_
        -- the mount has stayed where it was, and the device is on that host
        have hplace := hplace.evolves (h₂.trans (hs.trans h₆))
        exact safe_order (.setBlockDevice id node) ⟨mount.host, hplace, hid ▸ hnode⟩

/-- The records that the step's own arguments name are there. -/
def StepKind.Named (s : Store) : StepKind → Prop
  | null => True
  | findDevice m | registerTarget m | configurePacemaker m => s.targetMounts.contains m.key = true
  | mkfs t | mount t | unmount t => s.targets.contains t.key = true
  | startLnet h | stopLnet h | loadLnet h | unloadLnet h => s.hosts.contains h.key = true
  | confParam p => s.confParams.contains p.key = true
  | confParamVersion m _ => s.mgs.contains m.key = true

instance (s : Store) (k : StepKind) : Decidable (k.Named s) :=
  match k with
  | .null => .isTrue trivial
  | .findDevice m | .registerTarget m | .configurePacemaker m =>
    inferInstanceAs (Decidable (s.targetMounts.contains m.key = true))
  | .mkfs t | .mount t | .unmount t => inferInstanceAs (Decidable (s.targets.contains t.key = true))
  | .startLnet h | .stopLnet h | .loadLnet h | .unloadLnet h =>
    inferInstanceAs (Decidable (s.hosts.contains h.key = true))
  | .confParam p => inferInstanceAs (Decidable (s.confParams.contains p.key = true))
  | .confParamVersion m _ => inferInstanceAs (Decidable (s.mgs.contains m.key = true))

theorem StepKind.Named.grows {s' : Store} {k : StepKind} (h : k.Named s) (hg : s.Grows s') :
    k.Named s' := by
  cases k with
  | null => trivial
  | findDevice m | registerTarget m | configurePacemaker m => exact hg.targetMounts _ h
  | mkfs t | mount t | unmount t => exact hg.targets _ h
  | startLnet host | stopLnet host | loadLnet host | unloadLnet host =>
    unfold Named
    rw [hg.hosts]
    exact h
  | confParam p =>
    unfold Named
    rw [hg.confParams]
    exact h
  | confParamVersion m v => exact hg.mgs _ h

/-- **A step on a closed store misses no record**, if those that it names itself are there. -/
theorem safe_program {k : StepKind} (h : k.Named s) : Safe s anything (k.program agent) := by
  cases k with
  | null => exact .done trivial
  | findDevice m => exact safe_findDevice agent h
  | mkfs t => exact safe_formatTarget agent h
  | mount t => exact safe_requestByLabel agent h _
  | unmount t => exact safe_requestByLabel agent h _
  | registerTarget m => exact safe_registerTarget agent h
  | configurePacemaker m => exact safe_configurePacemaker agent h
  | startLnet host | stopLnet host | loadLnet host | unloadLnet host =>
    exact safe_controlLnet h _
  | confParam p => exact safe_applyConfParam h
  | confParamVersion m v => exact safe_recordVersion h v

end Steps

end Step

/-! ### Jobs that take turns -/

/-- Texts differ that begin with words neither of which begins with the other. -/
theorem append_ne_append {p q : String} (h : ¬ p.toList <+: q.toList) (h' : ¬ q.toList <+: p.toList)
    (a b : String) : p ++ a ≠ q ++ b := by
  intro he
  have hp : p.toList <+: (p ++ a).toList := by
    rw [String.toList_append]
    exact List.prefix_append _ _
  have hq : q.toList <+: (p ++ a).toList := by
    rw [he, String.toList_append]
    exact List.prefix_append _ _
  rcases List.prefix_or_prefix_of_prefix hp hq with hpq | hqp
  · exact h hpq
  · exact h' hqp

namespace Step

theorem message_ne_missing {r : Store.Refusal} (h : r.isMissing = false) (kind : Fleet.Kind)
    (name : String) : r.message ≠ (Store.Refusal.notFound kind name).message := by
  cases r with
  | notFound => cases h
  | conflict =>
    unfold Store.Refusal.message
    simp only [String.append_assoc]
    refine append_ne_append ?_ ?_ _ _ <;> cases kind <;> decide

/-- That a record is missing is told in words that no other failure has. -/
theorem ofFailure_ne_missing {f : Failure}
    (hf : ∀ r, f = .failed (.store r) → r.isMissing = false) (kind : Fleet.Kind) (name : String) :
    Outcome.ofFailure f ≠ .ofFailure (.failed (.store (.notFound kind name))) := by
  intro h
  cases f with
  | clean | dirty => cases h
  | failed c =>
    have hmessage := Outcome.failed.inj h
    cases c with
    | response => exact append_ne_append (by decide) (by decide) _ _ hmessage
    | inconsistent => exact append_ne_append (by decide) (by decide) _ _ hmessage
    | store r => exact message_ne_missing (hf r rfl) kind name ((String.append_right_inj _).mp hmessage)

end Step

/-- **Closed stores stay closed, and no step misses a record.** Take a closed store and any
jobs, whose steps name records that are there. However they take turns, whatever the hosts
reply and the flags show, the store is closed at every moment; it stays placed if it was; no
call is ever told that a record is missing, and no report tells of a step that failed for it. -/
theorem closed_stores_stay_closed (s : Store) (closed : s.Closed) (agent : String)
    (assigned : List Pass.Assignment)
    (named : ∀ a ∈ assigned, ∀ st ∈ a.job.steps.drop a.start, st.kind.Named s)
    (q : Pool Empty Pass.Verdict) (run : (Pass.pool s agent assigned).Reaches q) :
    q.store.Closed ∧ (s.Placed → q.store.Placed) ∧
    ∀ t ∈ q.threads, (∀ c kind name, .refused c (.notFound kind name) ∉ t.history) ∧
      ∀ v, t.ending? = some (.done v) → ∀ r ∈ v.steps, ∀ kind name,
        r.outcome ≠ .ofFailure (.failed (.store (.notFound kind name))) := by
  have upheld : ∀ p ∈ assigned.map fun a => Pass.program agent a.job a.start,
      p.Upholds Step.soundTerms (Pass.ended fun r => r.isMissing = false) [] s := by
    intro p hp
    obtain ⟨a, ha, rfl⟩ := List.mem_map.mp hp
    refine Pass.upholds_program fun st hst s' hs => ?_
    exact Step.safe_program agent ((named a ha st hst).grows hs.grows) (hs.closed closed)
  have evolved : s.Evolves q.store := run.others Pass.ended_stable upheld
  have snoc {h : List Event} {e : Event} (hh : ∀ e ∈ h, e.isMissing = false)
      (he : e.isMissing = false) : ∀ e' ∈ h ++ [e], e'.isMissing = false :=
    List.forall_mem_append.mpr ⟨hh, List.forall_mem_singleton.mpr he⟩
  have kept := run.upholds (T := Step.soundTerms) (H := fun h => ∀ e ∈ h, e.isMissing = false)
    (fun _ he => absurd he List.not_mem_nil) (fun hh hallows => snoc hh hallows.2)
    (fun hh => snoc hh rfl) (fun hh => snoc hh rfl) Pass.ended_stable upheld
  refine ⟨evolved.closed closed, evolved.placed, fun t ht => ⟨fun c kind name he => ?_, ?_⟩⟩
  · have hmissing : true = false := (kept t ht).1 _ he
    cases hmissing
  · intro v hv r hr kind name hmissing
    obtain ⟨f, hf, hrefused⟩ := (kept t ht).2.ending hv r hr (by rw [hmissing]; rfl)
    exact Step.ofFailure_ne_missing hrefused kind name (hf.symm.trans hmissing)

/-- The second server of a target finds its device, and the target is registered through the
first. -/
theorem found_device_is_placed :
    let s := Store.ofInventory {
      hosts := [⟨⟨1⟩, "oss1", none, none, .up, none, []⟩, ⟨⟨2⟩, "oss2", none, none, .up, none, []⟩]
      targets := [⟨⟨1⟩, .ost ⟨1⟩, none⟩]
      targetMounts := [⟨⟨1⟩, ⟨1⟩, ⟨1⟩, true, .configured, "/mnt/ost1", some ⟨1⟩⟩,
        ⟨⟨2⟩, ⟨1⟩, ⟨2⟩, false, .configured, "/mnt/ost1", none⟩]
      luns := [⟨⟨1⟩, some "9f1c"⟩]
      lunNodes := [⟨⟨1⟩, ⟨⟨1⟩, "/dev/sda", 0, false⟩, some ⟨1⟩⟩]
      filesystems := [⟨⟨1⟩, "fs", ⟨9⟩⟩] }
    let assigned : List Pass.Assignment :=
      [{ job := .of 1 "" none [.findDevice ⟨2⟩] }, { job := .of 2 "" none [.registerTarget ⟨1⟩] }]
    s.Closed ∧ s.Placed ∧ (∀ a ∈ assigned, ∀ st ∈ a.job.steps.drop a.start, st.kind.Named s) ∧
    ∃ q, (Pass.pool s "agent" assigned).Reaches q ∧ q.Ended ∧ q.store.Closed ∧ q.store.Placed ∧
      q.store.targetMounts.records.map (·.blockDevice) = [some ⟨1⟩, some ⟨2⟩] ∧
      q.store.targets.records.map (·.name) = [some "fs-OST0000"] := by
  intro s assigned
  have closed : s.Closed := by decide +kernel
  have placed : s.Placed := by decide +kernel
  have named : ∀ a ∈ assigned, ∀ st ∈ a.job.steps.drop a.start, st.kind.Named s := by decide +kernel
  let replies : Replies := fun host _ =>
    .ok ⟨0, if host.address = "oss2" then "\x7b\"path\": \"/dev/sdb\"\x7d"
      else "\x7b\"label\": \"fs-OST0000\"\x7d", ""⟩
  have unset : ∀ a ∈ assigned, a.control = .unset := by decide
  obtain ⟨q, run, _, hended, hstore, _⟩ := Pass.reaches_runAll replies s "agent" unset
  obtain ⟨hclosed, hplaced, _⟩ := closed_stores_stay_closed s closed "agent" assigned named q run
  refine ⟨closed, placed, named, q, run, hended, hclosed, hplaced placed, ?_⟩
  rw [hstore]
  decide +kernel

end FleetJobs
