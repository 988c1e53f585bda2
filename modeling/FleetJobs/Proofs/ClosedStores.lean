import FleetJobs.Proofs.Links

/-! Stores in which every record that another one names is there.

A store is closed if what its mounts, devices, targets and parameters name is in it
(`Store.Closed`), and placed if every mount has its device on its own host
(`Store.Placed`). A call is sound if the records that it names are there, the host of a new
device among them, and if a mount is given a device of its own host (`Call.Sound`). A sound
call is never told that a record is missing (`Call.Sound.not_missing`); carried out, it
keeps a closed store closed and a placed one placed (`evolves_handle`), and all that was
sound before it is sound after it (`Call.Sound.evolves`). -/
namespace FleetJobs.Store

open FleetJobs.Fleet
open Keyed (key)

/-! ### Records that keep a feature -/

/-- What is found under a key before is found there after, but for changes that `f` does not
show. -/
def Table.Keeps {α β : Type} [Keyed α] (f : α → β) (t t' : Table α) : Prop :=
  ∀ k r, t.find? k = some r → ∃ r', t'.find? k = some r' ∧ f r' = f r

namespace Table

variable {α β : Type} [Keyed α] {f : α → β} {t t' t'' : Table α}

theorem keeps_iff : t.Keeps f t' ↔ t.Follows (fun r r' => f r' = f r) t' := Iff.rfl

theorem Keeps.refl (t : Table α) : t.Keeps f t :=
  keeps_iff.mpr (Follows.refl (R := fun r r' => f r' = f r) (fun _ => rfl) t)

theorem Keeps.trans (h : t.Keeps f t') (h' : t'.Keeps f t'') : t.Keeps f t'' :=
  keeps_iff.mpr ((keeps_iff.mp h).trans (fun hab hbc => hbc.trans hab) h')

/-- The record takes the place of one with the same feature. -/
theorem keeps_replace {old new : α} (hold : t.find? (key new) = some old) (hf : f new = f old) :
    t.Keeps f (t.insert new) :=
  keeps_iff.mpr (follows_replace new hold (fun _ => rfl) hf)

/-- The record takes the place of none. -/
theorem keeps_next {new : α} (hnew : key new = t.nextKey) : t.Keeps f (t.insert new) :=
  keeps_iff.mpr (follows_next hnew fun _ => rfl)

end Table

/-! ### Closed stores -/

/-- What the mount names is in the store. -/
structure FoundsMount (s : Store) (m : TargetMount) : Prop where
  target : s.targets.contains m.target.key = true
  host : s.hosts.contains m.host.key = true
  device : s.lunNodes.Has m.blockDevice

/-- What the device names is in the store. -/
structure FoundsNode (s : Store) (n : LunNode) : Prop where
  host : s.hosts.contains n.device.host.key = true
  volume : s.luns.Has n.lun

/-- What a parameter applies to is in the store. -/
def FoundsScope (s : Store) : ConfParamScope → Prop
  | .filesystem id => s.filesystems.contains id.key = true
  | .target id => s.targets.contains id.key = true

/-- What the records of the first store name is in the second. -/
structure NamesIn (s s' : Store) : Prop where
  mounts : ∀ m ∈ s.targetMounts.records, s'.FoundsMount m
  nodes : ∀ n ∈ s.lunNodes.records, s'.FoundsNode n
  targets : ∀ t ∈ s.targets.records, s'.filesystems.Has t.kind.filesystem?
  params : ∀ p ∈ s.confParams.records, s'.FoundsScope p.scope

/-- What the records of the store name is in it. -/
def Closed (s : Store) : Prop := s.NamesIn s

/-- There is such a mount, on the host. -/
def MountOn (s : Store) (id : TargetMountId) (host : HostId) : Prop :=
  ∃ m, s.targetMounts.find? id.key = some m ∧ m.host = host

/-- There is such a device, on the host. -/
def NodeOn (s : Store) (id : LunNodeId) (host : HostId) : Prop :=
  ∃ n, s.lunNodes.find? id.key = some n ∧ n.device.host = host

/-- The devices of the mounts of the first store are in the second, each on its mount's host. -/
def PlacedIn (s s' : Store) : Prop :=
  ∀ m ∈ s.targetMounts.records, ∀ id ∈ m.blockDevice, s'.NodeOn id m.host

/-- Every mount has its device on its own host. -/
def Placed (s : Store) : Prop := s.PlacedIn s

section Decide

variable (s s' : Store)

instance (m : TargetMount) : Decidable (s.FoundsMount m) :=
  decidable_of_iff (_ ∧ _ ∧ _) ⟨fun ⟨ht, hh, hd⟩ => ⟨ht, hh, hd⟩, fun h => ⟨h.target, h.host, h.device⟩⟩

instance (n : LunNode) : Decidable (s.FoundsNode n) :=
  decidable_of_iff (_ ∧ _) ⟨fun ⟨hh, hv⟩ => ⟨hh, hv⟩, fun h => ⟨h.host, h.volume⟩⟩

instance (scope : ConfParamScope) : Decidable (s.FoundsScope scope) :=
  match scope with
  | .filesystem id => inferInstanceAs (Decidable (s.filesystems.contains id.key = true))
  | .target id => inferInstanceAs (Decidable (s.targets.contains id.key = true))

instance : Decidable (s.NamesIn s') :=
  decidable_of_iff (_ ∧ _ ∧ _ ∧ _)
    ⟨fun ⟨hm, hn, ht, hp⟩ => ⟨hm, hn, ht, hp⟩, fun h => ⟨h.mounts, h.nodes, h.targets, h.params⟩⟩

instance : Decidable s.Closed := inferInstanceAs (Decidable (s.NamesIn s))

instance (id : LunNodeId) (host : HostId) : Decidable (s.NodeOn id host) :=
  decidable_of_iff (∃ n ∈ s.lunNodes.find? id.key, n.device.host = host) Iff.rfl

instance : Decidable s.Placed :=
  inferInstanceAs (Decidable (∀ m ∈ s.targetMounts.records, ∀ id ∈ m.blockDevice, s.NodeOn id m.host))

end Decide

section Growing

variable {s s' s'' : Store} (hg : s'.Grows s'')
include hg

theorem FoundsMount.grows {m : TargetMount} (h : s'.FoundsMount m) : s''.FoundsMount m where
  target := hg.targets _ h.target
  host := by rw [hg.hosts]; exact h.host
  device := h.device.grows hg.lunNodes

theorem FoundsNode.grows {n : LunNode} (h : s'.FoundsNode n) : s''.FoundsNode n where
  host := by rw [hg.hosts]; exact h.host
  volume := h.volume.grows hg.luns

theorem FoundsScope.grows {scope : ConfParamScope} (h : s'.FoundsScope scope) :
    s''.FoundsScope scope := by
  cases scope with
  | filesystem id =>
    unfold FoundsScope
    rw [hg.filesystems]
    exact h
  | target id => exact hg.targets _ h

theorem NamesIn.grows (h : s.NamesIn s') : s.NamesIn s'' where
  mounts m hm := (h.mounts m hm).grows hg
  nodes n hn := (h.nodes n hn).grows hg
  targets t ht := by rw [hg.filesystems]; exact h.targets t ht
  params p hp := (h.params p hp).grows hg

end Growing

/-! ### What sound calls leave -/

/-- How a store may change by sound calls. -/
structure Evolves (s s' : Store) : Prop where
  grows : s.Grows s'
  mounts : s.targetMounts.Keeps TargetMount.host s'.targetMounts
  nodes : s.lunNodes.Keeps LunNode.device s'.lunNodes
  closed : s.Closed → s'.Closed
  placed : s.Placed → s'.Placed

namespace Evolves

variable {s s' s'' : Store}

theorem refl (s : Store) : s.Evolves s := ⟨.refl s, .refl _, .refl _, id, id⟩

theorem trans (h : s.Evolves s') (h' : s'.Evolves s'') : s.Evolves s'' where
  grows := h.grows.trans h'.grows
  mounts := h.mounts.trans h'.mounts
  nodes := h.nodes.trans h'.nodes
  closed hc := h'.closed (h.closed hc)
  placed hp := h'.placed (h.placed hp)

end Evolves

section

variable {s s' : Store}

theorem MountOn.evolves {id : TargetMountId} {host : HostId} (h : s.MountOn id host)
    (hs : s.Evolves s') : s'.MountOn id host := by
  obtain ⟨m, hm, rfl⟩ := h
  exact hs.mounts _ m hm

theorem NodeOn.keeps {id : LunNodeId} {host : HostId} (h : s.NodeOn id host)
    (hn : s.lunNodes.Keeps LunNode.device s'.lunNodes) : s'.NodeOn id host := by
  obtain ⟨n, hn', rfl⟩ := h
  obtain ⟨n', hfound, hdevice⟩ := hn _ n hn'
  exact ⟨n', hfound, congrArg Device.host hdevice⟩

end

/-- The call names records that are there. A new device is on a host that is there, and a mount
is given a device of its own host. -/
def Call.Sound (s : Store) : Call → Prop
  | .host id => s.hosts.contains id.key = true
  | .target id | .setTargetName id _ => s.targets.contains id.key = true
  | .targetMount id => s.targetMounts.contains id.key = true
  | .lunNode id => s.lunNodes.contains id.key = true
  | .lun id | .setLunUuid id _ => s.luns.contains id.key = true
  | .filesystem id => s.filesystems.contains id.key = true
  | .mgs id | .setVersionApplied id _ => s.mgs.contains id.key = true
  | .confParam id => s.confParams.contains id.key = true
  | .setBlockDevice id node => ∃ host, s.MountOn id host ∧ s.NodeOn node host
  | .createLunNode device volume =>
    s.hosts.contains device.host.key = true ∧ s.luns.contains volume.key = true
  | .attachLun node volume =>
    s.luns.contains volume.key = true ∧ s.lunNodes.contains node.key = true
  | .targetMounts _ | .findLunNode .. | .createLun _ => True

variable {s s' : Store} {c : Call} {a : c.Answer}

theorem Call.Sound.evolves (h : c.Sound s) (hs : s.Evolves s') : c.Sound s' := by
  have hg := hs.grows
  cases c with
  | host id =>
    unfold Sound
    rw [hg.hosts]
    exact h
  | filesystem id =>
    unfold Sound
    rw [hg.filesystems]
    exact h
  | confParam id =>
    unfold Sound
    rw [hg.confParams]
    exact h
  | target id | setTargetName id _ => exact hg.targets _ h
  | targetMount id => exact hg.targetMounts _ h
  | lunNode id => exact hg.lunNodes _ h
  | lun id | setLunUuid id _ => exact hg.luns _ h
  | mgs target | setVersionApplied target _ => exact hg.mgs _ h
  | setBlockDevice id node =>
    obtain ⟨host, hm, hn⟩ := h
    exact ⟨host, hm.evolves hs, hn.keeps hs.nodes⟩
  | createLunNode device volume =>
    unfold Sound
    rw [hg.hosts]
    exact ⟨h.1, hg.luns _ h.2⟩
  | attachLun node volume => exact ⟨hg.luns _ h.1, hg.lunNodes _ h.2⟩
  | targetMounts | findLunNode | createLun => trivial

/-- **A sound call that is carried out keeps a closed store closed and a placed one placed.** -/
theorem evolves_handle (sound : c.Sound s) (hc : s.handle c = .ok (a, s')) : s.Evolves s' := by
  have hg := grows_handle hc
  -- what the records that were there name is still there
  have old : s.Closed → s.NamesIn s' := fun h => h.grows hg
  cases effect_of_handle hc with
  | nothing => exact .refl s
  | @targetNamed id name t ht =>
    refine ⟨hg, .refl _, .refl _, fun h => ?_, fun h => h⟩
    have hkind := (old h).targets t (Table.mem_of_find? ht)
    exact { old h with targets := Table.forall_mem_insert hkind (old h).targets }
  | @deviceSet id node n m hn hm =>
    have hmem := Table.mem_of_find? hm
    have hself : s.targetMounts.find? m.id.key = some m := Table.find?_of_mem hmem
    refine ⟨hg, Table.keeps_replace hself rfl, .refl _, fun h => ?_, fun h => ?_⟩
    · have hfounded := (old h).mounts m hmem
      exact { old h with
        mounts := Table.forall_mem_insert
          { hfounded with device := Table.has_some (Table.contains_of_find? hn) } (old h).mounts }
    · refine Table.forall_mem_insert ?_ h
      rintro _ ⟨⟩
      obtain ⟨host, ⟨m', hm', rfl⟩, hnode⟩ := sound
      obtain rfl := Option.some.inj (hm.symm.trans hm')
      exact hnode
  | @nodeMade device volume n _ hkey hdevice hlun =>
    have hkeeps : s.lunNodes.Keeps LunNode.device (s.lunNodes.insert n) := Table.keeps_next hkey
    refine ⟨hg, .refl _, hkeeps, fun h => ?_, fun h => ?_⟩
    · refine { old h with nodes := Table.forall_mem_insert ⟨?_, ?_⟩ (old h).nodes }
      · rw [hdevice]
        exact sound.1
      · rw [hlun]
        exact Table.has_some sound.2
    · exact fun m hm id hid => (h m hm id hid).keeps hkeeps
  | @lunAttached node volume l n hl hn =>
    have hmem := Table.mem_of_find? hn
    have hself : s.lunNodes.find? n.id.key = some n := Table.find?_of_mem hmem
    have hkeeps : s.lunNodes.Keeps LunNode.device (s.lunNodes.insert { n with lun := some volume }) :=
      Table.keeps_replace hself rfl
    refine ⟨hg, .refl _, hkeeps, fun h => ?_, fun h => ?_⟩
    · have hfounded := (old h).nodes n hmem
      exact { old h with
        nodes := Table.forall_mem_insert
          { hfounded with volume := Table.has_some (Table.contains_of_find? hl) } (old h).nodes }
    · exact fun m hm id hid => (h m hm id hid).keeps hkeeps
  | lunMade | uuidSet | versionSet =>
    exact ⟨hg, .refl _, .refl _, fun h => { old h with }, fun h => h⟩

/-! ### Sound calls find their records -/

theorem reading_of_contains {α : Type} [Keyed α] {kind : Kind} {table : Table α} {label : Kind}
    {id : Id kind} (h : table.contains id.key = true) :
    ∃ r, s.reading (fetch table label id) = .ok (r, s) := by
  obtain ⟨r, hr⟩ := Table.exists_of_contains h
  exact ⟨r, by rw [fetch_eq_ok_iff.mpr hr]; rfl⟩

/-- **A sound call is never told that a record is missing.** It is carried out, or it clashes
with a record that is there, or finds no number. -/
theorem Call.Sound.found (h : c.Sound s) :
    (∃ a s', s.handle c = .ok (a, s')) ∨ (∃ cause, s.handle c = .error (.refused (.conflict cause))) ∨
      s.handle c = .error .exhausted := by
  cases c with
  | host | target | targetMount | lunNode | lun | filesystem | mgs | confParam =>
    obtain ⟨r, hr⟩ := reading_of_contains h
    exact .inl ⟨r, s, hr⟩
  | targetMounts | findLunNode => exact .inl ⟨_, s, rfl⟩
  | setTargetName =>
    obtain ⟨t, ht⟩ := Table.exists_of_contains h
    exact .inl ⟨_, _, setTargetName_eq_ok.mpr ⟨t, ht, rfl⟩⟩
  | setBlockDevice =>
    obtain ⟨_, ⟨m, hm, _⟩, n, hn, _⟩ := h
    exact .inl ⟨_, _, setBlockDevice_eq_ok.mpr ⟨n, m, hn, hm, rfl⟩⟩
  | createLunNode device volume =>
    rcases hc : s.handle (.createLunNode device volume) with e | ⟨n, s'⟩
    · rw [handle_createLunNode_eq_error_iff] at hc
      split at hc
      · exact .inr (.inl ⟨_, congrArg _ hc⟩)
      · exact .inr (.inr (congrArg _ hc.1))
    · exact .inl ⟨n, s', rfl⟩
  | attachLun node volume =>
    obtain ⟨s', hs'⟩ := handle_attachLun h.1 h.2
    exact .inl ⟨_, s', hs'⟩
  | createLun uuid =>
    rcases hc : s.handle (.createLun uuid) with e | ⟨l, s'⟩
    · rw [handle_createLun_eq_error_iff] at hc
      split at hc
      · exact .inr (.inl ⟨_, congrArg _ hc⟩)
      · exact .inr (.inr (congrArg _ hc.1))
    · exact .inl ⟨l, s', rfl⟩
  | setLunUuid id uuid =>
    by_cases htaken : s.uuidTaken uuid (some id) = true
    · refine .inr (.inl ⟨.uuidTaken uuid, ?_⟩)
      show s.setLunUuid id uuid = _
      unfold Store.setLunUuid
      rw [htaken]
      rfl
    · obtain ⟨l, hl⟩ := Table.exists_of_contains h
      exact .inl ⟨_, _, setLunUuid_eq_ok.mpr ⟨by simpa using htaken, l, hl, rfl⟩⟩
  | setVersionApplied =>
    obtain ⟨m, hm⟩ := Table.exists_of_contains h
    exact .inl ⟨_, _, setVersionApplied_eq_ok.mpr ⟨m, hm, rfl⟩⟩

/-- Whether a record was missing. -/
def Refusal.isMissing : Refusal → Bool
  | .notFound .. => true
  | .conflict _ => false

theorem Call.Sound.not_missing (h : c.Sound s) {r : Refusal} (hr : s.handle c = .error (.refused r)) :
    r.isMissing = false := by
  rcases h.found with ⟨a, s', hok⟩ | ⟨cause, hconflict⟩ | hexhausted
  · rw [hok] at hr
    cases hr
  · rw [hconflict] at hr
    cases hr
    rfl
  · rw [hexhausted] at hr
    cases hr

end FleetJobs.Store
