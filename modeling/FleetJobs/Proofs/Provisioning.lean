import FleetJobs.Job.Catalogue
import FleetJobs.Proofs.Formatting
import FleetJobs.Proofs.PassCompletion

/-! From an unformatted target to one that all its servers can serve.

Formatting puts a uuid on the volume behind the primary mount's device, registration gives
the target its label, and after that every other mount finds the same volume on its own
host and is announced with it. `provisioning_completes` says that these jobs, run one after
another on hosts that do as they are told, all complete, and what they leave. -/
namespace FleetJobs

open FleetJobs.Command
open FleetJobs.Fleet
open FleetJobs.Gateway

/-! ### What is asked of hosts and records -/

namespace Gateway.Remote

variable {κ : Type}

/-- Whatever came before, the host carries out the line with success and an answer that is
as `P` says. -/
def Answers (r : Remote κ) (host : Host) (line : String) (P : String → Prop) : Prop :=
  ∀ s, ∃ output, (r.answer s host line).reply = .ok output ∧ output.success = true ∧ P output.stdout

/-- The hosts format, register and announce as they are told, and each has the volume of
the uuid at its own path. -/
structure Provisions (r : Remote κ) (agent uuid label : String) (path : HostId → String) : Prop where
  calm : r.Calm
  formats : ∀ host args, r.Answers host ((AgentRequest.formatTarget args).line agent) fun stdout =>
    Json.read FormatResult.reader stdout = .ok ⟨uuid⟩
  registers : ∀ host device mountPoint,
    r.Answers host ((AgentRequest.registerTarget device mountPoint).line agent) fun stdout =>
      Json.read RegisterResult.reader stdout = .ok ⟨label⟩
  locates : ∀ host, r.Answers host ((AgentRequest.locateDevice uuid).line agent) fun stdout =>
    ∃ location, DeviceLocation.read stdout = .ok (some location) ∧ location.path = path host.id
  announces : ∀ host device label primary mountPoint,
    r.Answers host ((AgentRequest.configureHa device label primary mountPoint).line agent)
      fun _ => True

end Gateway.Remote

namespace Store

/-- Every reference of a record is to a record that is there. -/
structure Resolved (s : Store) : Prop where
  mountTargets : ∀ m ∈ s.targetMounts.records, s.targets.contains m.target.key = true
  mountHosts : ∀ m ∈ s.targetMounts.records, s.hosts.contains m.host.key = true
  mountDevices : ∀ m ∈ s.targetMounts.records, ∀ id, m.blockDevice = some id →
    s.lunNodes.contains id.key = true
  nodeHosts : ∀ n ∈ s.lunNodes.records, s.hosts.contains n.device.host.key = true
  nodeVolumes : ∀ n ∈ s.lunNodes.records, ∀ id, n.lun = some id → s.luns.contains id.key = true
  targetFilesystems : ∀ t ∈ s.targets.records, ∀ id, t.kind.filesystem? = some id →
    s.filesystems.contains id.key = true
  filesystemTargets : ∀ f ∈ s.filesystems.records, s.targets.contains f.mgs.key = true
  mgsTargets : ∀ m ∈ s.mgs.records, s.targets.contains m.target.key = true
  paramTargets : ∀ c ∈ s.confParams.records, s.targets.contains c.mgs.key = true
  paramScopes : ∀ c ∈ s.confParams.records, match c.scope with
    | .filesystem id => s.filesystems.contains id.key = true
    | .target id => s.targets.contains id.key = true

/-- A target with one primary mount, whose device is known, and some other mounts of it
without a device; nothing else has the uuid, and there are numbers for all new records. -/
structure Provisionable (s : Store) (uuid : String) (path : HostId → String) (t : Target)
    (p : TargetMount) (n : LunNode) (mounts : List TargetMount) : Prop where
  resolved : s.Resolved
  target : t ∈ s.targets.records
  primary : s.OnlyPrimary t.id p
  node : n ∈ s.lunNodes.records
  device : p.blockDevice = some n.id
  free : ∀ l ∈ s.luns.records, l.fsUuid = some uuid → n.lun = some l.id
  others : ∀ m ∈ mounts, m ∈ s.targetMounts.records ∧ m.target = t.id ∧ m ≠ p ∧ m.blockDevice = none
  volumeLeft : n.lun = none → s.luns.nextKey < UInt32.size
  devicesLeft : s.HasRoom path mounts

end Store

/-! ### The store on the way -/

namespace Store

variable {s : Store} {path : HostId → String} {t : Target} {p : TargetMount} {n : LunNode} {l : Lun}
  {mounts : List TargetMount} {m : TargetMount} {d : LunNode}

/-- How far provisioning has come: the target's volume is there, and every mount waits for its
device or has it. -/
structure Underway (s : Store) (path : HostId → String) (t : Target) (p : TargetMount) (n : LunNode)
    (l : Lun) (mounts : List TargetMount) : Prop where
  served : s.Served t p n l
  hosts : ∀ m ∈ mounts, s.hosts.contains m.host.key = true
  secondary : ∀ m ∈ mounts, m.target = t.id ∧ m.primary = false ∧ m.blockDevice = none
  waiting : ∀ m ∈ mounts, s.targetMounts.find? m.id.key = some m ∨ s.Equipped path l.id m

/-- A mount that gets its device does not hinder the others. -/
theorem Underway.equip (h : s.Underway path t p n l mounts) (hm : m ∈ mounts)
    (hfound : s.targetMounts.find? m.id.key = some m)
    (hd : s.Located m.host (path m.host) l.id d) : (s.equip m d).Underway path t p n l mounts where
  served := h.served.equip hfound (h.secondary m hm).2.1 hd
  hosts := h.hosts
  secondary := h.secondary
  waiting m' hm' := by
    rcases h.waiting m' hm' with hwaiting | hequipped
    · by_cases hk : m.id.key = m'.id.key
      · -- it is the same mount, which the list may hold twice
        rw [← hk, hfound] at hwaiting
        obtain rfl := Option.some.inj hwaiting
        exact .inr (equipped_equip hd)
      · exact .inl ((Table.find?_insert_of_ne _ hk).trans hwaiting)
    · exact .inr (hequipped.equip hfound (h.secondary m hm).2.2 hd)

/-- One mount further: it has its device, no other has lost its own, and there is room for the
rest. -/
structure Advances (s s' : Store) (path : HostId → String) (t : Target) (p : TargetMount)
    (n : LunNode) (l : Lun) (mounts : List TargetMount) (m : TargetMount) (rest : List TargetMount) :
    Prop where
  underway : s'.Underway path t p n l mounts
  room : s'.HasRoom path rest
  equipped : s'.Equipped path l.id m
  kept : ∀ m', s.Equipped path l.id m' → s'.Equipped path l.id m'

theorem Underway.advances {rest : List TargetMount} (h : s.Underway path t p n l mounts)
    (room : s.HasRoom path (m :: rest)) (hm : m ∈ mounts)
    (hfound : s.targetMounts.find? m.id.key = some m)
    (hd : s.Located m.host (path m.host) l.id d) :
    s.Advances (s.equip m d) path t p n l mounts m rest where
  underway := h.equip hm hfound hd
  room := room.equip hd
  equipped := equipped_equip hd
  kept _ hm' := hm'.equip hfound (h.secondary m hm).2.2 hd

/-- The store once the target is formatted and registered. -/
def prepared (s : Store) (label : String) (t : Target) (n : LunNode) (l : Lun) : Store :=
  { s with
    targets := s.targets.insert { t with name := some label }
    luns := s.luns.insert l
    lunNodes := s.lunNodes.insert { n with lun := some l.id } }

theorem Provisionable.underway {uuid : String} (h : s.Provisionable uuid path t p n mounts)
    (label : String) (l : Lun) :
    (s.prepared label t n l).Underway path { t with name := some label } p
      { n with lun := some l.id } l mounts where
  served :=
    { target := Table.find?_insert_of_eq _ rfl
      primary := ⟨h.primary.mem, h.primary.ofTarget, h.primary.isPrimary, h.primary.only⟩
      device := h.device
      node := Table.find?_insert_of_eq _ rfl
      behind := rfl
      volume := Table.find?_insert_of_eq _ rfl }
  hosts m hm := h.resolved.mountHosts m (h.others m hm).1
  secondary m hm := by
    obtain ⟨hmem, htarget, hne, hdevice⟩ := h.others m hm
    refine ⟨htarget, ?_, hdevice⟩
    cases hprimary : m.primary with
    | false => rfl
    | true => exact absurd (h.primary.only m hmem htarget hprimary) hne
  waiting m hm := .inl (Table.find?_of_mem (h.others m hm).1)

theorem Provisionable.hasRoom {uuid : String} (h : s.Provisionable uuid path t p n mounts)
    (label : String) (l : Lun) : (s.prepared label t n l).HasRoom path mounts := by
  have hn := Table.find?_of_mem h.node
  have hlocated : s.Located n.device.host n.device.path l.id { n with lun := some l.id } :=
    ⟨rfl, rfl, rfl, .inl ⟨n, hn, rfl⟩⟩
  exact h.devicesLeft.replace hlocated (Table.contains_of_find? hn) rfl

end Store

/-! ### The jobs -/

open FleetJobs.Program (Yields)
open FleetJobs.Store (Table)

variable {κ : Type} {r : Remote κ} {agent uuid label : String} {path : HostId → String}

/-- The mount's host was asked for the device of the uuid. -/
def Asks (agent uuid : String) (m : TargetMount) (c : Sent) : Prop :=
  c.host.id = m.host ∧ c.line = (AgentRequest.locateDevice uuid).line agent

/-- The mount was announced to its host with the path there and the label, as one that is not
primary. -/
def Announces (agent label : String) (path : HostId → String) (m : TargetMount) (c : Sent) : Prop :=
  c.host.id = m.host ∧
    c.line = agent ++ " " ++ lineOf ["configure-ha", "--device", path m.host, "--label", label,
      "--mountpoint", m.mountPoint]

/-- What is sent to configure a mount: a question for its device, unless the device has been
found before, and then the announcement. -/
def ConfigureMount (agent uuid label : String) (path : HostId → String) (m : TargetMount)
    (sent : List Sent) : Prop :=
  ∃ question announcement, sent = question ++ [announcement] ∧
    (question = [] ∨ ∃ c, question = [c] ∧ Asks agent uuid m c) ∧
    Announces agent label path m announcement

section Configure

variable {t : Target} {p : TargetMount} {n : LunNode} {l : Lun} {mounts rest : List TargetMount}
  {m : TargetMount} {w : World κ}

/-- A mount whose device was found before is not searched for again. -/
theorem search_advances (provisions : r.Provisions agent uuid label path)
    (huuid : l.fsUuid = some uuid) (hw : w.store.Underway path t p n l mounts) (hm : m ∈ mounts)
    (room : w.store.HasRoom path (m :: rest)) :
    ∃ w' question, (Step.findDevice agent m.id).Yields r.hosts.alone w () w' ∧
      w.store.Advances w'.store path t p n l mounts m rest ∧ w'.sent = w.sent ++ question ∧
      (question = [] ∨ ∃ c, question = [c] ∧ Asks agent uuid m c) := by
  obtain ⟨htarget, hsecondary, hdevice⟩ := hw.secondary m hm
  rcases hw.waiting m hm with hfound | hequipped
  · obtain ⟨host, hhost⟩ := Table.exists_of_contains (hw.hosts m hm)
    have hid : host.id = m.host := Id.key_injective (Table.key_of_find? hhost)
    obtain ⟨output, hreply, hsuccess, location, hread, hpath⟩ := provisions.locates host w.outside
    rw [hid] at hpath
    obtain ⟨d, hd, hyields⟩ := Step.findDevice_equips (o := r.hosts.alone) hw.served huuid hfound
      htarget hsecondary hdevice hhost hreply hsuccess hread
      fun hunknown => room.next (hpath ▸ hunknown)
    rw [hpath] at hd
    exact ⟨_, _, hyields, hw.advances room hm hfound hd, rfl, .inr ⟨_, rfl, hid, rfl⟩⟩
  · have ⟨d, hfound, _⟩ := hequipped
    have hyields : (Step.findDevice agent m.id).Yields r.hosts.alone w () w :=
      Step.yields_findDevice.mpr ⟨_, hfound, .inl ⟨⟨d.id, rfl⟩, rfl⟩⟩
    exact ⟨w, [], hyields, ⟨hw, room.rest, hequipped, fun _ => id⟩, (List.append_nil _).symm,
      .inl rfl⟩

theorem announce_equipped (provisions : r.Provisions agent uuid label path)
    (hw : w.store.Underway path t p n l mounts) (hlabel : t.name = some label) (hm : m ∈ mounts)
    (hequipped : w.store.Equipped path l.id m) :
    ∃ w' announcement, (Step.configurePacemaker agent m.id).Yields r.hosts.alone w () w' ∧
      w'.store = w.store ∧ w'.sent = w.sent ++ [announcement] ∧
      Announces agent label path m announcement := by
  obtain ⟨htarget, hsecondary, _⟩ := hw.secondary m hm
  obtain ⟨host, hhost⟩ := Table.exists_of_contains (hw.hosts m hm)
  obtain ⟨d, hfound, hd, _, hpath, _⟩ := hequipped
  have htarget' : w.store.targets.find? m.target.key = some t := htarget ▸ hw.served.target
  obtain ⟨output, hreply, hsuccess, _⟩ :=
    provisions.announces host d.device.path label m.primary m.mountPoint w.outside
  refine ⟨_, _, Step.yields_configurePacemaker.mpr ⟨_, hfound, t, htarget', d.id, rfl, label, hlabel,
    d, hd, host, hhost, output, Step.yields_harmless.mpr ⟨hreply, hsuccess, rfl⟩⟩, rfl, rfl,
    Id.key_injective (Table.key_of_find? hhost), ?_⟩
  show (AgentRequest.configureHa d.device.path label m.primary m.mountPoint).line agent = _
  rw [hpath, hsecondary]
  rfl

/-- **Configuring a mount equips it** and leaves the others as far as they are. -/
theorem configure_advances (provisions : r.Provisions agent uuid label path)
    (huuid : l.fsUuid = some uuid) (hlabel : t.name = some label)
    (hw : w.store.Underway path t p n l mounts) (hm : m ∈ mounts)
    (room : w.store.HasRoom path (m :: rest)) (number : UInt64) :
    ∃ w' sent, Step.AllSucceed r.hosts agent (Job.configureTargetMount number m.id).steps
        w.clearNote w' ∧
      w.store.Advances w'.store path t p n l mounts m rest ∧ w'.sent = w.sent ++ sent ∧
      ConfigureMount agent uuid label path m sent := by
  obtain ⟨w₁, question, hsearch, hadvances, hsent₁, hquestion⟩ :=
    search_advances (w := w.clearNote) provisions huuid hw hm room
  obtain ⟨w₂, announcement, hannounce, hstore, hsent₂, hannounces⟩ :=
    announce_equipped provisions hadvances.underway hlabel hm hadvances.equipped
  rw [← hstore] at hadvances
  refine ⟨w₂, question ++ [announcement], ?_, hadvances, ?_, question, announcement, rfl, hquestion,
    hannounces⟩
  · exact .cons (s := ⟨.findDevice m.id, false⟩) hsearch
      (.cons (s := ⟨.configurePacemaker m.id, true⟩) hannounce rfl)
  · rw [hsent₂, hsent₁, ← List.append_assoc]
    rfl

/-- **So do the mounts one after another**, in any order and however often. -/
theorem configureAll_underway (provisions : r.Provisions agent uuid label path)
    (huuid : l.fsUuid = some uuid) (hlabel : t.name = some label) (number : TargetMount → UInt64)
    (hw : w.store.Underway path t p n l mounts) (hrest : ∀ m ∈ rest, m ∈ mounts)
    (room : w.store.HasRoom path rest) :
    ∃ w' sent, Job.CompleteInTurn r.hosts agent
        (rest.map fun m => Job.configureTargetMount (number m) m.id) w w' ∧
      w'.store.Underway path t p n l mounts ∧
      (∀ m ∈ rest, w'.store.Equipped path l.id m) ∧
      (∀ m, w.store.Equipped path l.id m → w'.store.Equipped path l.id m) ∧
      w'.sent = w.sent ++ sent.flatten ∧
      List.Forall₂ (ConfigureMount agent uuid label path) rest sent := by
  -- all mounts stay underway, and room is wanted for those to come only
  induction rest generalizing w with
  | nil =>
    exact ⟨w, [], .nil w, hw, by simp, fun _ => id, (List.append_nil _).symm, .nil⟩
  | cons m rest ih =>
    obtain ⟨hm, hrest⟩ := List.forall_mem_cons.mp hrest
    obtain ⟨w₁, sent₁, hjob, ⟨hw₁, hroom, hequipped, hkept₁⟩, hsent₁, hconfigure⟩ :=
      configure_advances provisions huuid hlabel hw hm room (number m)
    obtain ⟨w₂, sent₂, hjobs, hw₂, hall, hkept₂, hsent₂, hconfigures⟩ := ih hw₁ hrest hroom
    refine ⟨w₂, sent₁ :: sent₂, .cons rfl hjob hjobs, hw₂,
      List.forall_mem_cons.mpr ⟨hkept₂ m hequipped, hall⟩, fun m' hm' => hkept₂ m' (hkept₁ m' hm'),
      ?_, .cons hconfigure hconfigures⟩
    rw [hsent₂, hsent₁, List.flatten_cons, List.append_assoc]

end Configure

section Prepare

variable {t : Target} {p : TargetMount} {n : LunNode} {mounts : List TargetMount} {w : World κ}

/-- Formatting puts a volume with the uuid behind the primary mount's device. -/
theorem format_yields (provisions : r.Provisions agent uuid label path)
    (h : w.store.Provisionable uuid path t p n mounts) :
    ∃ (l : Lun) (w' : World κ) (c : Sent), l.fsUuid = some uuid ∧
      (Step.formatTarget agent t.id).Yields r.hosts.alone w () w' ∧
      w'.store = { w.store with
        luns := w.store.luns.insert l
        lunNodes := w.store.lunNodes.insert { n with lun := some l.id } } ∧
      w'.sent = w.sent ++ [c] := by
  have ht := Table.find?_of_mem h.target
  have hn := Table.find?_of_mem h.node
  obtain ⟨host, hhost⟩ := Table.exists_of_contains (h.resolved.mountHosts p h.primary.mem)
  have described : w.store.Describable t :=
    { servers := fun m hm _ _ => h.resolved.mountHosts m hm
      filesystem := fun id hid => by
        obtain ⟨fs, hfs⟩ := Table.exists_of_contains (h.resolved.targetFilesystems t h.target id hid)
        exact ⟨fs, hfs, fun m hm _ => h.resolved.mountHosts m hm⟩ }
  obtain ⟨output, hreply, hsuccess, hread⟩ :=
    provisions.formats host (Json.write (w.store.formatArgs t n).toDatum) w.outside
  obtain ⟨l, _, hformatted, hrecord⟩ := Step.recordUuid_formats (o := r.hosts.alone)
    (w := (w.send r.hosts.alone host ((w.store.formatArgs t n).request.line agent)).2) hn
    ⟨h.free, h.resolved.nodeVolumes n h.node, h.volumeLeft⟩
  exact ⟨l, _, _, hformatted.told, Step.yields_formatTarget.mpr ⟨t, ht, p, h.primary.find?, n.id,
    h.device, n, hn, host, hhost, _, w, Step.yields_formatArgs.mpr ⟨described, rfl, rfl⟩, output, _,
    Step.yields_risky.mpr ⟨hreply, hsuccess, rfl⟩, ⟨uuid⟩, hread, hrecord⟩, hformatted.rest, rfl⟩

/-- Registration gives the target its label. -/
theorem register_yields (provisions : r.Provisions agent uuid label path)
    (ht : w.store.targets.find? t.id.key = some t) (primary : w.store.OnlyPrimary t.id p)
    (hdevice : p.blockDevice = some n.id) (hn : w.store.lunNodes.find? n.id.key = some n)
    (hhost : w.store.hosts.contains p.host.key = true) :
    ∃ (w' : World κ) (c : Sent), (Step.registerTarget agent p.id).Yields r.hosts.alone w () w' ∧
      w'.store = { w.store with targets := w.store.targets.insert { t with name := some label } } ∧
      w'.sent = w.sent ++ [c] := by
  have hp := Table.find?_of_mem primary.mem
  obtain ⟨host, hhost⟩ := Table.exists_of_contains hhost
  obtain ⟨output, hreply, hsuccess, hread⟩ :=
    provisions.registers host n.device.path p.mountPoint w.outside
  refine ⟨_, _, Step.yields_registerTarget.mpr ⟨p, hp, n.id, hdevice, n, hn, host, hhost, output, _,
    Step.yields_harmless.mpr ⟨hreply, hsuccess, rfl⟩, ⟨label⟩, hread,
    Step.yields_call.mpr ⟨_, Store.setTargetName_eq_ok.mpr ⟨t, ?_, rfl⟩, rfl⟩⟩, rfl, rfl⟩
  rw [primary.ofTarget]
  exact ht

/-- **After formatting and registration the other mounts can be configured.** -/
theorem prepare_underway (provisions : r.Provisions agent uuid label path)
    (h : w.store.Provisionable uuid path t p n mounts) (f g : UInt64) :
    ∃ (l : Lun) (w' : World κ) (first second : Sent), l.fsUuid = some uuid ∧
      w'.store.Underway path { t with name := some label } p { n with lun := some l.id } l mounts ∧
      w'.store.HasRoom path mounts ∧ w'.sent = w.sent ++ [first, second] ∧
      ∀ {jobs : List Job} {w'' : World κ}, Job.CompleteInTurn r.hosts agent jobs w' w'' →
        Job.CompleteInTurn r.hosts agent
          (Job.formatTarget f t.id :: Job.registerTarget g t.id p.id :: jobs) w w'' := by
  obtain ⟨l, w₁, first, huuid, hformat, hstore₁, hsent₁⟩ :=
    format_yields (w := w.clearNote) provisions h
  have ht : w₁.store.targets.find? t.id.key = some t := by
    rw [hstore₁]
    exact Table.find?_of_mem h.target
  have hprimary : w₁.store.OnlyPrimary t.id p := by
    rw [hstore₁]
    exact ⟨h.primary.mem, h.primary.ofTarget, h.primary.isPrimary, h.primary.only⟩
  have hn : w₁.store.lunNodes.find? n.id.key = some { n with lun := some l.id } := by
    rw [hstore₁]
    exact Table.find?_insert_of_eq _ rfl
  have hhost : w₁.store.hosts.contains p.host.key = true := by
    rw [hstore₁]
    exact h.resolved.mountHosts p h.primary.mem
  obtain ⟨w₂, second, hregister, hstore₂, hsent₂⟩ :=
    register_yields (w := w₁.clearNote) (n := { n with lun := some l.id }) provisions ht hprimary
      h.device hn hhost
  have hstore : w₂.store = w.store.prepared label t n l := by
    rw [hstore₂]
    show { w₁.store with targets := w₁.store.targets.insert { t with name := some label } } = _
    rw [hstore₁]
    rfl
  refine ⟨l, w₂, first, second, huuid, hstore ▸ h.underway label l, hstore ▸ h.hasRoom label l, ?_,
    fun hjobs => ?_⟩
  · rw [hsent₂]
    show w₁.sent ++ [second] = _
    rw [hsent₁, List.append_assoc]
    rfl
  · exact .cons rfl (.cons (s := ⟨.mkfs t.id, true⟩) hformat rfl)
      (.cons rfl (.cons (s := ⟨.registerTarget p.id, true⟩) hregister rfl) hjobs)

end Prepare

/-- **Provisioning completes.** If hosts do as they are told, then formatting a target,
registering it and configuring its other mounts, in any order, all complete with their
transitions committed. The target has its label, one volume with the uuid is behind the
primary mount's device and behind the device that every other mount has got on its own
host, and each of these was announced with its path, the label and not as primary. -/
theorem provisioning_completes (s : Store) (uuid label agent : String) (path : HostId → String)
    (r : Remote κ) (k : κ) (t : Target) (p : TargetMount) (n : LunNode) (mounts : List TargetMount)
    (f g : UInt64) (number : TargetMount → UInt64)
    (h : s.Provisionable uuid path t p n mounts) (provisions : r.Provisions agent uuid label path) :
    let jobs := Job.formatTarget f t.id :: Job.registerTarget g t.id p.id ::
      mounts.map fun m => Job.configureTargetMount (number m) m.id
    ∃ reports w, Pass.runAll r agent (jobs.map fun j => { job := j }) (World.start s (k, .unset)) =
        (reports, w) ∧
      reports.map (fun r => (r.jobId, r.state, r.committed)) =
        jobs.map (fun j => (j.id, .complete, j.transition)) ∧
      w.store.targets.find? t.id.key = some { t with name := some label } ∧
      (∃ l : Lun, l.fsUuid = some uuid ∧ w.store.luns.find? l.id.key = some l ∧
        w.store.lunNodes.find? n.id.key = some { n with lun := some l.id } ∧
        ∀ m ∈ mounts, w.store.Equipped path l.id m) ∧
      ∃ formatting registration sent, w.sent = formatting :: registration :: sent.flatten ∧
        List.Forall₂ (ConfigureMount agent uuid label path) mounts sent := by
  intro jobs
  have hstart : (World.start s k).store.Provisionable uuid path t p n mounts := h
  obtain ⟨l, w₁, first, second, huuid, hw₁, hroom, hsent₁, hjobs⟩ :=
    prepare_underway provisions hstart f g
  obtain ⟨w₂, sent, hconfigured, hw₂, hequipped, _, hsent₂, hcommands⟩ :=
    configureAll_underway provisions huuid rfl number hw₁ (fun _ => id) hroom
  obtain ⟨reports, hrun, hreports⟩ := Pass.runAll_completes provisions.calm (hjobs hconfigured)
  refine ⟨reports, _, hrun, hreports, hw₂.served.target,
    ⟨l, huuid, hw₂.served.volume, hw₂.served.node, hequipped⟩, first, second, sent, ?_, hcommands⟩
  show w₂.sent = _
  rw [hsent₂, hsent₁]
  rfl

/-- Three hosts come to share one volume: the first formats it, the second knows its device
already, the third gets a new record of it. -/
theorem provisioned_on_three_hosts :
    let path : HostId → String := fun h => if h = ⟨1⟩ then "/dev/sda" else "/dev/sdb"
    let t : Target := ⟨⟨4⟩, .mgs, none⟩
    let p : TargetMount := ⟨⟨5⟩, ⟨4⟩, ⟨1⟩, true, .unconfigured, "/mnt/mgs", some ⟨8⟩⟩
    let n : LunNode := ⟨⟨8⟩, ⟨⟨1⟩, "/dev/sda", 0, false⟩, none⟩
    let known : LunNode := ⟨⟨9⟩, ⟨⟨2⟩, "/dev/sdb", 0, false⟩, none⟩
    let first : TargetMount := ⟨⟨6⟩, ⟨4⟩, ⟨2⟩, false, .unconfigured, "/mnt/mgs", none⟩
    let second : TargetMount := ⟨⟨7⟩, ⟨4⟩, ⟨3⟩, false, .unconfigured, "/mnt/mgs", none⟩
    let i : Inventory :=
      { hosts := [⟨⟨1⟩, "oss1", none, none, .up, none, []⟩, ⟨⟨2⟩, "oss2", none, none, .up, none, []⟩,
          ⟨⟨3⟩, "oss3", none, none, .up, none, []⟩]
        targets := [t]
        targetMounts := [p, first, second]
        lunNodes := [n, known] }
    let s := Store.ofInventory i
    let answer : String → String := fun device =>
      "\x7b\"uuid\": \"u1\", \"label\": \"MGS\", \"path\": \"" ++ device ++ "\"\x7d"
    let reply : Host → String → Reply := fun host _ => .ok ⟨0, answer (path host.id), ""⟩
    let jobs := [Job.formatTarget 1 ⟨4⟩, Job.registerTarget 2 ⟨4⟩ ⟨5⟩,
      Job.configureTargetMount 7 ⟨7⟩, Job.configureTargetMount 6 ⟨6⟩]
    s.Provisionable "u1" path t p n [second, first] ∧
      (Remote.ofReplies reply).Provisions "agent" "u1" "MGS" path ∧
      ∃ reports w, Pass.runAll (Remote.ofReplies reply) "agent" (jobs.map fun j => { job := j })
          (World.start s ((), .unset)) = (reports, w) ∧
        reports.map (fun r => (r.jobId, r.state, r.committed)) =
          jobs.map (fun j => (j.id, .complete, j.transition)) ∧
        w.store.targets.find? 4 = some { t with name := some "MGS" } ∧
        ∃ l : Lun, l.fsUuid = some "u1" ∧ w.store.Equipped path l.id first ∧
          w.store.Equipped path l.id second := by
  intro path t p n known first second i s answer reply jobs
  have hpath (h : HostId) : path h = "/dev/sda" ∨ path h = "/dev/sdb" := ite_eq_or_eq ..
  have devices : ∀ m ∈ s.targetMounts.records, ∀ id ∈ m.blockDevice,
      s.lunNodes.contains id.key = true := by decide +kernel
  have volumes : ∀ n ∈ s.lunNodes.records, ∀ id ∈ n.lun, s.luns.contains id.key = true := by
    decide +kernel
  have filesystems : ∀ t ∈ s.targets.records, ∀ id ∈ t.kind.filesystem?,
      s.filesystems.contains id.key = true := by decide +kernel
  have params : s.confParams.records = [] := by decide +kernel
  have resolved : s.Resolved :=
    { mountTargets := by decide +kernel
      mountHosts := by decide +kernel
      mountDevices := devices
      nodeHosts := by decide +kernel
      nodeVolumes := volumes
      targetFilesystems := filesystems
      filesystemTargets := by decide +kernel
      mgsTargets := by decide +kernel
      paramTargets := by decide +kernel
      paramScopes := by simp [params] }
  have provisionable : s.Provisionable "u1" path t p n [second, first] :=
    { resolved
      target := by decide +kernel
      primary := ⟨by decide +kernel, rfl, rfl, by decide +kernel⟩
      node := by decide +kernel
      device := rfl
      free := by decide +kernel
      others := by decide +kernel
      volumeLeft := by decide +kernel
      devicesLeft := by
        unfold Store.HasRoom
        decide +kernel }
  have provisions : (Remote.ofReplies reply).Provisions "agent" "u1" "MGS" path :=
    { calm := fun _ _ _ => rfl
      formats := fun host _ _ => ⟨_, rfl, rfl, by
        show Json.read FormatResult.reader (answer (path host.id)) = _
        rcases hpath host.id with h | h <;> rw [h] <;> decide +kernel⟩
      registers := fun host _ _ _ => ⟨_, rfl, rfl, by
        show Json.read RegisterResult.reader (answer (path host.id)) = _
        rcases hpath host.id with h | h <;> rw [h] <;> decide +kernel⟩
      locates := fun host _ => ⟨_, rfl, rfl, ⟨path host.id, 0, false⟩, by
        show DeviceLocation.read (answer (path host.id)) = _
        rcases hpath host.id with h | h <;> rw [h] <;> decide +kernel, rfl⟩
      announces := fun _ _ _ _ _ _ => ⟨_, rfl, rfl, trivial⟩ }
  obtain ⟨reports, w, hrun, hreports, hlabel, ⟨l, huuid, _, _, hequipped⟩, _⟩ :=
    provisioning_completes s "u1" "MGS" "agent" path (Remote.ofReplies reply) () t p n [second, first]
      1 2 (fun m => m.id.number.toUInt64) provisionable provisions
  exact ⟨provisionable, provisions, reports, w, hrun, hreports, hlabel, l, huuid,
    hequipped first (.tail _ (.head _)), hequipped second (.head _)⟩

end FleetJobs
