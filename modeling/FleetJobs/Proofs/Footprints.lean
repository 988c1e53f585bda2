import FleetJobs.Proofs.StoreInvariant
import FleetJobs.Step.Basic

/-! What steps touch in a store.

A step that neither formats a target nor looks for a device writes nothing but the label of a
target or the version of a management target. These are its cells (`Cell`), and the cells that
a step may read and write are its footprint, which the store tells as far as the step names a
mount or a parameter (`StepKind.footprint`). A call within a footprint does the same on two
stores that agree on the footprint's cells, and they agree after it (`Agree.handle`); what it
does to one of them is not seen in cells that the footprint does not write (`Agree.spared`). -/
namespace FleetJobs

open FleetJobs.Fleet

/-- A place in a store that such steps may write to. -/
inductive Cell where
  | label (target : TargetId)
  | version (mgs : TargetId)
  deriving DecidableEq, Repr

/-- What is kept in a cell: the record that it is part of, if that is there. -/
abbrev Cell.Content : Cell → Type
  | label _ => Option Target
  | version _ => Option Mgs

/-- Which cells are read and which are written. -/
structure Footprint where
  reads : List Cell
  writes : List Cell
  deriving DecidableEq, Repr

namespace Footprint

def touches (F : Footprint) : List Cell := F.reads ++ F.writes

/-- Everything that the other reads and writes. -/
structure Covers (F G : Footprint) : Prop where
  reads : G.reads ⊆ F.reads
  writes : G.writes ⊆ F.writes

/-- Nothing is written that the other touches. -/
def Spares (F G : Footprint) : Prop := ∀ x ∈ F.writes, x ∉ G.touches

instance (F G : Footprint) : Decidable (F.Spares G) :=
  inferInstanceAs (Decidable (∀ x ∈ F.writes, x ∉ G.touches))

theorem touches_of_reads {F : Footprint} {x : Cell} (h : x ∈ F.reads) : x ∈ F.touches :=
  List.mem_append_left _ h

theorem touches_of_writes {F : Footprint} {x : Cell} (h : x ∈ F.writes) : x ∈ F.touches :=
  List.mem_append_right _ h

end Footprint

namespace Step

/-- Whether the step formats a target or looks for a device, and so may add records. -/
def StepKind.isProvisioning : StepKind → Bool
  | mkfs _ | findDevice _ => true
  | _ => false

/-- The label of the target that the mount is of. -/
def labelOfMount (s : Store) (id : TargetMountId) : List Cell :=
  (s.targetMounts.find? id.key).toList.map fun m => .label m.target

/-- The label that a parameter's scope needs. -/
def labelOfScope : ConfParamScope → List Cell
  | .filesystem _ => []
  | .target id => [.label id]

/-- The cells of a step that is not provisioning. -/
def StepKind.footprint (s : Store) : StepKind → Footprint
  | mount t | unmount t => ⟨[.label t], []⟩
  | registerTarget m => ⟨[], labelOfMount s m⟩
  | configurePacemaker m => ⟨labelOfMount s m, []⟩
  | confParam p => ⟨(s.confParams.find? p.key).toList.flatMap fun p => labelOfScope p.scope, []⟩
  | confParamVersion m _ => ⟨[], [.version m]⟩
  | _ => ⟨[], []⟩

end Step

namespace Store

open Keyed (key)

def cell (s : Store) : (x : Cell) → x.Content
  | .label t => s.targets.find? t.key
  | .version m => s.mgs.find? m.key

/-! ### Stores that agree -/

/-- All is the same but targets and versions. -/
structure Alike (s s' : Store) : Prop where
  hosts : s'.hosts = s.hosts
  targetMounts : s'.targetMounts = s.targetMounts
  luns : s'.luns = s.luns
  lunNodes : s'.lunNodes = s.lunNodes
  filesystems : s'.filesystems = s.filesystems
  confParams : s'.confParams = s.confParams

/-- Alike, and the same in some cells. -/
structure Agree (X : Cell → Prop) (s s' : Store) : Prop extends Alike s s' where
  cells : ∀ x, X x → s'.cell x = s.cell x

variable {X : Cell → Prop} {F : Footprint} {s s' s'' v : Store}

theorem Alike.refl (s : Store) : s.Alike s := ⟨rfl, rfl, rfl, rfl, rfl, rfl⟩

theorem Alike.symm (h : s.Alike s') : s'.Alike s :=
  ⟨h.hosts.symm, h.targetMounts.symm, h.luns.symm, h.lunNodes.symm, h.filesystems.symm,
    h.confParams.symm⟩

theorem Alike.trans (h : s.Alike s') (h' : s'.Alike s'') : s.Alike s'' where
  hosts := h'.hosts.trans h.hosts
  targetMounts := h'.targetMounts.trans h.targetMounts
  luns := h'.luns.trans h.luns
  lunNodes := h'.lunNodes.trans h.lunNodes
  filesystems := h'.filesystems.trans h.filesystems
  confParams := h'.confParams.trans h.confParams

theorem Agree.refl (X : Cell → Prop) (s : Store) : s.Agree X s := ⟨.refl s, fun _ _ => rfl⟩

/-- The footprint of a step hangs on what is alike. -/
theorem Alike.footprint (h : s.Alike s') (k : Step.StepKind) : k.footprint s' = k.footprint s := by
  cases k with
  | registerTarget | configurePacemaker | confParam =>
    simp only [Step.StepKind.footprint, Step.labelOfMount, h.targetMounts, h.confParams]
  | _ => rfl

/-- **Stores that agree in every cell are the same.** -/
theorem Agree.eq (h : s.Agree (fun _ => True) s') : s' = s := by
  have htargets : s'.targets = s.targets := Table.ext_key fun t => h.cells (.label t.id) trivial
  have hmgs : s'.mgs = s.mgs := Table.ext_key fun m => h.cells (.version m.target) trivial
  obtain ⟨hosts, targets, targetMounts, luns, lunNodes, filesystems, mgs, confParams⟩ := s
  obtain ⟨⟨rfl, rfl, rfl, rfl, rfl, rfl⟩, _⟩ := h
  cases htargets
  cases hmgs
  rfl

/-! ### Calls within a footprint -/

/-- The call reads and writes within the footprint. -/
def Call.Within (F : Footprint) : Call → Prop
  | .target id => .label id ∈ F.touches
  | .mgs id => .version id ∈ F.touches
  | .setTargetName id _ => .label id ∈ F.writes
  | .setVersionApplied id _ => .version id ∈ F.writes
  | .setBlockDevice .. | .createLunNode .. | .attachLun .. | .createLun _ | .setLunUuid .. => False
  | _ => True

/-- Both answers are the same refusal, or the same answer, and then the stores agree. -/
inductive Matches (X : Cell → Prop) {α : Type} :
    Except Stop (α × Store) → Except Stop (α × Store) → Prop
  | refused (r : Refusal) : Matches X (.error (.refused r)) (.error (.refused r))
  | answered (a : α) {s v : Store} (h : s.Agree X v) : Matches X (.ok (a, s)) (.ok (a, v))

namespace Matches

variable {α : Type} {y : Except Stop (α × Store)}

theorem of_ok {a : α} (h : Matches X (.ok (a, s)) y) : ∃ v, y = .ok (a, v) ∧ s.Agree X v := by
  cases h with
  | answered _ h => exact ⟨_, rfl, h⟩

theorem of_refused {r : Refusal} (h : Matches X (.error (.refused r)) y) : y = .error (.refused r) := by
  cases h
  rfl

theorem not_exhausted : ¬ Matches X (.error .exhausted) y := nofun

end Matches

theorem Agree.reading {α : Type} {x : Except Stop α} (h : s.Agree X v) (hx : x ≠ .error .exhausted) :
    Matches X (s.reading x) (v.reading x) := by
  rcases x with (r | _) | a
  · exact .refused r
  · exact absurd rfl hx
  · exact .answered a h

/-- The same target is put into both. -/
theorem Agree.targetPut (h : s.Agree X v) (t : Target) :
    Agree X { s with targets := s.targets.insert t } { v with targets := v.targets.insert t } := by
  refine { h with cells := fun x hx => ?_ }
  cases x with
  | version m => exact h.cells (.version m) hx
  | label t' => exact Table.find?_insert_congr t (h.cells (.label t') hx)

/-- The same version is put into both. -/
theorem Agree.mgsPut (h : s.Agree X v) (m : Mgs) :
    Agree X { s with mgs := s.mgs.insert m } { v with mgs := v.mgs.insert m } := by
  refine { h with cells := fun x hx => ?_ }
  cases x with
  | label t => exact h.cells (.label t) hx
  | version m' => exact Table.find?_insert_congr m (h.cells (.version m') hx)

theorem fetch_congr {α : Type} [Keyed α] {kind : Kind} {table table' : Table α} {label : Kind}
    {id : Id kind} (h : table'.find? id.key = table.find? id.key) :
    fetch table' label id = fetch table label id := by
  unfold fetch
  rw [h]

/-- **A call within a footprint does the same on stores that agree on it.** -/
theorem Agree.handle {c : Call} (within : c.Within F) (h : s.Agree (· ∈ F.touches) v) :
    Matches (· ∈ F.touches) (s.handle c) (v.handle c) := by
  cases c with
  | host | targetMount | lunNode | lun | filesystem | confParam =>
    unfold Store.handle
    simp only [h.hosts, h.targetMounts, h.lunNodes, h.luns, h.filesystems, h.confParams]
    exact h.reading fetch_ne_exhausted
  | targetMounts | findLunNode =>
    unfold Store.handle
    simp only [h.targetMounts, h.lunNodes]
    exact h.reading (by simp)
  | target id =>
    unfold Store.handle
    simp only [fetch_congr (h.cells (.label id) within)]
    exact h.reading fetch_ne_exhausted
  | mgs id =>
    unfold Store.handle
    simp only [fetch_congr (h.cells (.version id) within)]
    exact h.reading fetch_ne_exhausted
  | setTargetName id name =>
    have hcell : v.targets.find? id.key = s.targets.find? id.key :=
      h.cells (.label id) (Footprint.touches_of_writes within)
    show Matches _ (s.setTargetName id name) (v.setTargetName id name)
    unfold Store.setTargetName fetch
    rw [hcell]
    cases s.targets.find? id.key with
    | none => exact .refused _
    | some t => exact .answered () (h.targetPut _)
  | setVersionApplied id version =>
    have hcell : v.mgs.find? id.key = s.mgs.find? id.key :=
      h.cells (.version id) (Footprint.touches_of_writes within)
    show Matches _ (s.setVersionApplied id version) (v.setVersionApplied id version)
    unfold Store.setVersionApplied fetch
    rw [hcell]
    cases s.mgs.find? id.key with
    | none => exact .refused _
    | some m => exact .answered () (h.mgsPut _)
  | setBlockDevice | createLunNode | attachLun | createLun | setLunUuid => exact within.elim

/-- **A call changes no cell that its footprint does not write.** -/
theorem Agree.spared {c : Call} {a : c.Answer} (within : c.Within F) (h : s.Agree X v)
    (spared : ∀ x ∈ F.writes, ¬ X x) (hc : s.handle c = .ok (a, s')) : s'.Agree X v := by
  cases effect_of_handle hc with
  | nothing => exact h
  | @targetNamed id name t ht =>
    refine { h with cells := fun x hx => ?_ }
    cases x with
    | version m => exact h.cells (.version m) hx
    | label t' =>
      have hne : key { t with name := some name } ≠ t'.key := by
        intro he
        obtain rfl : id = t' := Id.key_injective ((Table.key_of_find? ht).symm.trans he)
        exact spared _ within hx
      exact (h.cells (.label t') hx).trans (Table.find?_insert_of_ne _ hne).symm
  | @versionSet id version m hm =>
    refine { h with cells := fun x hx => ?_ }
    cases x with
    | label t => exact h.cells (.label t) hx
    | version m' =>
      have hne : key { m with versionApplied := version } ≠ m'.key := by
        intro he
        obtain rfl : id = m' := Id.key_injective ((Table.key_of_find? hm).symm.trans he)
        exact spared _ within hx
      exact (h.cells (.version m') hx).trans (Table.find?_insert_of_ne _ hne).symm
  | deviceSet | nodeMade | lunAttached | lunMade | uuidSet => exact within.elim

/-- What is not in cells stays. -/
theorem Call.Within.alike {c : Call} {a : c.Answer} (within : c.Within F)
    (hc : s.handle c = .ok (a, s')) : s.Alike s' :=
  ((Agree.refl (fun _ => False) s).spared within (fun _ _ => id) hc).toAlike.symm

end Store

end FleetJobs
