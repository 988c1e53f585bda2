import FleetJobs.Proofs.InventoryRecords
import FleetJobs.Proofs.SavedFiles
import FleetJobs.Proofs.Tables

/-! Inventories in their files.

What an inventory is written as is read as the inventory, whatever its texts and numbers are
(`Fleet.Inventory.decode_write`), and a file holds what was saved in it. A store keeps of every
table the last record of each number, in the order of the numbers (`Store.IsSnapshot`), and
so it is the same store that is made from its own records (`Store.ofInventory_toInventory`). From
this on nothing changes: loading and saving again leaves the file as it is
(`inventories_survive`). -/
namespace FleetJobs

open FleetJobs.Fleet
open FleetJobs.Files

namespace Fleet.Inventory

/-- **The text of an inventory is read as the inventory.** -/
theorem read_write (i : Inventory) : Yaml.read reader (Yaml.write i.toDatum) = .ok i := by
  have hreads : reader.Reads Yaml.IsSure 4 i.toDatum i := i.reads_toDatum
  exact Yaml.read_write hreads i.tidy_toDatum (by decide)

theorem decode_write (i : Inventory) : decode reader (Yaml.write i.toDatum).toUTF8 = .ok i := by
  rw [decode_toUTF8, i.read_write]
  rfl

end Fleet.Inventory

namespace Store

open Keyed (key)

/-- Of the listed records the last of each key, in ascending order of the keys. -/
structure LastOfEach {α : Type} [Keyed α] (listed records : List α) : Prop where
  ascending : Ascending records
  last : ∀ k, (records.find? fun r => key r == k) = (listed.filter fun r => key r == k).getLast?

theorem lastOfEach_ofList {α : Type} [Keyed α] (rs : List α) : LastOfEach rs (Table.ofList rs).records :=
  ⟨(Table.ofList rs).ascending, Table.find?_ofList rs⟩

/-- Each table of the snapshot holds of every key the last record that the inventory lists. -/
structure IsSnapshot (i snapshot : Inventory) : Prop where
  hosts : LastOfEach i.hosts snapshot.hosts
  targets : LastOfEach i.targets snapshot.targets
  targetMounts : LastOfEach i.targetMounts snapshot.targetMounts
  luns : LastOfEach i.luns snapshot.luns
  lunNodes : LastOfEach i.lunNodes snapshot.lunNodes
  filesystems : LastOfEach i.filesystems snapshot.filesystems
  mgs : LastOfEach i.mgs snapshot.mgs
  confParams : LastOfEach i.confParams snapshot.confParams

theorem isSnapshot_ofInventory (i : Inventory) : IsSnapshot i (ofInventory i).toInventory :=
  ⟨lastOfEach_ofList _, lastOfEach_ofList _, lastOfEach_ofList _, lastOfEach_ofList _, lastOfEach_ofList _,
    lastOfEach_ofList _, lastOfEach_ofList _, lastOfEach_ofList _⟩

/-- A store is made again from its own records. -/
theorem ofInventory_toInventory (s : Store) : ofInventory s.toInventory = s := by
  simp only [ofInventory, toInventory, Table.ofList_records]

end Store

section

variable {path : String} {d d' : Directory} {i : Inventory}

theorem read_of_savedInventory (h : (saveInventory path i).run d = some (.ok (), d')) :
    d'.read path = .ok (Yaml.write i.toDatum).toUTF8 := read_of_saved h

theorem load_of_savedInventory (h : (saveInventory path i).run d = some (.ok (), d')) :
    (loadInventory path).run d' = some (.ok i, d') := by
  have hrun := run_loadAs Inventory.reader (read_of_savedInventory h)
  rw [i.decode_write] at hrun
  exact hrun

theorem inventory_saved_again (h : (saveInventory path i).run d = some (.ok (), d')) :
    ∃ d'', (saveInventory path i).run d' = some (.ok (), d'') := saved_again h _

end

/-- **Saving and loading loses nothing.** The text of an inventory is read as the inventory, and
what was saved in a file is loaded from it. The store of an inventory holds in each table the
last record of every key, in ascending order of the keys; when that is saved and loaded, the
store is the same again, and saving it once more leaves every byte of the file as it was. -/
theorem inventories_survive (i : Inventory) :
    decode Inventory.reader (Yaml.write i.toDatum).toUTF8 = .ok i ∧
    (∀ path d d₁, (saveInventory path i).run d = some (.ok (), d₁) →
      (loadInventory path).run d₁ = some (.ok i, d₁)) ∧
    Store.IsSnapshot i (Store.ofInventory i).toInventory ∧
    ∀ path d d₁, (saveInventory path (Store.ofInventory i).toInventory).run d = some (.ok (), d₁) →
      ∃ content reloaded d₂, d₁.read path = .ok content ∧
        (loadInventory path).run d₁ = some (.ok reloaded, d₁) ∧
        Store.ofInventory reloaded = Store.ofInventory i ∧
        (saveInventory path (Store.ofInventory reloaded).toInventory).run d₁ = some (.ok (), d₂) ∧
        d₂.read path = .ok content := by
  refine ⟨i.decode_write, fun _ _ _ h => load_of_savedInventory h, Store.isSnapshot_ofInventory i,
    fun path d d₁ h => ?_⟩
  have hstore := Store.ofInventory_toInventory (Store.ofInventory i)
  obtain ⟨d₂, hsave⟩ := inventory_saved_again h
  refine ⟨_, _, d₂, read_of_savedInventory h, load_of_savedInventory h, hstore, ?_,
    read_of_savedInventory hsave⟩
  rw [hstore]
  exact hsave

/-- Two records of one host, with texts that look like something else. -/
theorem host_listed_twice_survives :
    let i : Inventory := {
      hosts := [⟨⟨2⟩, "null", some 22, some "", .up, none, ["0x10", "~", " x"]⟩,
        ⟨⟨1⟩, "", none, none, .down, none, []⟩, ⟨⟨2⟩, "1e3", none, some "true", .unloaded, none, ["no: "]⟩]
      targets := [⟨⟨7⟩, .mdt ⟨3⟩, some "012"⟩] }
    let store := Store.ofInventory i
    (store.toInventory.hosts.map fun h => (h.id.key, h.address)) = [(1, ""), (2, "1e3")] ∧
    ∃ d₁ d₂ d₃ content, (saveInventory "fleet.yaml" i).run .empty = some (.ok (), d₁) ∧
      (loadInventory "fleet.yaml").run d₁ = some (.ok i, d₁) ∧
      (saveInventory "fleet.yaml" store.toInventory).run d₁ = some (.ok (), d₂) ∧
      d₂.read "fleet.yaml" = .ok content ∧
      ∃ reloaded, (loadInventory "fleet.yaml").run d₂ = some (.ok reloaded, d₂) ∧
        (saveInventory "fleet.yaml" (Store.ofInventory reloaded).toInventory).run d₂ = some (.ok (), d₃) ∧
        d₃.read "fleet.yaml" = .ok content := by
  intro i store
  have hpath : Directory.empty.Leads "fleet.yaml" ["fleet.yaml"] :=
    Directory.leads_of_isName (by decide +kernel) nofun
  have hdraft : Directory.empty.Leads (draftOf "fleet.yaml") [draftOf "fleet.yaml"] :=
    Directory.leads_of_isName (by decide +kernel) nofun
  have hsave : (saveInventory "fleet.yaml" i).run .empty = _ := run_save_of_leads hdraft hpath _
  obtain ⟨d₂, hsave'⟩ := saved_again hsave (Yaml.write store.toInventory.toDatum)
  obtain ⟨_, hload, _, hcycle⟩ := inventories_survive i
  obtain ⟨content, reloaded, d₃, hcontent, hreload, _, hsaved, hread⟩ := hcycle _ _ _ hsave'
  exact ⟨by decide +kernel, _, d₂, d₃, content, hsave, hload _ _ _ hsave, hsave', hcontent, reloaded, hreload,
    hsaved, hread⟩

end FleetJobs
