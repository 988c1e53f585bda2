/-! Tables of records in ascending order of their keys, one record a key.

`insert` puts a record in the place of its key, over any record that is there, so a
table made from a list keeps the last record of every key. What a table holds is
told by `find?`; the lemmas say what each operation does to it. -/
namespace FleetJobs.Store

/-- A record that goes by a number. -/
class Keyed (α : Type) where
  key : α → Nat

open Keyed (key)

variable {α : Type} [Keyed α]

/-- Keys grow from front to back. -/
def Ascending (rs : List α) : Prop := rs.Pairwise fun a b => key a < key b

structure Table (α : Type) [Keyed α] where
  records : List α
  ascending : Ascending records

/-- The records with one more, in the place of its key. -/
def place (r : α) : List α → List α
  | [] => [r]
  | x :: rest =>
    if key r < key x then r :: x :: rest
    else if key r = key x then r :: rest
    else x :: place r rest

theorem mem_place {r a : α} {rs : List α} (h : a ∈ place r rs) : a = r ∨ a ∈ rs := by
  induction rs with
  | nil => exact .inl (List.mem_singleton.mp h)
  | cons x rest ih =>
    simp only [place] at h
    split at h
    · rcases List.mem_cons.mp h with h | h
      · exact .inl h
      · exact .inr h
    · split at h
      · rcases List.mem_cons.mp h with h | h
        · exact .inl h
        · exact .inr (.tail _ h)
      · rcases List.mem_cons.mp h with h | h
        · exact .inr (h ▸ .head _)
        · exact (ih h).imp id (.tail _)

theorem ascending_place (r : α) {rs : List α} (h : Ascending rs) : Ascending (place r rs) := by
  induction rs with
  | nil => exact .cons (fun _ h => absurd h List.not_mem_nil) .nil
  | cons x rest ih =>
    obtain ⟨hx, hrest⟩ := List.pairwise_cons.mp h
    simp only [place]
    split
    · rename_i hlt
      refine List.pairwise_cons.mpr ⟨fun a ha => ?_, h⟩
      rcases List.mem_cons.mp ha with rfl | ha
      · exact hlt
      · exact Nat.lt_trans hlt (hx a ha)
    · split
      · rename_i heq
        exact List.pairwise_cons.mpr ⟨fun a ha => heq ▸ hx a ha, hrest⟩
      · rename_i hlt hne
        refine List.pairwise_cons.mpr ⟨fun a ha => ?_, ih hrest⟩
        rcases mem_place ha with rfl | ha
        · omega
        · exact hx a ha

namespace Table

instance [DecidableEq α] : DecidableEq (Table α) := fun a b =>
  if h : a.records = b.records then
    .isTrue (by cases a; cases b; cases h; rfl)
  else .isFalse fun hab => h (hab ▸ rfl)

theorem ext {a b : Table α} (h : a.records = b.records) : a = b := by
  cases a; cases b; cases h; rfl

def empty : Table α := ⟨[], .nil⟩

instance : Inhabited (Table α) := ⟨empty⟩

def insert (t : Table α) (r : α) : Table α := ⟨place r t.records, ascending_place r t.ascending⟩

def ofList (rs : List α) : Table α := rs.foldl insert empty

def find? (t : Table α) (k : Nat) : Option α := t.records.find? fun r => key r == k

def contains (t : Table α) (k : Nat) : Bool := (t.find? k).isSome

/-- The records that pass a test, in order of their keys. -/
def filter (t : Table α) (p : α → Bool) : List α := t.records.filter p

def any (t : Table α) (p : α → Bool) : Bool := t.records.any p

/-- The key after the highest one; one if there is none. -/
def nextKey (t : Table α) : Nat :=
  match t.records.getLast? with
  | some r => key r + 1
  | none => 1

@[simp] theorem records_insert (t : Table α) (r : α) : (t.insert r).records = place r t.records :=
  rfl

end Table

theorem find?_place_self (r : α) (rs : List α) :
    (place r rs).find? (fun x => key x == key r) = some r := by
  induction rs with
  | nil => simp [place]
  | cons x rest ih =>
    simp only [place]
    split
    · simp
    · split
      · simp
      · rename_i h
        rw [List.find?_cons_of_neg (by simpa using fun e => h e.symm)]
        exact ih

theorem find?_place_ne {r : α} {k : Nat} (h : key r ≠ k) (rs : List α) :
    (place r rs).find? (fun x => key x == k) = rs.find? fun x => key x == k := by
  induction rs with
  | nil => simp [place, h]
  | cons x rest ih =>
    simp only [place]
    split
    · rw [List.find?_cons_of_neg (by simpa using h)]
    · split
      · rename_i e
        rw [List.find?_cons_of_neg (by simpa using h),
          List.find?_cons_of_neg (by simpa using fun e' => h (e.trans e'))]
      · simp only [List.find?_cons, ih]

namespace Table

/-- **A table with a record put in holds that record under its key and is otherwise
the same.** -/
theorem find?_insert (t : Table α) (r : α) (k : Nat) :
    (t.insert r).find? k = if key r = k then some r else t.find? k := by
  split
  · rename_i h
    subst h
    exact find?_place_self r t.records
  · rename_i h
    exact find?_place_ne h t.records

theorem key_of_find? {t : Table α} {k : Nat} {r : α} (h : t.find? k = some r) : key r = k := by
  simpa using List.find?_some h

end Table

end FleetJobs.Store
