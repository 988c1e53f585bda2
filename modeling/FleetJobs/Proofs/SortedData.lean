import FleetJobs.Proofs.Readback

/-! Data with its maps sorted by name.

Where every map has names for keys and no name twice, sorting the maps changes the order of
their entries and nothing else. So readers take the sorted data for what the data was. -/
namespace FleetJobs.Data

/-- Every map has names for keys, and no name twice. -/
inductive Datum.Regular : Datum → Prop
  | null : Regular .null
  | boolean {b : Bool} : Regular (.boolean b)
  | integer {i : Int} : Regular (.integer i)
  | real {x : Decimal.Double} : Regular (.real x)
  | text {t : String} : Regular (.text t)
  | list {ds : List Datum} (items : ∀ d ∈ ds, Regular d) : Regular (.list ds)
  | record {entries : List (String × Datum)} (once : Once entries)
    (values : ∀ e ∈ entries, Regular e.2) : Regular (.record entries)

attribute [simp] Datum.Regular.boolean Datum.Regular.integer Datum.Regular.text

@[simp] theorem Datum.regular_natural (n : Nat) : (Datum.natural n).Regular := .integer

theorem Datum.Regular.optional {write : α → Datum} (h : ∀ a, (write a).Regular) (x : Option α) :
    (Datum.optional write x).Regular := by
  cases x with
  | none => exact .null
  | some a => exact h a

namespace Node

open Datum

variable {sure : String → Prop}

/-- A new entry is put somewhere among the sorted ones. -/
theorem shows_putEntry {name : String} {v d : Datum} (hv : (ofDatum v).Shows sure d)
    {soFar : List (Datum × Datum)} {entries : List (String × Datum)}
    (h : ShowsEntries sure (ofEntries soFar) (entries.map named)) (fresh : name ∉ entries.map (·.1)) :
    ∃ entries' : List (String × Datum),
      ShowsEntries sure (ofEntries (putEntry (.text name) v soFar)) (entries'.map named) ∧
      entries'.Perm ((name, d) :: entries) := by
  induction entries generalizing soFar with
  | nil =>
    obtain rfl := ofEntries_nil h
    exact ⟨[(name, d)], .cons .text hv .nil, .refl _⟩
  | cons e entries ih =>
    obtain ⟨first, rest, rfl, hfirst, hrest⟩ := ofEntries_cons h
    obtain ⟨hother, hfresh⟩ := not_or.mp (List.mem_cons.not.mp fresh)
    have hname : ¬(text name).keyName = (text e.1).keyName := hother
    obtain ⟨entries', hentries', horder⟩ := ih hrest hfresh
    unfold putEntry
    split
    · exact ⟨(name, d) :: e :: entries, .cons .text hv h, .refl _⟩
    · exact ⟨e :: entries', .cons .text hfirst hentries', (horder.cons e).trans (.swap _ _ _)⟩

theorem shows_sortedEntries {entries : List (String × Datum)}
    (values : ∀ e ∈ entries, (ofDatum e.2.sorted).Shows sure e.2) (once : Once entries)
    {soFar : List (Datum × Datum)} {before : List (String × Datum)}
    (h : ShowsEntries sure (ofEntries soFar) (before.map named))
    (fresh : ∀ e ∈ entries, e.1 ∉ before.map (·.1)) :
    ∃ entries' : List (String × Datum),
      ShowsEntries sure (ofEntries (sortedEntries soFar (entries.map named))) (entries'.map named) ∧
      entries'.Perm (before ++ entries) := by
  induction entries generalizing soFar before with
  | nil => exact ⟨before, h, by simp⟩
  | cons e entries ih =>
    obtain ⟨name, d⟩ := e
    obtain ⟨hvalue, hvalues⟩ := List.forall_mem_cons.mp values
    obtain ⟨hfirst, hfresh⟩ := List.forall_mem_cons.mp fresh
    obtain ⟨hnew, honce⟩ := List.nodup_cons.mp once
    obtain ⟨before', hbefore', horder⟩ := shows_putEntry hvalue h hfirst
    have hnames : (before'.map (·.1)).Perm (name :: before.map (·.1)) := horder.map _
    have hfresh' : ∀ e ∈ entries, e.1 ∉ before'.map (·.1) := by
      intro e he hmem
      rcases List.mem_cons.mp (hnames.subset hmem) with heq | hold
      · exact hnew (List.mem_map.mpr ⟨e, he, heq⟩)
      · exact hfresh e he hold
    obtain ⟨entries', hentries', horder'⟩ := ih hvalues honce hbefore' hfresh'
    exact ⟨entries', hentries',
      horder'.trans ((horder.append_right entries).trans List.perm_middle.symm)⟩

theorem shows_sortedItems {ds : List Datum} (h : ∀ d ∈ ds, (ofDatum d.sorted).Shows sure d) :
    ShowsItems sure (ofItems (sortedItems ds)) ds := by
  induction ds with
  | nil => exact .nil
  | cons d ds ih =>
    obtain ⟨hd, hds⟩ := List.forall_mem_cons.mp h
    exact .cons hd (ih hds)

/-- **Sorting the maps of data changes nothing for readers.** -/
theorem shows_sorted {d : Datum} (h : d.Regular) : (ofDatum d.sorted).Shows sure d := by
  induction h with
  | null => exact .null
  | boolean => exact .boolean
  | integer => exact .integer
  | real => exact .real
  | text => exact .text
  | list _ ih => exact .list (shows_sortedItems ih)
  | record once _ ih =>
    have hempty : ShowsEntries sure (ofEntries []) (([] : List (String × Datum)).map named) := .nil
    obtain ⟨entries', hentries', horder⟩ :=
      shows_sortedEntries ih once hempty fun _ _ => List.not_mem_nil
    exact .map hentries' (horder.map named)

/-- Data that shows entries has their names and their texts. -/
theorem named_of_shows {ds : List (Datum × Datum)} {entries : List (String × Datum)}
    (h : ShowsEntries sure (ofEntries ds) (entries.map named)) :
    ∃ entries' : List (String × Datum), ds = entries'.map named ∧
      entries'.map (·.1) = entries.map (·.1) ∧ ∀ name t, entries.lookup name = some (.text t) →
        entries'.lookup name = some (.text t) := by
  induction entries generalizing ds with
  | nil =>
    obtain rfl := ofEntries_nil h
    exact ⟨[], rfl, rfl, fun _ _ h => h⟩
  | cons e entries ih =>
    obtain ⟨d, rest, rfl, hd, hrest⟩ := ofEntries_cons h
    obtain ⟨entries', rfl, hnames, htexts⟩ := ih hrest
    refine ⟨(e.1, d) :: entries', rfl, congrArg (e.1 :: ·) hnames, fun name t ht => ?_⟩
    rw [List.lookup_cons] at ht ⊢
    cases hname : name == e.1 with
    | true =>
      simp only [hname, Option.some.injEq] at ht ⊢
      exact eq_text_of_shows (ht ▸ hd)
    | false =>
      simp only [hname] at ht ⊢
      exact htexts name t ht

/-- Sorted, a record has the texts that it had. -/
theorem sorted_record {entries : List (String × Datum)} (h : (Datum.record entries).Regular)
    (once : Once entries) :
    ∃ entries' : List (String × Datum), (Datum.record entries).sorted = .record entries' ∧
      Once entries' ∧ ∀ name t, entries.lookup name = some (.text t) →
        entries'.lookup name = some (.text t) := by
  have hshows : (ofDatum (Datum.record entries).sorted).Shows InQuotes (.record entries) := shows_sorted h
  obtain ⟨ds, all, heq, hds, horder⟩ := eq_map_of_shows hshows
  obtain ⟨entries', rfl, hnames, htexts⟩ := named_of_shows hds
  have hall : (all.map (·.1)).Perm (entries.map (·.1)) := horder.map _
  refine ⟨entries', heq, ?_, fun name t ht => htexts name t ?_⟩
  · rw [Once, hnames]
    exact hall.nodup_iff.mpr once
  · rw [lookup_of_perm horder once, ht]

end Node

end FleetJobs.Data
