import FleetJobs.Proofs.DeviceSearch
import FleetJobs.Proofs.JsonTrees
import FleetJobs.Proofs.Readback

/-! What an answer about a device tells.

What an answer tells is said of its tree (`Command.Locates`): which value counts as the path, the
size and the flag, in a map of which the last entry of a name counts, or in a list. An answer is
read as a location exactly if its tree tells that one, as none exactly if it says nothing at all,
and is refused otherwise (`device_answers_are_read_exactly`). The flag may be told in two ways, as
a boolean and as a number; a search that is answered in one way leaves the store that it leaves if
it is answered in the other (`Step.findDevice_reworded`). -/
namespace FleetJobs

open FleetJobs.Command
open FleetJobs.Data
open FleetJobs.Fleet
open FleetJobs.Gateway
open FleetJobs.Step (StepKind)

/-! ### Sorted maps -/

namespace Data.Datum

/-- Names grow from front to back. -/
def Growing (entries : List (String × Datum)) : Prop := entries.Pairwise fun a b => a.1 < b.1

theorem Growing.once {entries : List (String × Datum)} (h : Growing entries) : Once entries :=
  List.pairwise_map.mpr (h.imp fun hlt => ne_of_lt hlt)

theorem lookup_cons_eq (e : String × Datum) (rest : List (String × Datum)) (m : String) :
    (e :: rest).lookup m = if m = e.1 then some e.2 else rest.lookup m := by
  obtain ⟨name, v⟩ := e
  by_cases hm : m = name
  · simp [hm]
  · simp [List.lookup_cons, beq_eq_false_iff_ne.mpr hm, hm]

theorem putEntry_growing (name : String) (v : Datum) {entries : List (String × Datum)}
    (h : Growing entries) :
    ∃ entries' : List (String × Datum),
      putEntry (.text name) v (entries.map named) = entries'.map named ∧ Growing entries' ∧
      (∀ e ∈ entries', e.1 = name ∨ ∃ e' ∈ entries, e'.1 = e.1) ∧
      ∀ m, entries'.lookup m = if m = name then some v else entries.lookup m := by
  induction entries with
  | nil =>
    exact ⟨[(name, v)], rfl, List.pairwise_singleton _ _, by simp, fun m => lookup_cons_eq _ [] m⟩
  | cons e rest ih =>
    obtain ⟨hfirst, hrest⟩ := List.pairwise_cons.mp h
    show ∃ entries' : List (String × Datum), (if name < e.1 then _ else if name = e.1 then _ else _) =
      entries'.map named ∧ _
    split
    · rename_i hlt
      refine ⟨(name, v) :: e :: rest, rfl, List.pairwise_cons.mpr ⟨?_, h⟩, ?_, lookup_cons_eq _ _⟩
      · exact List.forall_mem_cons.mpr ⟨hlt, fun b hb => hlt.trans (hfirst b hb)⟩
      · exact List.forall_mem_cons.mpr ⟨.inl rfl, fun e' he' => .inr ⟨e', he', rfl⟩⟩
    · split
      · rename_i heq
        refine ⟨(name, v) :: rest, rfl, List.pairwise_cons.mpr ⟨heq ▸ hfirst, hrest⟩, ?_, fun m => ?_⟩
        · exact List.forall_mem_cons.mpr ⟨.inl rfl, fun e' he' => .inr ⟨e', .tail _ he', rfl⟩⟩
        · rw [lookup_cons_eq, lookup_cons_eq, heq]
          split <;> rfl
      · rename_i hlt hne
        obtain ⟨entries', heq, hgrowing, hmem, hlookup⟩ := ih hrest
        have hbehind : e.1 < name := lt_of_le_of_ne (not_lt.mp hlt) (Ne.symm hne)
        refine ⟨e :: entries', congrArg (named e :: ·) heq, List.pairwise_cons.mpr ⟨fun b hb => ?_,
          hgrowing⟩, ?_, fun m => ?_⟩
        · rcases hmem b hb with hb | ⟨b', hb', hb⟩
          · exact hb ▸ hbehind
          · exact hb ▸ hfirst b' hb'
        · refine List.forall_mem_cons.mpr ⟨.inr ⟨e, .head _, rfl⟩, fun b hb => ?_⟩
          exact (hmem b hb).imp_right fun ⟨b', hb', h⟩ => ⟨b', .tail _ hb', h⟩
        · rw [lookup_cons_eq, lookup_cons_eq, hlookup]
          by_cases hm : m = name
          · simp [hm, hne]
          · simp [hm]

/-- **Sorted, a map has under every name what the last entry of that name had.** -/
theorem sortedEntries_growing (entries : List (String × Datum)) {before : List (String × Datum)}
    (h : Growing before) :
    ∃ entries' : List (String × Datum),
      sortedEntries (before.map named) (entries.map named) = entries'.map named ∧ Growing entries' ∧
      ∀ m, entries'.lookup m = ((entries.reverse.lookup m).map sorted).or (before.lookup m) := by
  induction entries generalizing before with
  | nil => exact ⟨before, rfl, h, fun m => rfl⟩
  | cons e rest ih =>
    obtain ⟨before', heq, hgrowing, _, hbefore'⟩ := putEntry_growing e.1 e.2.sorted h
    obtain ⟨entries', hsorted, hgrowing', hlookup⟩ := ih hgrowing
    refine ⟨entries', ?_, hgrowing', fun m => ?_⟩
    · rw [← hsorted, ← heq]
      rfl
    · rw [hlookup, hbefore', List.reverse_cons, List.lookup_append, lookup_cons_eq, Option.map_or,
        Option.or_assoc]
      by_cases hm : m = e.1 <;> simp [hm]

theorem record_injective : Function.Injective record := by
  intro entries entries' h
  refine List.map_injective_iff.mpr (fun e e' he => ?_) (Datum.map.inj h)
  obtain ⟨hname, hvalue⟩ := Prod.mk.inj he
  exact Prod.ext (Datum.text.inj hname) hvalue

theorem sorted_record_last (entries : List (String × Datum)) :
    ∃ entries' : List (String × Datum), (record entries).sorted = record entries' ∧ Once entries' ∧
      ∀ m, entries'.lookup m = (entries.reverse.lookup m).map sorted := by
  obtain ⟨entries', heq, hgrowing, hlookup⟩ := sortedEntries_growing entries (.nil : Growing [])
  exact ⟨entries', congrArg Datum.map heq, hgrowing.once, fun m => by simpa using hlookup m⟩

end Data.Datum

/-! ### What counts as a location -/

namespace Command

/-- A value that is given and means this, or none given where there is something instead. -/
inductive Told {α : Type} (means : Datum → α → Prop) (absent : Option α) : Option Datum → α → Prop
  | given {d : Datum} {a : α} (h : means d a) : Told means absent (some d) a
  | left {a : α} (h : absent = some a) : Told means absent none a

def MeansText (d : Datum) (t : String) : Prop := d = .text t

/-- An integer that fits 64 bits without a sign. -/
def MeansSize (d : Datum) (n : UInt64) : Prop := d = .integer n.toNat

/-- A boolean, or an integer that fits 64 bits, which is zero for no. -/
def MeansFlag (d : Datum) (b : Bool) : Prop :=
  d = .boolean b ∨ ∃ i, d = .integer i ∧ Json.Fits i ∧ b = (i != 0)

/-- The values for the three fields tell the location. Only the path must be there. -/
structure TellsFields (path size used : Option Datum) (l : DeviceLocation) : Prop where
  path : Told MeansText none path l.path
  size : Told MeansSize (some 0) size l.size
  used : Told MeansFlag (some false) used l.used

/-- The data tells the location: as a map, of which the last entry of a name counts and entries of
other names mean nothing, or as a list of one to three values. -/
inductive Locates : Datum → DeviceLocation → Prop
  | named {entries : List (String × Datum)} {l : DeviceLocation}
    (fields : TellsFields (entries.reverse.lookup "path") (entries.reverse.lookup "size")
      (entries.reverse.lookup "used") l) : Locates (.record entries) l
  | listed {ds : List Datum} {l : DeviceLocation} (few : ds.length ≤ 3)
    (fields : TellsFields ds[0]? ds[1]? ds[2]? l) : Locates (.list ds) l

theorem locates_record {entries : List (String × Datum)} {l : DeviceLocation} :
    Locates (.record entries) l ↔ TellsFields (entries.reverse.lookup "path")
      (entries.reverse.lookup "size") (entries.reverse.lookup "used") l := by
  refine ⟨fun h => ?_, .named⟩
  generalize hd : Datum.record entries = d at h
  cases h with
  | named h => exact Datum.record_injective hd ▸ h
  | listed => cases hd

theorem locates_list {ds : List Datum} {l : DeviceLocation} :
    Locates (.list ds) l ↔ ds.length ≤ 3 ∧ TellsFields ds[0]? ds[1]? ds[2]? l := by
  refine ⟨fun h => ?_, fun h => .listed h.1 h.2⟩
  generalize hd : Datum.list ds = d at h
  cases h with
  | named => cases hd
  | listed few fields =>
    cases hd
    exact ⟨few, fields⟩

/-- The answer is blank, or null, or a map of nothing. -/
def TellsNowhere (answer : String) : Prop :=
  Text.allBlank answer = true ∨ Json.readTree answer = .ok .null ∨ Json.readTree answer = .ok (.map [])

end Command

/-! ### Fields of a tree -/

namespace Data

/-- Of plain data, sorted as trees are, the reader takes what means something to it. -/
def Reader.Exact {α : Type} (r : Reader α) (means : Datum → α → Prop) : Prop :=
  ∀ (s : Setting) (d : Datum) (a : α), d.Plain → (r s (.ofDatum d.sorted) = .ok a ↔ means d a)

namespace Reader

theorem exact_text : text.Exact MeansText := by
  intro s d a _
  cases d <;> simp [text, textFor, Node.ofDatum, Node.ofAtom, Datum.sorted, MeansText]

theorem exact_uint64 : uint64.Exact MeansSize := by
  intro s d a _
  cases d with
  | integer i =>
    have hread : uint64 s (.ofDatum (Datum.integer i).sorted) = .ok a ↔
        (0 ≤ i ∧ i ≤ 18446744073709551615) ∧ UInt64.ofNat i.toNat = a := by
      show (fun i : Int => UInt64.ofNat i.toNat) <$>
        (if 0 ≤ i ∧ i ≤ 18446744073709551615 then .ok i else .error _ : Except ReadError Int) = .ok a ↔ _
      split
      · rename_i h
        exact ⟨fun ha => ⟨h, Except.ok.inj ha⟩, fun ha => congrArg Except.ok ha.2⟩
      · rename_i h
        exact ⟨nofun, fun ha => absurd ha.1 h⟩
    rw [hread, MeansSize, Datum.integer.injEq]
    constructor
    · rintro ⟨h, rfl⟩
      rw [UInt64.toNat_ofNat_of_lt' (by unfold UInt64.size; omega)]
      omega
    · rintro rfl
      have hlt := a.toNat_lt
      exact ⟨by omega, by simp⟩
  | _ => simp [uint64, integer, Node.ofDatum, Node.ofAtom, Datum.sorted, MeansSize]

theorem exact_flag : flag.Exact MeansFlag := by
  intro s d a hd
  cases d with
  | boolean b => simp [flag, Node.ofDatum, Node.ofAtom, Datum.sorted, MeansFlag, eq_comm]
  | integer i =>
    cases hd with
    | integer fits => simp [flag, Node.ofDatum, Node.ofAtom, Datum.sorted, MeansFlag, fits, eq_comm]
  | _ => simp [flag, Node.ofDatum, Node.ofAtom, Datum.sorted, MeansFlag]

end Reader

/-- Data stands where it is, so nothing is followed to read it. -/
theorem Node.resolve_ofDatum (s : Setting) (d : Datum) : s.resolve (.ofDatum d) = .ofDatum d := by
  have hshows : (Node.ofDatum d).Shows InQuotes d := Node.shows_ofDatum d
  exact hshows.resolve s

namespace Fields

variable {α : Type} {name : String} {r : Reader α} {means : Datum → α → Prop}
  {absentMap absentRow : Option α} {s : Setting}

/-- A field takes from a map what stands under its name. -/
theorem field_eq_ok (exact : r.Exact means) {o : Opened} {x : Option Datum}
    (found : (o.find? name).map Claim.value = x.map fun d => .ofDatum d.sorted)
    (plain : ∀ d, x = some d → d.Plain) (a : α) :
    (field name r absentMap absentRow).ofMap s o = .ok a ↔ Told means absentMap x a := by
  cases x with
  | none =>
    have hnone : o.find? name = none := by simpa using found
    simp only [field, hnone]
    cases absentMap with
    | none =>
      constructor
      · intro h
        cases h
      · intro h
        cases h with
        | left h => cases h
    | some b =>
      exact ⟨fun h => .left (congrArg some (Except.ok.inj h)),
        fun h => by cases h with | left h => exact congrArg Except.ok (Option.some.inj h)⟩
  | some d =>
    obtain ⟨c, hc, hvalue⟩ := Option.map_eq_some_iff.mp found
    have hresolve : s.resolve c.value = .ofDatum d.sorted := by rw [hvalue, Node.resolve_ofDatum]
    have hread := exact (s.down (keyStep c.key)) d a (plain d rfl)
    simp only [field, hc, hresolve, mapError_eq_ok, hread]
    exact ⟨.given, fun h => by cases h with | given h => exact h⟩

theorem and_eq_ok {β : Type} {f : Fields (α → β)} {g : Fields α} {o : Opened} {b : β} :
    (f.and g).ofMap s o = .ok b ↔
      ∃ h a, f.ofMap s o = .ok h ∧ g.ofMap s o = .ok a ∧ h a = b := by
  simp only [and]
  cases f.ofMap s o <;> cases g.ofMap s o <;> simp [Ranked.both]

/-- What is left of a list of data, and how much of it is gone. -/
def rowOf (ds : List Datum) (taken : Nat) (stop : Place) : Row :=
  ⟨Node.ofItems (Datum.sortedItems ds), taken, .closed stop⟩

/-- A field takes from a list what stands next. -/
theorem field_row (exact : r.Exact means) {ds : List Datum} (plain : ∀ d ∈ ds, d.Plain)
    (expected : String) (taken : Nat) (stop : Place) (a : α) (row : Row) :
    (field name r absentMap absentRow).ofRow s expected (rowOf ds taken stop) = .ok (a, row) ↔
      Told means absentRow ds.head? a ∧ row = rowOf ds.tail (taken + (ds.take 1).length) stop := by
  cases ds with
  | nil =>
    cases absentRow with
    | none => exact ⟨nofun, fun h => by cases h.1 with | left h => cases h⟩
    | some b =>
      have hread : (field name r absentMap (some b)).ofRow s expected (rowOf [] taken stop) =
          .ok (b, rowOf [] taken stop) := rfl
      rw [hread]
      constructor
      · intro h
        cases h
        exact ⟨.left rfl, rfl⟩
      · rintro ⟨h, rfl⟩
        cases h with
        | left h =>
          cases h
          rfl
  | cons d rest =>
    have hread := exact (s.down (.item taken)) d a (plain d (.head _))
    have hrow : (field name r absentMap absentRow).ofRow s expected (rowOf (d :: rest) taken stop) =
        r (s.down (.item taken)) (s.resolve (.ofDatum d.sorted)) >>= fun a =>
          .ok (a, rowOf rest (taken + 1) stop) := rfl
    rw [hrow, Node.resolve_ofDatum, bind_eq_ok]
    simp only [Except.ok.injEq, Prod.mk.injEq]
    constructor
    · rintro ⟨a', ha', rfl, rfl⟩
      exact ⟨.given (hread.mp ha'), rfl⟩
    · rintro ⟨h, rfl⟩
      cases h with
      | given h => exact ⟨a, hread.mpr h, rfl, rfl⟩

theorem and_row {β : Type} {f : Fields (α → β)} {g : Fields α} {expected : String} {row row' : Row}
    {b : β} :
    (f.and g).ofRow s expected row = .ok (b, row') ↔ ∃ h row₁ a,
      f.ofRow s expected row = .ok (h, row₁) ∧ g.ofRow s expected row₁ = .ok (a, row') ∧ h a = b := by
  show (f.ofRow s expected row >>= fun x => g.ofRow s expected x.2 >>= fun y =>
    .ok (x.1 y.1, y.2)) = _ ↔ _
  simp only [bind_eq_ok, Prod.exists, Except.ok.injEq, Prod.mk.injEq]
  constructor
  · rintro ⟨h, row₁, hf, a, row₂, hg, hb, rfl⟩
    exact ⟨h, row₁, a, hf, hg, hb⟩
  · rintro ⟨h, row₁, a, hf, hg, hb⟩
    exact ⟨h, row₁, hf, a, row', hg, hb, rfl⟩

end Fields

/-! ### Maps of a tree -/

/-- Claims are made of the entries in their order. -/
theorem claimsFrom_values {s : Setting} {names : List String} {es : List Entry} {i : Nat}
    {seen : List String} {claims : List Claim} (h : claimsFrom s names i seen es = (claims, none)) :
    claims.map Claim.value = es.map (·.2.2) := by
  induction es generalizing i seen claims with
  | nil =>
    cases h
    rfl
  | cons e rest ih =>
    obtain ⟨key, colon, value⟩ := e
    rw [claimsFrom] at h
    split at h
    · cases h
    · split at h
      · obtain ⟨rfl, hrest⟩ := Prod.mk.inj h
        exact congrArg (value :: ·) (ih (Prod.ext rfl hrest))
      · split at h
        · cases h
        · obtain ⟨rfl, hrest⟩ := Prod.mk.inj h
          exact congrArg (value :: ·) (ih (Prod.ext rfl hrest))

/-- In a tree a claim of a field has the value that stands under its name. -/
theorem find?_of_values {sure : String → Prop} {names : List String} {claims : List Claim}
    {entries : List (String × Datum)} (h : List.Forall₂ (Claim.Of sure names) claims entries)
    (values : claims.map Claim.value = entries.map fun e => .ofDatum e.2) {name : String}
    (hname : name ∈ names) :
    (claims.find? fun c => c.name == some name).map Claim.value =
      (entries.lookup name).map Node.ofDatum := by
  induction h with
  | nil => rfl
  | @cons c e claims entries hce _ ih =>
    obtain ⟨hvalue, hvalues⟩ := List.cons.inj values
    rw [Datum.lookup_cons_eq, List.find?_cons, hce.name]
    by_cases hm : name = e.1
    · subst hm
      simp [hname, hvalue]
    · have hother : ((if e.1 ∈ names then some e.1 else none) == some name) = false := by
        split <;> simp [Ne.symm hm]
      rw [hother, if_neg hm]
      exact ih hvalues

/-- A map of a tree is read from its fields alone. -/
theorem readMap_tree {α : Type} (fields : Fields α) {s : Setting} (tree : s.medium = .tree)
    {entries : List (String × Datum)} (once : Once entries) (start stop : Place) :
    ∃ o : Opened, (∀ name ∈ fields.names,
        (o.find? name).map Claim.value = (entries.lookup name).map Node.ofDatum) ∧
      ∀ a, readMap false fields s (Node.ofEntries (entries.map named)) start (.closed stop) = .ok a ↔
        fields.ofMap s o = .ok a := by
  have hshows : Node.ShowsEntries InQuotes (Node.ofEntries (entries.map named)) (entries.map named) :=
    Node.shows_ofEntries _
  obtain ⟨claims, hclaims, hmatch⟩ :=
    claimsFrom_of_shows s fields.names hshows once (fun _ _ => List.not_mem_nil) 0
  have hvalues : claims.map Claim.value = entries.map fun e => .ofDatum e.2 := by
    have hofEntries (entries : List (String × Datum)) :
        (Node.ofEntries (entries.map named)).map (·.2.2) = entries.map fun e => .ofDatum e.2 := by
      induction entries with
      | nil => rfl
      | cons e rest ih => exact congrArg (Node.ofDatum e.2 :: ·) ih
    rw [claimsFrom_values hclaims, hofEntries]
  refine ⟨⟨claims, (Node.ofEntries (entries.map named)).length, stop, []⟩,
    fun name => find?_of_values hmatch hvalues, fun a => ?_⟩
  have hpassed : passingFault s claims = none := by
    rw [passingFault, tree]
  simp only [readMap, hclaims, hpassed, Bool.false_eq_true, if_false, endingFault, lower,
    Ending.place, Except.toOption, Option.getD_some]
  cases fields.ofMap s _ <;> simp

end Data

namespace Command

/-! ### Locations -/

namespace DeviceLocation

def fields : Fields DeviceLocation :=
  (((Fields.pure DeviceLocation.mk).and (.required "path" Reader.text)).and
    (.orElse "size" Reader.uint64 0)).and (.orElse "used" Reader.flag false)

theorem reader_eq : reader = Reader.record "struct DeviceLocation" fields := rfl

theorem fields_map {s : Setting} {o : Opened} {value : String → Option Datum}
    (found : ∀ name ∈ fields.names,
      (o.find? name).map Claim.value = (value name).map fun d => .ofDatum d.sorted)
    (plain : ∀ name d, value name = some d → d.Plain) (l : DeviceLocation) :
    fields.ofMap s o = .ok l ↔ TellsFields (value "path") (value "size") (value "used") l := by
  have hpath (t : String) : (Fields.required "path" Reader.text).ofMap s o = .ok t ↔
      Told MeansText none (value "path") t :=
    Fields.field_eq_ok Reader.exact_text (found "path" (by decide)) (plain "path") t
  have hsize (n : UInt64) : (Fields.orElse "size" Reader.uint64 0).ofMap s o = .ok n ↔
      Told MeansSize (some 0) (value "size") n :=
    Fields.field_eq_ok Reader.exact_uint64 (found "size" (by decide)) (plain "size") n
  have hused (b : Bool) : (Fields.orElse "used" Reader.flag false).ofMap s o = .ok b ↔
      Told MeansFlag (some false) (value "used") b :=
    Fields.field_eq_ok Reader.exact_flag (found "used" (by decide)) (plain "used") b
  simp only [fields, Fields.and_eq_ok, hpath, hsize, hused]
  constructor
  · rintro ⟨_, b, ⟨_, n, ⟨_, t, hmk, ht, rfl⟩, hn, rfl⟩, hb, rfl⟩
    cases hmk
    exact ⟨ht, hn, hb⟩
  · rintro ⟨ht, hn, hb⟩
    exact ⟨_, l.used, ⟨_, l.size, ⟨_, l.path, rfl, ht, rfl⟩, hn, rfl⟩, hb, rfl⟩

theorem fields_row {s : Setting} {expected : String} {ds : List Datum} (plain : ∀ d ∈ ds, d.Plain)
    (stop : Place) (l : DeviceLocation) :
    (∃ row, fields.ofRow s expected (Fields.rowOf ds 0 stop) = .ok (l, row) ∧
        surplus s stop row = .ok ()) ↔
      ds.length ≤ 3 ∧ TellsFields ds[0]? ds[1]? ds[2]? l := by
  have tail {ds : List Datum} (h : ∀ d ∈ ds, d.Plain) : ∀ d ∈ ds.tail, d.Plain :=
    fun d hd => h d (List.mem_of_mem_tail hd)
  have hpath (taken : Nat) (t : String) (row : Row) : (Fields.required "path" Reader.text).ofRow s
      expected (Fields.rowOf ds taken stop) = .ok (t, row) ↔ _ :=
    Fields.field_row Reader.exact_text plain expected taken stop t row
  have hsize (taken : Nat) (n : UInt64) (row : Row) : (Fields.orElse "size" Reader.uint64 0).ofRow s
      expected (Fields.rowOf ds.tail taken stop) = .ok (n, row) ↔ _ :=
    Fields.field_row Reader.exact_uint64 (tail plain) expected taken stop n row
  have hused (taken : Nat) (b : Bool) (row : Row) : (Fields.orElse "used" Reader.flag false).ofRow s
      expected (Fields.rowOf ds.tail.tail taken stop) = .ok (b, row) ↔ _ :=
    Fields.field_row Reader.exact_flag (tail (tail plain)) expected taken stop b row
  have hlength (taken : Nat) :
      surplus s stop (Fields.rowOf ds.tail.tail.tail taken stop) = .ok () ↔ ds.length ≤ 3 := by
    match ds with
    | [] | [_] | [_, _] | [_, _, _] =>
      exact ⟨fun _ => by simp, fun _ => rfl⟩
    | _ :: _ :: _ :: _ :: _ => exact ⟨nofun, by simp⟩
  simp only [List.head?_eq_getElem?, List.getElem?_tail] at hpath hsize hused
  simp only [fields, Fields.and_row]
  constructor
  · rintro ⟨_, ⟨_, _, b, ⟨_, _, n, ⟨_, _, t, hmk, ht, rfl⟩, hn, rfl⟩, hb, rfl⟩, hrow⟩
    cases hmk
    obtain ⟨htold, rfl⟩ := (hpath _ _ _).mp ht
    obtain ⟨hntold, rfl⟩ := (hsize _ _ _).mp hn
    obtain ⟨hbtold, rfl⟩ := (hused _ _ _).mp hb
    exact ⟨(hlength _).mp hrow, htold, hntold, hbtold⟩
  · rintro ⟨hfew, ht, hn, hb⟩
    exact ⟨_, ⟨_, _, l.used, ⟨_, _, l.size, ⟨_, _, l.path, rfl, (hpath _ _ _).mpr ⟨ht, rfl⟩, rfl⟩,
      (hsize _ _ _).mpr ⟨hn, rfl⟩, rfl⟩, (hused _ _ _).mpr ⟨hb, rfl⟩, rfl⟩, (hlength _).mpr hfew⟩

theorem plain_lookup {entries : List (String × Datum)} (values : ∀ e ∈ entries, e.2.Plain)
    {name : String} {d : Datum} (h : entries.reverse.lookup name = some d) : d.Plain := by
  have hmem (es : List (String × Datum)) (h : es.lookup name = some d) : (name, d) ∈ es := by
    induction es with
    | nil => cases h
    | cons e rest ih =>
      rw [Datum.lookup_cons_eq] at h
      split at h
      · rename_i heq
        rw [heq, ← Option.some.inj h]
        exact .head _
      · exact .tail _ (ih h)
  exact values _ (List.mem_reverse.mp (hmem _ h))

/-- **Of a tree the reader takes the location that it tells, and it takes no other.** -/
theorem reader_exact {d : Datum} (plain : d.Plain) (l : DeviceLocation) :
    reader (.ofMedium .tree) (.ofDatum d.sorted) = .ok l ↔ Locates d l := by
  rw [reader_eq]
  let inner : Setting := ⟨.tree, [], 126, .none⟩
  cases plain with
  | @record entries values =>
    obtain ⟨entries', heq, once, hlookup⟩ := Datum.sorted_record_last entries
    obtain ⟨o, found, hread⟩ := readMap_tree fields (s := inner) rfl once nowhere nowhere
    have hmap : Reader.record "struct DeviceLocation" fields (.ofMedium .tree)
        (.ofDatum (Datum.record entries')) =
      (readMap false fields inner (Node.ofEntries (entries'.map named)) nowhere
        (.closed nowhere)).mapError (·.locatedAt none) := rfl
    have hfound : ∀ name ∈ fields.names, (o.find? name).map Claim.value =
        (entries.reverse.lookup name).map fun d => .ofDatum d.sorted := by
      intro name hname
      rw [found name hname, hlookup, Option.map_map]
      rfl
    rw [heq, hmap, mapError_eq_ok, hread, fields_map hfound fun name d => plain_lookup values,
      locates_record]
  | @list ds items =>
    have hlist : Reader.record "struct DeviceLocation" fields (.ofMedium .tree)
        (.ofDatum (Datum.list ds).sorted) =
      (readRow "struct DeviceLocation" fields inner (Node.ofItems (Datum.sortedItems ds)) nowhere
        (.closed nowhere)).mapError (·.locatedAt none) := rfl
    have hrow : (readRow "struct DeviceLocation" fields inner (Node.ofItems (Datum.sortedItems ds))
        nowhere (.closed nowhere)) = .ok l ↔ ds.length ≤ 3 ∧ TellsFields ds[0]? ds[1]? ds[2]? l := by
      have hlisted : (∃ row, fields.ofRow inner "struct DeviceLocation with 3 elements"
          (Fields.rowOf ds 0 nowhere) = .ok (l, row) ∧ surplus inner nowhere row = .ok ()) ↔ _ :=
        fields_row items nowhere l
      rw [← hlisted]
      show (fields.ofRow inner _ (Fields.rowOf ds 0 nowhere) >>= fun x =>
        surplus inner nowhere x.2 >>= fun _ => .ok x.1) = _ ↔ _
      simp only [bind_eq_ok, Prod.exists, Except.ok.injEq]
      constructor
      · rintro ⟨_, row, hfields, _, hsurplus, rfl⟩
        exact ⟨row, hfields, hsurplus⟩
      · rintro ⟨row, hfields, hsurplus⟩
        exact ⟨l, row, hfields, (), hsurplus, rfl⟩
    rw [hlist, mapError_eq_ok, hrow, locates_list]
  | _ => exact ⟨nofun, nofun⟩

/-! ### Answers -/

/-- An answer says nothing if its tree is null or a map of nothing. -/
theorem isNowhere_sorted {d : Datum} (plain : d.Plain) :
    isNowhere d.sorted = true ↔ d = .null ∨ d = .map [] := by
  cases plain with
  | @record entries _ =>
    obtain ⟨entries', heq, _, hlookup⟩ := Datum.sorted_record_last entries
    rw [heq]
    have hempty : entries' = [] ↔ entries = [] := by
      constructor
      · rintro rfl
        cases entries with
        | nil => rfl
        | cons e rest =>
          have hnone := hlookup e.1
          rw [List.reverse_cons, List.lookup_append, Datum.lookup_cons_eq, if_pos rfl] at hnone
          cases hrest : rest.reverse.lookup e.1 <;> simp [hrest] at hnone
      · rintro rfl
        have heq : Datum.record [] = Datum.record entries' := heq
        exact (Datum.record_injective heq).symm
    have hnothing (es : List (String × Datum)) : Datum.record es = .map [] ↔ es = [] :=
      (Datum.record_injective.eq_iff (b := [])).trans Iff.rfl
    rw [hnothing, ← hempty, or_iff_right nofun]
    cases entries' <;> simp [isNowhere, Datum.record]
  | _ => simp [isNowhere, Datum.sorted]

theorem not_locates_nowhere {d : Datum} (h : d = .null ∨ d = .map []) (l : DeviceLocation) :
    ¬ Locates d l := by
  rcases h with rfl | rfl
  · intro h
    cases h
  · have hempty : (Datum.record []).Plain := .record (List.forall_mem_nil _)
    intro h
    cases (reader_exact hempty l).mpr h

/-- **An answer is read as none exactly if it says nothing, and as a location exactly if its tree
tells that one.** -/
theorem read_exact (answer : String) :
    (read answer = .ok none ↔ TellsNowhere answer) ∧
      ∀ l, read answer = .ok (some l) ↔ ∃ d, Json.readTree answer = .ok d ∧ Locates d l := by
  unfold read TellsNowhere
  by_cases hblank : Text.allBlank answer = true
  · rw [if_pos hblank]
    refine ⟨⟨fun _ => .inl hblank, fun _ => rfl⟩, fun l => ⟨nofun, ?_⟩⟩
    rintro ⟨d, hd, _⟩
    exact absurd hd (Json.readTree_of_blank hblank d)
  · rw [if_neg hblank, Json.readDatum_eq]
    cases htree : Json.readTree answer with
    | error e => exact ⟨by simp [hblank, bind, Except.bind], fun l => by simp [bind, Except.bind]⟩
    | ok d =>
      have plain := Json.plain_of_readTree htree
      have hnowhere := isNowhere_sorted plain
      show ((if isNowhere d.sorted then pure none
        else some <$> reader (.ofMedium .tree) (.ofDatum d.sorted)) = Except.ok none ↔ _) ∧
        ∀ l, (if isNowhere d.sorted then pure none
          else some <$> reader (.ofMedium .tree) (.ofDatum d.sorted)) = Except.ok (some l) ↔ _
      simp only [hblank, Bool.false_eq_true, false_or, Except.ok.injEq, exists_eq_left', ← hnowhere]
      split
      · rename_i h
        exact ⟨iff_of_true rfl h, fun l => iff_of_false nofun (not_locates_nowhere (hnowhere.mp h) l)⟩
      · rename_i h
        cases hreader : reader (.ofMedium .tree) (.ofDatum d.sorted) with
        | error e =>
          refine ⟨iff_of_false nofun h, fun l => iff_of_false nofun fun hl => ?_⟩
          cases hreader.symm.trans ((reader_exact plain l).mpr hl)
        | ok l' =>
          refine ⟨iff_of_false nofun h, fun l => ?_⟩
          rw [← reader_exact plain l, hreader]
          simp

end DeviceLocation

end Command

namespace Command

/-! ### A flag told in two ways -/

/-- What the first value tells as a number, the second tells as a boolean. -/
inductive Reflagged : Datum → Datum → Prop
  | no : Reflagged (.integer 0) (.boolean false)
  | yes : Reflagged (.integer 1) (.boolean true)

/-- The second entry is the first, or the same flag told as a boolean. -/
def EntryReworded (e e' : String × Datum) : Prop :=
  e.1 = e'.1 ∧ (e.2 = e'.2 ∨ e.1 = "used" ∧ Reflagged e.2 e'.2)

/-- The trees differ only in how flags are told. -/
inductive Reworded : Datum → Datum → Prop
  | named {entries entries' : List (String × Datum)}
    (each : List.Forall₂ EntryReworded entries entries') :
    Reworded (.record entries) (.record entries')
  | listed {path size used used' : Datum} (flag : Reflagged used used') :
    Reworded (.list [path, size, used]) (.list [path, size, used'])

theorem Reflagged.meansFlag {d d' : Datum} (h : Reflagged d d') (b : Bool) :
    MeansFlag d b ↔ MeansFlag d' b := by
  cases h <;> simp [MeansFlag, Json.Fits, eq_comm]

theorem told_some {α : Type} {means : Datum → α → Prop} {absent : Option α} {d : Datum} {a : α} :
    Told means absent (some d) a ↔ means d a :=
  ⟨fun h => by cases h with | given h => exact h, .given⟩

theorem lookup_reworded {entries entries' : List (String × Datum)}
    (each : List.Forall₂ EntryReworded entries entries') (name : String) :
    (name ≠ "used" → entries.lookup name = entries'.lookup name) ∧
      ∀ b, Told MeansFlag (some false) (entries.lookup name) b ↔
        Told MeansFlag (some false) (entries'.lookup name) b := by
  induction each with
  | nil => exact ⟨fun _ => rfl, fun _ => Iff.rfl⟩
  | cons h _ ih =>
    obtain ⟨hname, hvalue⟩ := h
    rw [Datum.lookup_cons_eq, Datum.lookup_cons_eq, ← hname]
    split
    · rename_i heq
      rcases hvalue with hsame | ⟨hused, hflag⟩
      · rw [hsame]
        exact ⟨fun _ => rfl, fun _ => Iff.rfl⟩
      · exact ⟨fun hne => absurd (heq.trans hused) hne,
          fun b => told_some.trans ((hflag.meansFlag b).trans told_some.symm)⟩
    · exact ih

/-- **However its flag is told, a tree tells the same location.** -/
theorem Reworded.locates {d d' : Datum} (h : Reworded d d') (l : DeviceLocation) :
    Locates d l ↔ Locates d' l := by
  cases h with
  | named each =>
    have each := List.forall₂_reverse_iff.mpr each
    rw [locates_record, locates_record, (lookup_reworded each "path").1 (by decide),
      (lookup_reworded each "size").1 (by decide)]
    have hused := (lookup_reworded each "used").2 l.used
    exact ⟨fun h => ⟨h.path, h.size, hused.mp h.used⟩, fun h => ⟨h.path, h.size, hused.mpr h.used⟩⟩
  | @listed path size used used' flag =>
    rw [locates_list, locates_list]
    have hused : Told MeansFlag (some false) (some used) l.used ↔
        Told MeansFlag (some false) (some used') l.used :=
      told_some.trans ((flag.meansFlag l.used).trans told_some.symm)
    exact ⟨fun ⟨few, h⟩ => ⟨few, h.path, h.size, hused.mp h.used⟩,
      fun ⟨few, h⟩ => ⟨few, h.path, h.size, hused.mpr h.used⟩⟩

theorem Reworded.tellsNowhere {d d' : Datum} (h : Reworded d d') :
    d = .null ∨ d = .map [] ↔ d' = .null ∨ d' = .map [] := by
  cases h with
  | named each => cases each <;> simp [Datum.record]
  | listed => simp

/-- The replies are the same, or answers that differ only in how flags are told. -/
inductive RewordedReply : Reply → Reply → Prop
  | same {r : Reply} : RewordedReply r r
  | answer {code : Int32} {stdout stdout' stderr stderr' : String} {d d' : Datum}
    (tree : Json.readTree stdout = .ok d) (tree' : Json.readTree stdout' = .ok d')
    (reworded : Reworded d d') :
    RewordedReply (.ok ⟨code, stdout, stderr⟩) (.ok ⟨code, stdout', stderr'⟩)

theorem read_reworded {answer answer' : String} {d d' : Datum}
    (tree : Json.readTree answer = .ok d) (tree' : Json.readTree answer' = .ok d')
    (reworded : Reworded d d') (place : Option DeviceLocation) :
    DeviceLocation.read answer = .ok place ↔ DeviceLocation.read answer' = .ok place := by
  have not_blank {answer : String} {d : Datum} (tree : Json.readTree answer = .ok d) :
      Text.allBlank answer ≠ true := fun hblank => Json.readTree_of_blank hblank d tree
  cases place with
  | none =>
    rw [(DeviceLocation.read_exact answer).1, (DeviceLocation.read_exact answer').1, TellsNowhere,
      TellsNowhere, tree, tree', or_iff_right (not_blank tree), or_iff_right (not_blank tree')]
    simpa using reworded.tellsNowhere
  | some l =>
    rw [(DeviceLocation.read_exact answer).2, (DeviceLocation.read_exact answer').2, tree, tree']
    simpa using reworded.locates l

theorem RewordedReply.tellsPlace {host : Host} {line : String} {r r' : Reply}
    (h : RewordedReply r r') (place : Option DeviceLocation) :
    (⟨host, line, r⟩ : Sent).TellsPlace place ↔ (⟨host, line, r'⟩ : Sent).TellsPlace place := by
  cases h with
  | same => exact Iff.rfl
  | @answer code stdout stdout' stderr stderr' d d' tree tree' reworded =>
    have hread := read_reworded tree tree' reworded place
    constructor
    · rintro ⟨output, hreply, hexit, htold⟩
      cases hreply
      exact ⟨_, rfl, hexit, hread.mp htold⟩
    · rintro ⟨output, hreply, hexit, htold⟩
      cases hreply
      exact ⟨_, rfl, hexit, hread.mpr htold⟩

end Command

namespace Step

variable {σ σ' : Type} {o : Outside σ} {o' : Outside σ'} {w : World σ} {w' : World σ'}

/-- With either outside the program comes to what the store makes of it. -/
def ByStore {α : Type} (o : Outside σ) (o' : Outside σ') (p : StepProgram α) : Prop :=
  ∀ w w', w.store = w'.store →
    (p.run o w).1 = (p.run o' w').1 ∧ (p.run o w).2.store = (p.run o' w').2.store

theorem byStore_pure {α : Type} (a : α) : ByStore o o' (pure a) := fun _ _ hstore => ⟨rfl, hstore⟩

theorem byStore_call (c : Store.Call) : ByStore o o' (call c) := by
  intro w w' hstore
  unfold call Program.run
  rw [← hstore]
  rcases w.store.handle c with (r | _) | ⟨a, s⟩
  · exact ⟨rfl, hstore⟩
  · exact ⟨rfl, hstore⟩
  · exact ⟨rfl, rfl⟩

theorem ByStore.bind {α β : Type} {p : StepProgram α} (hp : ByStore o o' p) {f : α → StepProgram β}
    (hf : ∀ a, ByStore o o' (f a)) : ByStore o o' (p >>= f) := by
  intro w w' hstore
  obtain ⟨hending, hafter⟩ := hp w w' hstore
  show ((p.bind f).run o w).1 = ((p.bind f).run o' w').1 ∧
    ((p.bind f).run o w).2.store = ((p.bind f).run o' w').2.store
  rw [Program.run_bind, Program.run_bind]
  rcases hrun : p.run o w with ⟨a | e | _, w₁⟩ <;> rcases hrun' : p.run o' w' with ⟨a' | e' | _, w₁'⟩ <;>
    rw [hrun, hrun'] at hending hafter <;> cases hending
  · exact hf a w₁ w₁' hafter
  · exact ⟨rfl, hafter⟩
  · exact ⟨rfl, hafter⟩

theorem byStore_placeDevice (m : TargetMount) (id : TargetMountId) (l : Lun) (uuid : String)
    (host : Host) (place : Option DeviceLocation) :
    ByStore o o' (placeDevice m id l uuid host place) := by
  cases place with
  | none => exact fun _ _ hstore => ⟨rfl, hstore⟩
  | some location =>
    refine ByStore.bind ?_ fun node => byStore_call _
    refine (byStore_call _).bind fun found => ?_
    split
    · exact (byStore_call _).bind fun _ => byStore_pure _
    · exact (byStore_call _).bind fun _ => byStore_pure _

theorem searchFor_reworded {m : TargetMount} {id : TargetMountId} (hstore : w.store = w'.store)
    (replies : ∀ host line, RewordedReply (w.send o host line).1 (w'.send o' host line).1)
    (agent : String) :
    ((searchFor agent m id).run o w).2.store = ((searchFor agent m id).run o' w').2.store ∧
      (((searchFor agent m id).run o w).1 = .done () ↔
        ((searchFor agent m id).run o' w').1 = .done ()) := by
  by_cases hsearch : ∃ p n l uuid host, w.store.Searchable m p n l uuid host
  · obtain ⟨p, n, l, uuid, host, h⟩ := hsearch
    have h' : w'.store.Searchable m p n l uuid host := hstore ▸ h
    have alike (place : Option DeviceLocation) :
        (searchCommand o w agent uuid host).TellsPlace place ↔
          (searchCommand o' w' agent uuid host).TellsPlace place :=
      (replies host _).tellsPlace place
    by_cases htold : ∃ place, (searchCommand o w agent uuid host).TellsPlace place
    · obtain ⟨place, told⟩ := htold
      rw [run_searchFor_of_told id h told, run_searchFor_of_told id h' ((alike place).mp told)]
      obtain ⟨hending, hafter⟩ := byStore_placeDevice m id l uuid host place
        (searchSent o w agent uuid host) (searchSent o' w' agent uuid host) hstore
      exact ⟨hafter, by rw [hending]⟩
    · have untold' : ¬ ∃ place, (searchCommand o' w' agent uuid host).TellsPlace place :=
        fun ⟨place, told⟩ => htold ⟨place, (alike place).mpr told⟩
      obtain ⟨e, hrun⟩ := run_searchFor_of_untold id h htold
      obtain ⟨e', hrun'⟩ := run_searchFor_of_untold id h' untold'
      rw [hrun, hrun']
      exact ⟨hstore, iff_of_false nofun nofun⟩
  · have hsearch' : ¬ ∃ p n l uuid host, w'.store.Searchable m p n l uuid host := hstore ▸ hsearch
    obtain ⟨e, hrun⟩ := run_searchFor_of_missing (o := o) agent id hsearch
    obtain ⟨e', hrun'⟩ := run_searchFor_of_missing (o := o') agent id hsearch'
    rw [hrun, hrun']
    exact ⟨hstore, iff_of_false nofun nofun⟩

/-- **A search that is answered with the flag told in one way leaves the store that it leaves with
the flag told in the other**, and succeeds if it does. -/
theorem findDevice_reworded (hstore : w.store = w'.store)
    (replies : ∀ host line, RewordedReply (w.send o host line).1 (w'.send o' host line).1)
    (agent : String) (id : TargetMountId) :
    ((findDevice agent id).run o w).2.store = ((findDevice agent id).run o' w').2.store ∧
      (((findDevice agent id).run o w).1 = .done () ↔
        ((findDevice agent id).run o' w').1 = .done ()) := by
  cases hm : w.store.targetMounts.find? id.key with
  | none =>
    have missing {σ : Type} (o : Outside σ) (w : World σ)
        (hm : w.store.targetMounts.find? id.key = none) :
        ∃ e, (findDevice agent id).run o w = (.failed e, w) := by
      have hrefused : w.store.handle (.targetMount id) =
          .error (.refused (.notFound .targetMount id.text)) := by
        simp [Store.handle, Store.reading, Store.fetch, hm, Except.map]
      exact ⟨_, Program.run_bind_of_failed (Program.run_ask_refused o hrefused) _⟩
    obtain ⟨e, hrun⟩ := missing o w hm
    obtain ⟨e', hrun'⟩ := missing o' w' (hstore ▸ hm)
    rw [hrun, hrun']
    exact ⟨hstore, by simp⟩
  | some m =>
    rw [run_findDevice hm, run_findDevice (hstore ▸ hm)]
    split
    · exact ⟨hstore, Iff.rfl⟩
    · exact ⟨hstore, Iff.rfl⟩
    · exact searchFor_reworded hstore replies agent

end Step

/-- **Answers about devices are read exactly.** An answer is taken for none exactly if it says
nothing, for a location exactly if its tree tells that one, and is refused exactly if it does
neither; a numeral is an integer if it has no fraction and no exponent, fits 64 bits and is not
minus zero. However the flag of a tree is told, the location is the same, and so is the store that
a search leaves. -/
theorem device_answers_are_read_exactly :
    (∀ answer, (DeviceLocation.read answer = .ok none ↔ TellsNowhere answer) ∧
      (∀ l, DeviceLocation.read answer = .ok (some l) ↔
        ∃ d, Json.readTree answer = .ok d ∧ Locates d l) ∧
      ((∃ e, DeviceLocation.read answer = .error e) ↔
        ¬ TellsNowhere answer ∧ ¬ ∃ d l, Json.readTree answer = .ok d ∧ Locates d l)) ∧
    (∀ (n : Json.Numeral) (i : Int), n.value = some (.integer i) ↔
      n.fraction = none ∧ n.exponent = none ∧
        if n.negative then 0 < Json.natOf n.whole ∧ Json.natOf n.whole ≤ 9223372036854775808 ∧
          i = -Json.natOf n.whole
        else Json.natOf n.whole ≤ 18446744073709551615 ∧ i = Json.natOf n.whole) ∧
    (∀ d d', Reworded d d' → ∀ l, Locates d l ↔ Locates d' l) ∧
    (∀ (σ σ' : Type) (o : Outside σ) (o' : Outside σ') (w : World σ) (w' : World σ')
      (agent : String) (id : TargetMountId), w.store = w'.store →
      (∀ host line, RewordedReply (w.send o host line).1 (w'.send o' host line).1) →
      let run := ((StepKind.findDevice id).program agent).run o w
      let run' := ((StepKind.findDevice id).program agent).run o' w'
      run.2.store = run'.2.store ∧ (run.1 = .done () ↔ run'.1 = .done ())) := by
  refine ⟨fun answer => ?_, fun _ _ => Json.Numeral.value_eq_integer_iff, fun _ _ h => h.locates,
    fun σ σ' o o' w w' agent id hstore replies => Step.findDevice_reworded hstore replies agent id⟩
  obtain ⟨hnowhere, hlocates⟩ := DeviceLocation.read_exact answer
  refine ⟨hnowhere, hlocates, ?_⟩
  rw [← hnowhere]
  have htold : (∃ d l, Json.readTree answer = .ok d ∧ Locates d l) ↔
      ∃ l, DeviceLocation.read answer = .ok (some l) := by
    simp only [hlocates]
    exact exists_comm
  rw [htold]
  rcases DeviceLocation.read answer with e | _ | l <;> simp

/-- A new device that is told to be in use by an old agent and by a new one; the last size counts. -/
theorem new_device_told_in_two_ways :
    let p : TargetMount := ⟨⟨5⟩, ⟨4⟩, ⟨1⟩, true, .unconfigured, "/mnt/mgs", some ⟨8⟩⟩
    let m : TargetMount := ⟨⟨6⟩, ⟨4⟩, ⟨2⟩, false, .unconfigured, "/mnt/mgs", none⟩
    let s := Store.ofInventory
      { hosts := [⟨⟨1⟩, "oss1", none, none, .up, none, []⟩, ⟨⟨2⟩, "oss2", none, none, .up, none, []⟩]
        targets := [⟨⟨4⟩, .mgs, none⟩], targetMounts := [p, m], luns := [⟨⟨3⟩, some "u3"⟩]
        lunNodes := [⟨⟨8⟩, ⟨⟨1⟩, "/dev/sda", 0, false⟩, some ⟨3⟩⟩] }
    let answer : String → String := fun used =>
      "\x7b\"path\": \"/dev/sdc\", \"size\": 1, \"size\": 7, \"used\": " ++ used ++ "\x7d"
    let o : String → Outside Unit := fun used =>
      ⟨fun _ _ _ => (.ok ⟨0, answer used, ""⟩, ()), fun _ => (.unset, ())⟩
    let run := fun used =>
      ((StepKind.findDevice ⟨6⟩).program "agent").run (o used) (World.start s ())
    (∀ used ∈ ["1", "true"], DeviceLocation.read (answer used) = .ok (some ⟨"/dev/sdc", 7, true⟩)) ∧
      (run "1").1 = .done () ∧ (run "true").1 = .done () ∧
      (run "1").2.store = (run "true").2.store ∧
      (run "true").2.store.lunNodes.find? 9 = some ⟨⟨9⟩, ⟨⟨2⟩, "/dev/sdc", 7, true⟩, some ⟨3⟩⟩ := by
  intro p m s answer o run
  let entries (used : Datum) : List (String × Datum) :=
    [("path", .text "/dev/sdc"), ("size", .integer 1), ("size", .integer 7), ("used", used)]
  have tree : Json.readTree (answer "1") = .ok (.record (entries (.integer 1))) := by
    simp only [answer, entries]
    cbv
  have tree' : Json.readTree (answer "true") = .ok (.record (entries (.boolean true))) := by
    simp only [answer, entries]
    cbv
  have reworded : Reworded (.record (entries (.integer 1))) (.record (entries (.boolean true))) :=
    .named (.cons ⟨rfl, .inl rfl⟩ (.cons ⟨rfl, .inl rfl⟩ (.cons ⟨rfl, .inl rfl⟩
      (.cons ⟨rfl, .inr ⟨rfl, .yes⟩⟩ .nil))))
  obtain ⟨exact, _, locates, search⟩ := device_answers_are_read_exactly
  have told : Locates (.record (entries (.integer 1))) ⟨"/dev/sdc", 7, true⟩ :=
    .named ⟨.given rfl, .given rfl, .given (.inr ⟨1, rfl, ⟨by decide, by decide⟩, rfl⟩)⟩
  have hread : DeviceLocation.read (answer "1") = .ok (some ⟨"/dev/sdc", 7, true⟩) :=
    ((exact _).2.1 _).mpr ⟨_, tree, told⟩
  have hread' : DeviceLocation.read (answer "true") = .ok (some ⟨"/dev/sdc", 7, true⟩) :=
    ((exact _).2.1 _).mpr ⟨_, tree', (locates _ _ reworded _).mp told⟩
  obtain ⟨hstore, hdone⟩ := search Unit Unit (o "1") (o "true") (World.start s ()) (World.start s ())
    "agent" ⟨6⟩ rfl fun _ _ => .answer tree tree' reworded
  have hrun : (run "true").1 = .done () := by decide +kernel
  exact ⟨by simp [hread, hread'], hdone.mpr hrun, hrun, hstore, by decide +kernel⟩

end FleetJobs
