import FleetJobs.Data.Fields
import FleetJobs.Fleet.Id
import Mathlib.Data.List.Forall2
import Mathlib.Data.List.Nodup
import Mathlib.Data.List.Perm.Basic

/-! Readers of data that was written.

A node shows a datum if it is that datum with places (`Node.Shows`), wherever it was found
and in whatever order the entries of its maps stand. Where texts need no quotes one may be
taken for something else by a reader that does not ask for text; `sure` tells the texts
that are not. A reader that takes a datum for a value does so in every setting with room
enough for it (`Reader.Reads`), and so does one that is built up from such readers: a list
of them, an absent or present value, a record. A record names each of its entries at most
once, and an open one hands the entries that are no fields on (`Reader.Reads.ofEntries`);
what is left out is read as absent (`Fields.Reads.optional`). -/
namespace FleetJobs.Data

/-- Between quotes no text is taken for anything else. -/
abbrev InQuotes (_ : String) : Prop := True

namespace Node

mutual

/-- A node is what a datum looks like: nothing in it is broken off or stands elsewhere. -/
inductive Shows (sure : String → Prop) : Node → Datum → Prop
  | null {v : Option String} {p q : Place} :
    Shows sure (.scalar ⟨.ok .null, v, .ok true, none⟩ p q) .null
  | boolean {b : Bool} {v : Option String} {p q : Place} :
    Shows sure (.scalar ⟨.ok (.boolean b), v, .ok false, none⟩ p q) (.boolean b)
  | integer {i : Int} {v : Option String} {p q : Place} :
    Shows sure (.scalar ⟨.ok (.integer i), v, .ok false, none⟩ p q) (.integer i)
  | real {x : Decimal.Double} {v : Option String} {p q : Place} :
    Shows sure (.scalar ⟨.ok (.real x), v, .ok false, none⟩ p q) (.real x)
  | text {t : String} {p q : Place} :
    Shows sure (.scalar ⟨.ok (.text t), none, .ok false, none⟩ p q) (.text t)
  /-- A text that needs no quotes. -/
  | verbatim {t : String} {a : Except Trouble Atom} {p q : Place}
    (own : sure t → a = .ok (.text t)) :
    Shows sure (.scalar ⟨a, some t, .ok false, none⟩ p q) (.text t)
  | list {ns : List Node} {ds : List Datum} {p q : Place} (items : ShowsItems sure ns ds) :
    Shows sure (.list ns p (.closed q)) (.list ds)
  | map {es : List Entry} {ds ds' : List (Datum × Datum)} {p q : Place}
    (entries : ShowsEntries sure es ds') (order : ds'.Perm ds) :
    Shows sure (.map es p (.closed q)) (.map ds)

inductive ShowsItems (sure : String → Prop) : List Node → List Datum → Prop
  | nil : ShowsItems sure [] []
  | cons {n : Node} {ns : List Node} {d : Datum} {ds : List Datum} (first : Shows sure n d)
    (rest : ShowsItems sure ns ds) : ShowsItems sure (n :: ns) (d :: ds)

inductive ShowsEntries (sure : String → Prop) : List Entry → List (Datum × Datum) → Prop
  | nil : ShowsEntries sure [] []
  | cons {key value : Node} {colon : Place} {es : List Entry} {k v : Datum}
    {ds : List (Datum × Datum)} (name : Shows sure key k) (first : Shows sure value v)
    (rest : ShowsEntries sure es ds) :
    ShowsEntries sure ((key, colon, value) :: es) ((k, v) :: ds)

end

variable {sure : String → Prop}

theorem Shows.resolve {n : Node} {d : Datum} (h : n.Shows sure d) (s : Setting) :
    s.resolve n = n := by
  cases h <;> rfl

end Node

theorem Setting.enter_of_room {s : Setting} (h : 0 < s.room) (p : Place) :
    s.enter p = .ok { s with room := s.room - 1 } := by
  unfold enter
  split
  · omega
  · omega
  · rfl

namespace Reader

/-- The reader takes the datum for the value where so many lists and maps may be opened. -/
def Reads (sure : String → Prop) (r : Reader α) (depth : Nat) (d : Datum) (a : α) : Prop :=
  ∀ (s : Setting) (n : Node), depth ≤ s.room → n.Shows sure d → r s n = .ok a

variable {sure : String → Prop} {r : Reader α} {depth : Nat}

theorem textFor_of_shows {n : Node} {t : String} (h : n.Shows sure (.text t)) (expected : String)
    (s : Setting) : textFor expected s n = .ok t := by
  cases h <;> rfl

theorem reads_text (t : String) : text.Reads sure depth (.text t) t :=
  fun s _ _ h => textFor_of_shows h "a string" s

theorem reads_boolean (b : Bool) : boolean.Reads sure depth (.boolean b) b := by
  intro s n _ h
  cases h
  rfl

theorem reads_integer {low high i : Int} (h : low ≤ i ∧ i ≤ high) (name : String) :
    (integer low high name).Reads sure depth (.integer i) i := by
  intro s n _ hn
  cases hn
  exact if_pos h

theorem Reads.map {d : Datum} {a : α} (h : r.Reads sure depth d a) (f : α → β) :
    Reader.Reads sure (fun s n => f <$> r s n) depth d (f a) := by
  intro s n hroom hn
  simp only [h s n hroom hn]
  rfl

theorem reads_natural {high n : Nat} (h : n ≤ high) (name : String) (f : Nat → α) :
    Reader.Reads sure (fun s node => (fun i : Int => f i.toNat) <$> integer 0 high name s node) depth
      (.natural n) (f n) := by
  have hbounds : (0 : Int) ≤ n ∧ (n : Int) ≤ high := ⟨Int.natCast_nonneg n, Int.ofNat_le.mpr h⟩
  exact (reads_integer hbounds name).map fun i => f i.toNat

theorem reads_uint16 (n : UInt16) : uint16.Reads sure depth (.natural n.toNat) n := by
  have h : uint16.Reads sure depth (.natural n.toNat) (UInt16.ofNat n.toNat) :=
    reads_natural (Nat.le_of_lt_succ n.toNat_lt) "u16" UInt16.ofNat
  rwa [UInt16.ofNat_toNat] at h

theorem reads_uint32 (n : UInt32) : uint32.Reads sure depth (.natural n.toNat) n := by
  have h : uint32.Reads sure depth (.natural n.toNat) (UInt32.ofNat n.toNat) :=
    reads_natural (Nat.le_of_lt_succ n.toNat_lt) "u32" UInt32.ofNat
  rwa [UInt32.ofNat_toNat] at h

theorem reads_uint64 (n : UInt64) : uint64.Reads sure depth (.natural n.toNat) n := by
  have h : uint64.Reads sure depth (.natural n.toNat) (UInt64.ofNat n.toNat) :=
    reads_natural (Nat.le_of_lt_succ n.toNat_lt) "u64" UInt64.ofNat
  rwa [UInt64.ofNat_toNat] at h

theorem reads_index {n : Nat} (h : n < UInt64.size) : index.Reads sure depth (.natural n) n :=
  reads_natural (Nat.le_of_lt_succ h) "usize" id

theorem reads_int32 (n : Int32) : int32.Reads sure depth (.integer n.toInt) n := by
  have hbounds : -2147483648 ≤ n.toInt ∧ n.toInt ≤ 2147483647 :=
    ⟨n.minValue_le_toInt, Int.le_of_lt_add_one n.toInt_lt⟩
  have h : int32.Reads sure depth (.integer n.toInt) (Int32.ofInt n.toInt) :=
    (reads_integer hbounds "i32").map Int32.ofInt
  rwa [Int32.ofInt_toInt] at h

/-- A value that is there is never taken for an absent one, unless it is written as null. -/
theorem Reads.optional {d : Datum} {a : α} (h : r.Reads sure depth d a) (present : d ≠ .null) :
    (optional r).Reads sure depth d (some a) := by
  intro s n hroom hn
  have ha := h s n hroom hn
  cases hn with
  | null => exact absurd rfl present
  | _ => simp only [Reader.optional, ha]; rfl

/-- A value is read as absent where it was absent. -/
theorem Reads.orNull {write : α → Datum} (h : ∀ a, r.Reads sure depth (write a) a)
    (present : ∀ a, write a ≠ .null) (x : Option α) :
    (Reader.optional r).Reads sure depth (.optional write x) x := by
  cases x with
  | none =>
    intro s n _ hn
    cases hn
    rfl
  | some a => exact (h a).optional (present a)

theorem items_of_shows {write : α → Datum} {as : List α} (h : ∀ a ∈ as, r.Reads sure depth (write a) a)
    {s : Setting} (room : depth ≤ s.room) {ns : List Node}
    (hns : Node.ShowsItems sure ns (as.map write)) (i : Nat) : items r s i ns = .ok as := by
  induction as generalizing ns i with
  | nil =>
    cases hns
    rfl
  | cons a as ih =>
    obtain ⟨ha, has⟩ := List.forall_mem_cons.mp h
    cases hns with
    | cons first rest =>
      have hfirst := ha (s.down (.item i)) _ room first
      rw [items, first.resolve, hfirst, ih has rest (i + 1)]
      rfl

theorem Reads.list {write : α → Datum} {as : List α} (h : ∀ a ∈ as, r.Reads sure depth (write a) a) :
    (list r).Reads sure (depth + 1) (.list (as.map write)) as := by
  intro s n hroom hn
  cases hn with
  | @list ns _ p q hns =>
    have hroom' : depth ≤ ({ s with room := s.room - 1 } : Setting).room :=
      Nat.le_sub_one_of_lt hroom
    have henter := Setting.enter_of_room (Nat.lt_of_lt_of_le (Nat.succ_pos depth) hroom) p
    simp only [Reader.list, henter, bind, Except.bind, items_of_shows h hroom' hns 0,
      Except.mapError, closed]

end Reader

/-! ### Entries by name -/

section Entries

variable {entries entries' : List (String × Datum)}

/-- The names that entries have, each once. -/
def Once (entries : List (String × Datum)) : Prop := (entries.map (·.1)).Nodup

theorem lookup_eq_some_iff (once : Once entries) {name : String} {d : Datum} :
    entries.lookup name = some d ↔ (name, d) ∈ entries := by
  induction entries with
  | nil => simp
  | cons e rest ih =>
    obtain ⟨name', d'⟩ := e
    obtain ⟨hnew, hrest⟩ := List.nodup_cons.mp once
    by_cases heq : name = name'
    · subst heq
      have hother : (name, d) ∉ rest := fun hmem => hnew (List.mem_map.mpr ⟨_, hmem, rfl⟩)
      simp [hother, eq_comm]
    · have hne : (name == name') = false := by simpa using heq
      simp [List.lookup_cons, hne, ih hrest, heq]

/-- In whatever order entries stand, the same is found under a name. -/
theorem lookup_of_perm (order : entries'.Perm entries) (once : Once entries) (name : String) :
    entries'.lookup name = entries.lookup name := by
  have hnames : (entries'.map (·.1)).Perm (entries.map (·.1)) := order.map _
  have once' : Once entries' := hnames.nodup_iff.mpr once
  refine Option.ext fun d => ?_
  rw [lookup_eq_some_iff once', lookup_eq_some_iff once, order.mem_iff]

/-- The entries of a record, as those of a map. -/
def named (e : String × Datum) : Datum × Datum := (.text e.1, e.2)

/-- A node that shows a record shows its entries in some order. -/
theorem Node.entries_of_shows {sure : String → Prop} {n : Node} (h : n.Shows sure (.record entries)) :
    ∃ (es : List Entry) (p q : Place) (entries' : List (String × Datum)),
      n = .map es p (.closed q) ∧ Node.ShowsEntries sure es (entries'.map named) ∧
      entries'.Perm entries := by
  cases h with
  | @map es _ ds' p q hes order =>
    have horder : (ds'.map fun e => (e.1.keyName, e.2)).Perm entries := by
      have hmap := order.map fun e => (e.1.keyName, e.2)
      rw [List.map_map] at hmap
      simpa [Function.comp_def, Datum.keyName] using hmap
    refine ⟨es, p, q, _, rfl, ?_, horder⟩
    have hback : (ds'.map fun e => (e.1.keyName, e.2)).map named = ds' := by
      rw [List.map_map]
      refine (List.map_congr_left fun e he => ?_).trans (List.map_id _)
      obtain ⟨e', _, rfl⟩ := List.mem_map.mp (order.subset he)
      rfl
    rwa [hback]

end Entries

/-! ### Data that is shown by data -/

namespace Node

variable {sure : String → Prop}

theorem eq_text_of_shows {d : Datum} {t : String} (h : (ofDatum d).Shows sure (.text t)) :
    d = .text t := by
  cases d <;> cases h
  rfl

/-- Data that shows a record is a map of its entries. -/
theorem eq_map_of_shows {d : Datum} {entries : List (String × Datum)}
    (h : (ofDatum d).Shows sure (.record entries)) :
    ∃ (ds : List (Datum × Datum)) (all : List (String × Datum)), d = .map ds ∧
      ShowsEntries sure (ofEntries ds) (all.map named) ∧ all.Perm entries := by
  obtain ⟨es, p, q, all, heq, hes, horder⟩ := entries_of_shows h
  cases d with
  | map ds =>
    cases heq
    exact ⟨ds, all, rfl, hes, horder⟩
  | _ => cases heq

/-- The first of shown entries, taken out of its text. -/
theorem ofEntries_cons {ds : List (Datum × Datum)} {e : String × Datum} {all : List (String × Datum)}
    (h : ShowsEntries sure (ofEntries ds) ((e :: all).map named)) :
    ∃ (d : Datum) (rest : List (Datum × Datum)), ds = (.text e.1, d) :: rest ∧
      (ofDatum d).Shows sure e.2 ∧
      ShowsEntries sure (ofEntries rest) (all.map named) := by
  cases ds with
  | nil => cases h
  | cons kd rest =>
    obtain ⟨k, d⟩ := kd
    cases h with
    | cons name first others =>
      obtain rfl := eq_text_of_shows name
      exact ⟨d, rest, rfl, first, others⟩

theorem ofEntries_nil {ds : List (Datum × Datum)}
    (h : ShowsEntries sure (ofEntries ds) (([] : List (String × Datum)).map named)) : ds = [] := by
  cases ds with
  | nil => rfl
  | cons => cases h

end Node

theorem lookup_presentEntry (name name' : String) (write : α → Datum) (x : Option α) :
    (presentEntry name' write x).lookup name = if name = name' then x.map write else none := by
  cases x with
  | none => simp [presentEntry]
  | some a =>
    by_cases h : name = name'
    · simp [presentEntry, h]
    · have hne : (name == name') = false := by simpa using h
      simp [presentEntry, List.lookup_cons, hne, h]

theorem names_presentEntry (name : String) (write : α → Datum) (x : Option α) :
    ((presentEntry name write x).map (·.1)).Sublist [name] := by
  cases x <;> simp [presentEntry]

/-! ### Data taken out of a text -/

mutual

/-- The datum can be taken out of its text where so many lists and maps may be opened, for
its texts are taken for nothing else. -/
def Datum.Legible (sure : String → Prop) : Nat → Datum → Prop
  | _, .text t => sure t
  | room, .list ds => 0 < room ∧ LegibleItems sure (room - 1) ds
  | room, .map ds => 0 < room ∧ LegibleEntries sure (room - 1) ds
  | _, _ => True

def Datum.LegibleItems (sure : String → Prop) (room : Nat) : List Datum → Prop
  | [] => True
  | d :: ds => d.Legible sure room ∧ LegibleItems sure room ds

def Datum.LegibleEntries (sure : String → Prop) (room : Nat) : List (Datum × Datum) → Prop
  | [] => True
  | (k, v) :: ds => k.Legible sure room ∧ v.Legible sure room ∧ LegibleEntries sure room ds

end

namespace Node

variable {sure : String → Prop}

mutual

/-- Data on its own shows itself. -/
theorem shows_ofDatum : ∀ d : Datum, (ofDatum d).Shows sure d
  | .null => .null
  | .boolean _ => .boolean
  | .integer _ => .integer
  | .real _ => .real
  | .text _ => .text
  | .list ds => .list (shows_ofItems ds)
  | .map ds => .map (shows_ofEntries ds) (.refl ds)

theorem shows_ofItems : ∀ ds : List Datum, ShowsItems sure (ofItems ds) ds
  | [] => .nil
  | d :: ds => .cons (shows_ofDatum d) (shows_ofItems ds)

theorem shows_ofEntries : ∀ ds : List (Datum × Datum), ShowsEntries sure (ofEntries ds) ds
  | [] => .nil
  | (k, v) :: ds => .cons (shows_ofDatum k) (shows_ofDatum v) (shows_ofEntries ds)

end

mutual

/-- What is shown stands where it is shown, so nothing is followed to read it. -/
theorem weight_of_shows (r : References) {n : Node} {d : Datum} :
    n.Shows sure d → n.weight r = 0
  | .null | .boolean | .integer | .real | .text | .verbatim _ => rfl
  | .list items => weightItems_of_shows r items
  | .map entries _ => weightEntries_of_shows r entries

theorem weightItems_of_shows (r : References) {ns : List Node} {ds : List Datum} :
    ShowsItems sure ns ds → weightItems r ns = 0
  | .nil => rfl
  | .cons first rest => by
    rw [weightItems, weight_of_shows r first, weightItems_of_shows r rest]

theorem weightEntries_of_shows (r : References) {es : List Entry} {ds : List (Datum × Datum)} :
    ShowsEntries sure es ds → weightEntries r es = 0
  | .nil => rfl
  | .cons name first rest => by
    rw [weightEntries, weight_of_shows r name, weight_of_shows r first,
      weightEntries_of_shows r rest]

end

theorem legibleEntries_iff {room : Nat} {ds : List (Datum × Datum)} :
    Datum.LegibleEntries sure room ds ↔ ∀ e ∈ ds, e.1.Legible sure room ∧ e.2.Legible sure room := by
  induction ds with
  | nil => simp [Datum.LegibleEntries]
  | cons e ds ih => simp [Datum.LegibleEntries, ih, and_assoc]

theorem legible_record {entries : List (String × Datum)} {room : Nat} (positive : 0 < room)
    (h : ∀ e ∈ entries, sure e.1 ∧ e.2.Legible sure (room - 1)) :
    (Datum.record entries).Legible sure room :=
  ⟨positive, legibleEntries_iff.mpr (List.forall_mem_map.mpr h)⟩

section

variable {follow : Setting → Nat → Except ReadError Datum}

mutual

/-- What is legible is taken out of its text as it is, but for the order of entries. -/
theorem toDatumBy_of_shows {n : Node} {d : Datum} {s : Setting} : n.Shows sure d →
    d.Legible sure s.room → ∃ d', n.toDatumBy follow s = .ok d' ∧ (ofDatum d').Shows sure d
  | .null, _ => ⟨_, rfl, .null⟩
  | .boolean, _ => ⟨_, rfl, .boolean⟩
  | .integer, _ => ⟨_, rfl, .integer⟩
  | .real, _ => ⟨_, rfl, .real⟩
  | .text, _ => ⟨_, rfl, .text⟩
  | @Shows.verbatim _ t _ _ _ own, h => ⟨.text t, by rw [toDatumBy, own h], .text⟩
  | @Shows.list _ ns _ p _ items, ⟨hroom, h⟩ => by
    obtain ⟨ds', hds', hshows⟩ := toItemsBy_of_shows
      (s := { s with room := s.room - 1 }) items h 0
    refine ⟨.list ds', ?_, .list hshows⟩
    simp only [toDatumBy, Setting.enter_of_room hroom p, hds']
    rfl
  | @Shows.map _ es _ _ p _ entries order, ⟨hroom, h⟩ => by
    have hentries : ∀ e ∈ _, _ := fun e he => legibleEntries_iff.mp h e (order.subset he)
    obtain ⟨ds', hds', hshows⟩ := toEntriesBy_of_shows
      (s := { s with room := s.room - 1 }) entries hentries
    refine ⟨.map ds', ?_, .map hshows order⟩
    simp only [toDatumBy, Setting.enter_of_room hroom p, hds']
    rfl

theorem toItemsBy_of_shows {ns : List Node} {ds : List Datum} {s : Setting} :
    ShowsItems sure ns ds → Datum.LegibleItems sure s.room ds → ∀ i,
      ∃ ds', toItemsBy follow s i ns = .ok ds' ∧ ShowsItems sure (ofItems ds') ds
  | .nil, _, _ => ⟨[], rfl, .nil⟩
  | .cons first rest, ⟨hfirst, hrest⟩, i => by
    obtain ⟨d', hd', hd⟩ := toDatumBy_of_shows (s := s.down (.item i)) first hfirst
    obtain ⟨ds', hds', hds⟩ := toItemsBy_of_shows rest hrest (i + 1)
    refine ⟨d' :: ds', ?_, .cons hd hds⟩
    rw [toItemsBy, hd', hds']
    rfl

theorem toEntriesBy_of_shows {es : List Entry} {ds : List (Datum × Datum)} {s : Setting} :
    ShowsEntries sure es ds → (∀ e ∈ ds, e.1.Legible sure s.room ∧ e.2.Legible sure s.room) →
      ∃ ds', toEntriesBy follow s es = .ok ds' ∧ ShowsEntries sure (ofEntries ds') ds
  | .nil, _ => ⟨[], rfl, .nil⟩
  | @ShowsEntries.cons _ key _ _ _ _ _ _ name first rest, h => by
    obtain ⟨⟨hname, hfirst⟩, hrest⟩ := List.forall_mem_cons.mp h
    obtain ⟨k', hk', hk⟩ := toDatumBy_of_shows name hname
    obtain ⟨d', hd', hd⟩ := toDatumBy_of_shows (s := s.down (keyStep key)) first hfirst
    obtain ⟨ds', hds', hds⟩ := toEntriesBy_of_shows rest hrest
    refine ⟨(k', d') :: ds', ?_, .cons hk hd hds⟩
    rw [toEntriesBy, hk', hd', hds']
    rfl

end

theorem toDatum_of_shows {n : Node} {d : Datum} {s : Setting} (h : n.Shows sure d)
    (legible : d.Legible sure s.room) :
    ∃ d', n.toDatum s = .ok d' ∧ (ofDatum d').Shows sure d := by
  unfold toDatum
  rw [weight_of_shows s.references h, if_neg (Nat.not_lt_zero _)]
  exact toDatumBy_of_shows h legible

end

end Node

/-! ### Records -/

/-- The entries that a map is known to have, by name, and those that are no fields. -/
structure Opened.Holds (sure : String → Prop) (o : Opened) (entries others : List (String × Datum)) :
    Prop where
  fields : ∀ name, match entries.lookup name with
    | some d => ∃ c, o.find? name = some c ∧ c.value.Shows sure d
    | none => o.find? name = none
  others : (Node.ofDatum (.map o.others)).Shows sure (.record others)

namespace Fields

/-- The fields take entries for a value, and what else there is. -/
def Reads (sure : String → Prop) (f : Fields α) (depth : Nat) (entries others : List (String × Datum))
    (a : α) : Prop :=
  ∀ (s : Setting) (o : Opened), depth ≤ s.room → o.Holds sure entries others → f.ofMap s o = .ok a

variable {sure : String → Prop} {depth : Nat} {entries others : List (String × Datum)} {name : String}

theorem reads_pure (a : α) : (pure a).Reads sure depth entries others a := fun _ _ _ _ => rfl

theorem Reads.and {f : Fields (α → β)} {g : Fields α} {h : α → β} {a : α}
    (hf : f.Reads sure depth entries others h) (hg : g.Reads sure depth entries others a) :
    (f.and g).Reads sure depth entries others (h a) := by
  intro s o hroom ho
  simp only [Fields.and, hf s o hroom ho, hg s o hroom ho]
  rfl

theorem Reads.field {r : Reader α} {d : Datum} {a : α} (h : entries.lookup name = some d)
    (hr : r.Reads sure depth d a) (absentMap absentRow : Option α) :
    (field name r absentMap absentRow).Reads sure depth entries others a := by
  intro s o hroom ho
  have hname := ho.fields name
  rw [h] at hname
  obtain ⟨c, hc, hshows⟩ := hname
  have hvalue := hr (s.down (keyStep c.key)) c.value hroom hshows
  simp only [Fields.field, hc, hshows.resolve, hvalue]
  rfl

theorem reads_absent {r : Reader α} (h : entries.lookup name = none) (a : α)
    (absentRow : Option α) : (field name r (some a) absentRow).Reads sure depth entries others a := by
  intro s o _ ho
  have hname := ho.fields name
  rw [h] at hname
  simp only [Fields.field, hname]

/-- An entry that is left out when absent is read as it was. -/
theorem Reads.optional {r : Reader α} {write : α → Datum} {x : Option α}
    (h : entries.lookup name = x.map write) (hr : ∀ a, r.Reads sure depth (write a) a)
    (present : ∀ a, write a ≠ .null) : (optional name r).Reads sure depth entries others x := by
  cases x with
  | none => exact reads_absent h none _
  | some a => exact Reads.field h ((hr a).optional (present a)) (some none) (some none)

end Fields

section Claims

variable {sure : String → Prop} {s : Setting} {names : List String}
  {entries : List (String × Datum)}

/-- What a claim is made of: the entry's name if that is one of a field, and the entry. -/
structure Claim.Of (sure : String → Prop) (names : List String) (c : Claim) (e : String × Datum) :
    Prop where
  name : c.name = if e.1 ∈ names then some e.1 else none
  key : c.key.Shows sure (.text e.1)
  value : c.value.Shows sure e.2

theorem keyName_of_shows {key : Node} {name : String} (h : key.Shows sure (.text name)) :
    keyName s names key = .ok name := by
  have htext := Reader.textFor_of_shows h "field identifier" s
  unfold keyName
  split
  · cases h
  · exact htext

variable (s names) in
/-- Entries of different names are claimed in their order. -/
theorem claimsFrom_of_shows {seen : List String} {es : List Entry}
    (hes : Node.ShowsEntries sure es (entries.map named)) (once : Once entries)
    (unseen : ∀ e ∈ entries, e.1 ∉ seen) (i : Nat) :
    ∃ claims, claimsFrom s names i seen es = (claims, none) ∧
      List.Forall₂ (Claim.Of sure names) claims entries := by
  induction entries generalizing es seen i with
  | nil =>
    cases hes
    exact ⟨[], rfl, .nil⟩
  | cons e entries ih =>
    obtain ⟨name, d⟩ := e
    cases hes with
    | @cons key value colon es _ _ _ hkey hvalue hes =>
      obtain ⟨hfresh, hunseen⟩ := List.forall_mem_cons.mp unseen
      obtain ⟨hother, honce⟩ := List.nodup_cons.mp once
      have hread : keyName s names (s.resolve key) = .ok name := by
        rw [hkey.resolve]
        exact keyName_of_shows hkey
      by_cases hname : name ∈ names
      · have hnext : ∀ e ∈ entries, e.1 ∉ name :: seen := fun e he hmem =>
          (List.mem_cons.mp hmem).elim (fun h => hother (List.mem_map.mpr ⟨e, he, h⟩)) (hunseen e he)
        obtain ⟨claims, hclaims, hmatch⟩ := ih hes honce hnext (i + 1)
        refine ⟨⟨i, some name, key, colon, value⟩ :: claims, ?_,
          .cons ⟨(if_pos hname).symm, hkey, hvalue⟩ hmatch⟩
        simp [claimsFrom, hread, hname, hfresh, hclaims]
      · obtain ⟨claims, hclaims, hmatch⟩ := ih hes honce hunseen (i + 1)
        refine ⟨⟨i, none, key, colon, value⟩ :: claims, ?_,
          .cons ⟨(if_neg hname).symm, hkey, hvalue⟩ hmatch⟩
        simp [claimsFrom, hread, hname, hclaims]

variable {claims : List Claim}

/-- Under the name of a field its entry is found, and under others nothing. -/
theorem find?_of_claims (h : List.Forall₂ (Claim.Of sure names) claims entries) (count : Nat)
    (close : Place) (others : List (Datum × Datum)) (name : String) :
    match (entries.filter fun e => decide (e.1 ∈ names)).lookup name with
    | some d => ∃ c, (⟨claims, count, close, others⟩ : Opened).find? name = some c ∧
        c.value.Shows sure d
    | none => (⟨claims, count, close, others⟩ : Opened).find? name = none := by
  induction h with
  | nil => rfl
  | @cons c e claims entries hce _ ih =>
    obtain ⟨name', d⟩ := e
    by_cases hname' : name' ∈ names
    · have hc : c.name = some name' := hce.name.trans (if_pos hname')
      by_cases heq : name = name'
      · subst heq
        simp [Opened.find?, hname', hc, hce.value]
      · have hne : (name == name') = false := by simpa using heq
        simpa [List.lookup_cons, hne, Opened.find?, hname', hc, Ne.symm heq] using ih
    · have hc : c.name = none := hce.name.trans (if_neg hname')
      simpa [Opened.find?, hname', hc] using ih

theorem passingFault_of_claims (h : List.Forall₂ (Claim.Of sure names) claims entries)
    (known : ∀ e ∈ entries, e.1 ∈ names) : passingFault s claims = none := by
  have hnamed : ∀ c ∈ claims, c.name.isSome := by
    induction h with
    | nil => exact fun _ hc => absurd hc List.not_mem_nil
    | cons hce _ ih =>
      obtain ⟨he, hknown⟩ := List.forall_mem_cons.mp known
      exact List.forall_mem_cons.mpr ⟨by rw [hce.name, if_pos he]; rfl, ih hknown⟩
  unfold passingFault
  split
  · exact List.findSome?_eq_none_iff.mpr fun c hc => if_pos (hnamed c hc)
  · rfl

/-- The entries that are no fields are kept, in their order. -/
theorem buffered_of_claims (h : List.Forall₂ (Claim.Of sure names) claims entries)
    (legible : ∀ e ∈ entries, e.1 ∉ names → e.2.Legible sure s.room) :
    ∃ others, buffered s claims = .ok others ∧ Node.ShowsEntries sure (Node.ofEntries others)
      ((entries.filter fun e => !decide (e.1 ∈ names)).map named) := by
  induction h with
  | nil => exact ⟨[], rfl, .nil⟩
  | @cons c e claims entries hce _ ih =>
    obtain ⟨name, d⟩ := e
    obtain ⟨hd, hlegible⟩ := List.forall_mem_cons.mp legible
    obtain ⟨others, hothers, hshows⟩ := ih hlegible
    by_cases hname : name ∈ names
    · have hc : c.name = some name := hce.name.trans (if_pos hname)
      refine ⟨others, ?_, ?_⟩
      · simp [buffered, hc, hothers]
      · simpa [hname] using hshows
    · have hc : c.name = none := hce.name.trans (if_neg hname)
      obtain ⟨d', hd', hvalue⟩ := Node.toDatum_of_shows (s := s.down (keyStep c.key)) hce.value (hd hname)
      refine ⟨(.text name, d') :: others, ?_, ?_⟩
      · have hkey := Reader.textFor_of_shows hce.key "field identifier" s
        simp only [buffered, hc, hce.key.resolve, hkey, hd', hothers]
        rfl
      · rw [List.filter_cons_of_pos (by simpa using hname)]
        exact .cons .text hvalue hshows

/-- What a map of entries is read from: the fields among them and the others. -/
structure Parts (sure : String → Prop) (names : List String) (room : Nat)
    (all entries others : List (String × Datum)) : Prop where
  order : all.Perm (entries ++ others)
  once : Once all
  known : ∀ e ∈ entries, e.1 ∈ names
  unknown : ∀ e ∈ others, e.1 ∉ names
  legible : ∀ e ∈ others, e.2.Legible sure room

namespace Parts

variable {room : Nat} {all entries others : List (String × Datum)}

theorem fields (h : Parts sure names room all entries others) :
    (all.filter fun e => decide (e.1 ∈ names)).Perm entries := by
  have horder := h.order.filter fun e => decide (e.1 ∈ names)
  have hentries : entries.filter (fun e => decide (e.1 ∈ names)) = entries :=
    List.filter_eq_self.mpr fun e he => decide_eq_true (h.known e he)
  have hothers : others.filter (fun e => decide (e.1 ∈ names)) = [] :=
    List.filter_eq_nil_iff.mpr fun e he => by simpa using h.unknown e he
  rwa [List.filter_append, hentries, hothers, List.append_nil] at horder

theorem rest (h : Parts sure names room all entries others) :
    (all.filter fun e => !decide (e.1 ∈ names)).Perm others := by
  have horder := h.order.filter fun e => !decide (e.1 ∈ names)
  have hentries : entries.filter (fun e => !decide (e.1 ∈ names)) = [] :=
    List.filter_eq_nil_iff.mpr fun e he => by simpa using h.known e he
  have hothers : others.filter (fun e => !decide (e.1 ∈ names)) = others :=
    List.filter_eq_self.mpr fun e he => by simpa using h.unknown e he
  rwa [List.filter_append, hentries, hothers, List.nil_append] at horder

theorem lookup (h : Parts sure names room all entries others) (name : String) :
    (all.filter fun e => decide (e.1 ∈ names)).lookup name = entries.lookup name := by
  refine lookup_of_perm h.fields ?_ name
  have hnames : (all.map (·.1)).Perm ((entries ++ others).map (·.1)) := h.order.map _
  have honce : ((entries ++ others).map (·.1)).Nodup := hnames.nodup_iff.mp h.once
  rw [List.map_append] at honce
  exact (List.nodup_append.mp honce).1

theorem legible_of_mem (h : Parts sure names room all entries others) :
    ∀ e ∈ all, e.1 ∉ names → e.2.Legible sure room := by
  intro e he hname
  rcases List.mem_append.mp (h.order.subset he) with he | he
  · exact absurd (h.known e he) hname
  · exact h.legible e he

end Parts

/-- **The fields of a map are read from its entries**, in whatever order these stand. -/
theorem readMap_of_shows {fields : Fields α} {depth : Nat} {all entries others : List (String × Datum)}
    {a : α} {es : List Entry} (hes : Node.ShowsEntries sure es (all.map named))
    (parts : Parts sure fields.names s.room all entries others) (isOpen : Bool)
    (closed : isOpen = false → others = []) (h : fields.Reads sure depth entries others a)
    (room : depth ≤ s.room) (start stop : Place) :
    readMap isOpen fields s es start (.closed stop) = .ok a := by
  obtain ⟨claims, hclaims, hmatch⟩ := claimsFrom_of_shows s fields.names hes
    parts.once (fun _ _ => List.not_mem_nil) 0
  have hfields : ∀ kept : List (Datum × Datum),
      (Node.ofDatum (.map kept)).Shows sure (.record others) →
        fields.ofMap s ⟨claims, es.length, stop, kept⟩ = .ok a := by
    intro kept hkept
    refine h s _ room ⟨fun name => ?_, hkept⟩
    rw [← parts.lookup name]
    exact find?_of_claims hmatch _ _ _ name
  cases isOpen with
  | true =>
    obtain ⟨kept, hbuffered, hkept⟩ := buffered_of_claims (s := s) hmatch parts.legible_of_mem
    have hread := hfields kept (.map hkept (parts.rest.map named))
    simp [readMap, hclaims, hbuffered, endingFault, lower, Ending.place, Except.toOption, hread]
  | false =>
    obtain rfl := closed rfl
    have hknown : ∀ e ∈ all, e.1 ∈ fields.names := by
      intro e he
      exact parts.known e (by simpa using parts.order.subset he)
    have hpassed := passingFault_of_claims (s := s) hmatch hknown
    have hread := hfields [] (.map .nil (.refl _))
    simp [readMap, hclaims, hpassed, endingFault, lower, Ending.place, Except.toOption, hread]

end Claims

namespace Reader

variable {sure : String → Prop} {fields : Fields α} {depth : Nat}
  {all entries others : List (String × Datum)} {a : α}

/-- **A record is read from its entries**, if they are some of its fields. -/
theorem Reads.record (h : fields.Reads sure depth entries [] a)
    (names : (entries.map (·.1)).Sublist fields.names) (distinct : fields.names.Nodup)
    (expected : String) : (Reader.record expected fields).Reads sure (depth + 1) (.record entries) a := by
  intro s n hroom hn
  obtain ⟨es, p, q, all, rfl, hes, horder⟩ := Node.entries_of_shows hn
  let inner : Setting := { s with room := s.room - 1 }
  have henter : s.enter p = .ok inner :=
    Setting.enter_of_room (Nat.lt_of_lt_of_le (Nat.succ_pos depth) hroom) p
  have hall : (all.map (·.1)).Perm (entries.map (·.1)) := horder.map _
  have parts : Parts sure fields.names inner.room all entries [] :=
    ⟨by simpa using horder, hall.nodup_iff.mpr (names.nodup distinct),
      fun e he => names.subset (List.mem_map_of_mem he), by simp, by simp⟩
  have hmap := readMap_of_shows hes parts false (fun _ => rfl) h (Nat.le_sub_one_of_lt hroom) p q
  simp only [Reader.record, henter, bind, Except.bind, hmap]
  rfl

/-- **An open record is read from its entries and what else there is**, if that has other
names and can be taken out of the text. -/
theorem Reads.openRecord {otherNames : List String} (h : fields.Reads sure depth entries others a)
    (order : all.Perm (entries ++ others)) (names : (entries.map (·.1)).Sublist fields.names)
    (rest : (others.map (·.1)).Sublist otherNames) (distinct : (fields.names ++ otherNames).Nodup)
    (legible : ∀ room, depth ≤ room → ∀ e ∈ others, e.2.Legible sure room) (expected : String) :
    (Reader.openRecord expected fields).Reads sure (depth + 1) (.record all) a := by
  intro s n hroom hn
  obtain ⟨es, p, q, all', rfl, hes, horder⟩ := Node.entries_of_shows hn
  let inner : Setting := { s with room := s.room - 1 }
  have henter : s.enter p = .ok inner :=
    Setting.enter_of_room (Nat.lt_of_lt_of_le (Nat.succ_pos depth) hroom) p
  have hinner : depth ≤ inner.room := Nat.le_sub_one_of_lt hroom
  have hall : (all'.map (·.1)).Perm (entries.map (·.1) ++ others.map (·.1)) := by
    simpa using (horder.trans order).map (·.1)
  have parts : Parts sure fields.names inner.room all' entries others :=
    ⟨horder.trans order, hall.nodup_iff.mpr ((names.append rest).nodup distinct),
      fun e he => names.subset (List.mem_map_of_mem he),
      fun e he hname => (List.nodup_append.mp distinct).2.2 e.1 hname e.1
        (rest.subset (List.mem_map_of_mem he)) rfl,
      legible inner.room hinner⟩
  have hmap := readMap_of_shows hes parts true nofun h hinner p q
  simp only [Reader.openRecord, henter, bind, Except.bind, hmap]
  rfl

end Reader

end FleetJobs.Data

namespace FleetJobs.Fleet

theorem Id.reads_toDatum {sure : String → Prop} {depth : Nat} {kind : Kind} (id : Id kind) :
    (reader : Data.Reader (Id kind)).Reads sure depth id.toDatum id :=
  (Data.Reader.reads_uint32 id.number).map Id.mk

end FleetJobs.Fleet
