import FleetJobs.Data.Variant
import FleetJobs.Proofs.Readback
import Mathlib.Data.List.Permutation

/-! Readers of choices and unions.

A union is written as the name of its variant under a tag and the fields of the variant,
beside the tag or in a map of their own. Inside an open record it is made of the entries that
are no fields, taken out of their text as data and read again (`Fields.Reads.union`,
`Fields.Reads.tagAndContent`). The name must be one that no reader takes for something else,
and that of a variant which takes the other entries for the value (`Content.Takes`). -/
namespace FleetJobs.Data

variable {sure : String → Prop} {depth : Nat}

/-! ### Names alone -/

theorem known_of_lookup {cases : List (String × α)} {name : String} {a : α}
    (h : cases.lookup name = some a) (s : Setting) (p : Place) : known s p cases name = .ok a := by
  simp only [known, h]

/-- A text that is taken for nothing else is one on its own. -/
theorem Node.eq_of_shows {n : Node} {t : String} (h : n.Shows sure (.text t)) (own : sure t) :
    ∃ v p q, n = .scalar ⟨.ok (.text t), v, .ok false, none⟩ p q := by
  cases h with
  | text => exact ⟨_, _, _, rfl⟩
  | verbatim hatom =>
    obtain rfl := hatom own
    exact ⟨_, _, _, rfl⟩

theorem choiceInData_of_shows {cases : List (String × α)} {name : String} {a : α}
    (h : cases.lookup name = some a) (own : sure name) {n : Node} (hn : n.Shows sure (.text name))
    (s : Setting) : choiceInData s cases n = .ok a := by
  obtain ⟨v, p, q, rfl⟩ := Node.eq_of_shows hn own
  exact known_of_lookup h s q

theorem Reader.reads_choice {cases : List (String × α)} {name : String} {a : α}
    (h : cases.lookup name = some a) (own : sure name) (typeName : String) :
    (choice typeName cases).Reads sure depth (.text name) a := by
  intro s n _ hn
  obtain ⟨medium, path, room, references⟩ := s
  cases medium with
  | tree | buffer => exact choiceInData_of_shows h own hn _
  | jsonText =>
    obtain ⟨v, p, q, rfl⟩ := Node.eq_of_shows hn own
    exact known_of_lookup h _ q
  | yamlText => cases hn <;> exact known_of_lookup h _ _

theorem tagName_of_shows {cases : List (String × α)} {name : String} {a : α}
    (h : cases.lookup name = some a) {n : Node} (hn : n.Shows sure (.text name)) (s : Setting) :
    tagName s cases n = .ok a := by
  have htext := Reader.textFor_of_shows hn "variant identifier" s
  unfold tagName
  split
  · cases hn
  · simp only [htext, bind, Except.bind]
    exact known_of_lookup h s _

/-! ### Variants -/

/-- What follows the name of a variant is taken for the value. -/
def Content.Takes (sure : String → Prop) (c : Content α) (depth : Nat)
    (entries : List (String × Datum)) (a : α) : Prop :=
  match c with
  | .nothing b => b = a ∧ entries = []
  | .fields f => f.Reads sure depth entries [] a ∧ (∀ e ∈ entries, e.1 ∈ f.names) ∧ Once entries

theorem Content.takes_fields {f : Fields α} {entries : List (String × Datum)} {a : α}
    (h : f.Reads sure depth entries [] a) (names : (entries.map (·.1)).Sublist f.names)
    (distinct : f.names.Nodup) : (Content.fields f).Takes sure depth entries a :=
  ⟨h, fun _ he => names.subset (List.mem_map_of_mem he), names.nodup distinct⟩

/-- A variant with one field. -/
theorem Content.takes_one {r : Reader α} {d : Datum} {a : α} (h : r.Reads sure depth d a)
    (name : String) (f : α → β) :
    (Content.fields ((Fields.pure f).and (.required name r))).Takes sure depth [(name, d)] (f a) := by
  have hlookup : List.lookup name [(name, d)] = some d := by simp
  exact takes_fields ((Fields.reads_pure f).and (.field hlookup h none none)) (.refl _)
    (List.nodup_singleton name)

theorem readMap_of_takes {f : Fields α} {entries : List (String × Datum)} {a : α}
    (h : (Content.fields f).Takes sure depth entries a) {es : List Entry}
    {all : List (String × Datum)} (hes : Node.ShowsEntries sure es (all.map named))
    (order : all.Perm entries) {s : Setting} (room : depth ≤ s.room) (start stop : Place) :
    readMap false f s es start (.closed stop) = .ok a := by
  obtain ⟨hreads, hknown, honce⟩ := h
  have hnames : (all.map (·.1)).Perm (entries.map (·.1)) := order.map _
  exact readMap_of_shows hes ⟨by simpa using order, hnames.nodup_iff.mpr honce, hknown, by simp, by simp⟩
    false (fun _ => rfl) hreads room start stop

theorem Case.read_of_takes {c : Case α} {entries all : List (String × Datum)} {a : α}
    (takes : c.content.Takes sure depth entries a) {kept : List (Datum × Datum)}
    (hkept : Node.ShowsEntries sure (Node.ofEntries kept) (all.map named)) (order : all.Perm entries)
    {s : Setting} (room : depth ≤ s.room) : c.read s (.ofDatum (.map kept)) = .ok a := by
  obtain ⟨name, label, content⟩ := c
  cases content with
  | nothing b =>
    obtain ⟨rfl, _⟩ := takes
    rfl
  | fields f => exact readMap_of_takes takes hkept order room nowhere nowhere

/-! ### The tag among its fields -/

section Tagged

variable {tag : String} {cases : List (Case α)} {entries : List (String × Datum)} {s : Setting}

variable (cases) in
/-- An entry beside the tag is kept. -/
theorem splitTag_cons {key value : Node} {name : String} {d : Datum}
    (hkey : key.Shows sure (.text name)) (own : sure name) (hname : name ≠ tag)
    (hvalue : value.Shows sure d) (legible : d.Legible sure s.room) (colon : Place)
    (es : List Entry) (found : Option (Case α)) :
    ∃ d', (Node.ofDatum d').Shows sure d ∧ splitTag s tag cases found ((key, colon, value) :: es) =
      (splitTag s tag cases found es).map fun r => (r.1, (.text name, d') :: r.2) := by
  obtain ⟨d', hd', hshows⟩ := Node.toDatum_of_shows (s := s.down (keyStep key)) hvalue legible
  obtain ⟨v, p, q, rfl⟩ := Node.eq_of_shows hkey own
  refine ⟨d', hshows, ?_⟩
  cases found <;>
    simp only [splitTag, hkey.resolve, if_neg hname, hd', bind, Except.bind] <;>
    cases splitTag s tag cases _ es <;> rfl

variable (cases) in
/-- Entries without the tag are all kept. -/
theorem splitTag_of_untagged {es : List Entry} (hes : Node.ShowsEntries sure es (entries.map named))
    (untagged : ∀ e ∈ entries, e.1 ≠ tag) (own : ∀ e ∈ entries, sure e.1)
    (legible : ∀ e ∈ entries, e.2.Legible sure s.room) (found : Option (Case α)) :
    ∃ kept, splitTag s tag cases found es = .ok (found, kept) ∧
      Node.ShowsEntries sure (Node.ofEntries kept) (entries.map named) := by
  induction entries generalizing es with
  | nil =>
    cases hes
    exact ⟨[], rfl, .nil⟩
  | cons e entries ih =>
    cases hes with
    | @cons key value colon es _ _ _ hkey hvalue hes =>
      obtain ⟨hname, huntagged⟩ := List.forall_mem_cons.mp untagged
      obtain ⟨hown, howns⟩ := List.forall_mem_cons.mp own
      obtain ⟨hlegible, hlegibles⟩ := List.forall_mem_cons.mp legible
      obtain ⟨kept, hkept, hshows⟩ := ih hes huntagged howns hlegibles
      obtain ⟨d', hd', heq⟩ := splitTag_cons cases hkey hown hname hvalue hlegible colon es found
      refine ⟨(.text e.1, d') :: kept, ?_, .cons .text hd' hshows⟩
      rw [heq, hkept]
      rfl

/-- The tag is found wherever it stands, and the other entries are kept. -/
theorem splitTag_of_shows {name : String} {c : Case α}
    (lookup : (Case.options cases).lookup name = some c) {before after : List (String × Datum)}
    {es : List Entry}
    (hes : Node.ShowsEntries sure es ((before ++ (tag, .text name) :: after).map named))
    (tagged : sure tag) (untagged : ∀ e ∈ before ++ after, e.1 ≠ tag)
    (own : ∀ e ∈ before ++ after, sure e.1)
    (legible : ∀ e ∈ before ++ after, e.2.Legible sure s.room) :
    ∃ kept, splitTag s tag cases none es = .ok (some c, kept) ∧
      Node.ShowsEntries sure (Node.ofEntries kept) ((before ++ after).map named) := by
  induction before generalizing es with
  | nil =>
    cases hes with
    | @cons key value colon es _ _ _ hkey hvalue hes =>
      obtain ⟨kept, hkept, hshows⟩ :=
        splitTag_of_untagged cases hes untagged own legible (some c)
      refine ⟨kept, ?_, hshows⟩
      have hc := tagName_of_shows lookup hvalue (s.down (keyStep key))
      obtain ⟨v, p, q, rfl⟩ := Node.eq_of_shows hkey tagged
      simp only [splitTag, hkey.resolve, hvalue.resolve, if_true, hc, bind, Except.bind, hkept]
  | cons e before ih =>
    cases hes with
    | @cons key value colon es _ _ _ hkey hvalue hes =>
      obtain ⟨hname, huntagged⟩ := List.forall_mem_cons.mp untagged
      obtain ⟨hown, howns⟩ := List.forall_mem_cons.mp own
      obtain ⟨hlegible, hlegibles⟩ := List.forall_mem_cons.mp legible
      obtain ⟨kept, hkept, hshows⟩ := ih hes huntagged howns hlegibles
      obtain ⟨d', hd', heq⟩ := splitTag_cons cases hkey hown hname hvalue hlegible colon es none
      refine ⟨(.text e.1, d') :: kept, ?_, .cons .text hd' hshows⟩
      rw [heq, hkept]
      rfl

/-- **A union is read from the name of its variant under the tag and what the variant takes
for the value**, in whatever order they stand. -/
theorem Reader.reads_tagged {name : String} {c : Case α} {a : α}
    (lookup : (Case.options cases).lookup name = some c) (takes : c.content.Takes sure depth entries a)
    (tagged : sure tag) (untagged : tag ∉ entries.map (·.1)) (own : ∀ e ∈ entries, sure e.1)
    (legible : ∀ room, depth ≤ room → ∀ e ∈ entries, e.2.Legible sure room) (typeName : String) :
    (Reader.tagged tag typeName cases).Reads sure (depth + 1)
      (.record ((tag, .text name) :: entries)) a := by
  intro s n hroom hn
  obtain ⟨es, p, q, all, rfl, hes, horder⟩ := Node.entries_of_shows hn
  obtain ⟨before, after, rfl⟩ := List.append_of_mem (horder.symm.subset List.mem_cons_self)
  have hrest : (before ++ after).Perm entries :=
    (List.perm_cons _).mp (List.perm_middle.symm.trans horder)
  have huntagged : ∀ e ∈ before ++ after, e.1 ≠ tag := fun e he heq =>
    untagged (List.mem_map.mpr ⟨e, hrest.subset he, heq⟩)
  let inner : Setting := { s with room := s.room - 1 }
  have henter : s.enter p = .ok inner :=
    Setting.enter_of_room (Nat.lt_of_lt_of_le (Nat.succ_pos depth) hroom) p
  obtain ⟨kept, hsplit, hkept⟩ := splitTag_of_shows (s := inner) lookup hes tagged huntagged
    (fun e he => own e (hrest.subset he))
    (fun e he => legible inner.room (Nat.le_sub_one_of_lt hroom) e (hrest.subset he))
  have hread := Case.read_of_takes takes hkept hrest (s := s.buffered) (Nat.le_of_succ_le hroom)
  simp only [Reader.tagged, henter, bind, Except.bind, hsplit, Except.mapError, Reader.closed, hread]

/-- A variant without fields. -/
theorem Reader.reads_bare {name label : String} {a : α}
    (lookup : (Case.options cases).lookup name = some ⟨name, label, .nothing a⟩) (tagged : sure tag)
    (typeName : String) :
    (Reader.tagged tag typeName cases).Reads sure (depth + 1) (.record [(tag, .text name)]) a :=
  reads_tagged lookup ⟨rfl, rfl⟩ tagged List.not_mem_nil (fun _ he => absurd he List.not_mem_nil)
    (fun _ _ _ he => absurd he List.not_mem_nil) typeName

/-- A variant with one field. -/
theorem Reader.reads_single {name label field : String} {r : Reader β} {d : Datum} {b : β} {f : β → α}
    (lookup : (Case.options cases).lookup name =
      some ⟨name, label, .fields ((Fields.pure f).and (.required field r))⟩)
    (h : r.Reads sure depth d b) (tagged : sure tag) (other : tag ≠ field) (own : sure field)
    (legible : ∀ room, depth ≤ room → d.Legible sure room) (typeName : String) :
    (Reader.tagged tag typeName cases).Reads sure (depth + 1)
      (.record [(tag, .text name), (field, d)]) (f b) :=
  reads_tagged lookup (Content.takes_one h field f) tagged (by simpa using other)
    (fun _ he => List.mem_singleton.mp he ▸ own)
    (fun room hroom _ he => List.mem_singleton.mp he ▸ legible room hroom) typeName

end Tagged

/-! ### Inside an open record -/

theorem Case.readContent_of_takes {c : Case α} {entries : List (String × Datum)} {a : α} {f : Fields α}
    (hf : c.content = .fields f) (takes : c.content.Takes sure depth entries a) {d : Datum}
    (hd : (Node.ofDatum d).Shows sure (.record entries)) {s : Setting} (room : depth ≤ s.room) :
    c.readContent s d = .ok a := by
  obtain ⟨kept, all, rfl, hkept, horder⟩ := Node.eq_map_of_shows hd
  obtain ⟨name, label, content⟩ := c
  obtain rfl : content = .fields f := hf
  exact readMap_of_takes takes hkept horder room nowhere nowhere

namespace Fields

variable {tag content : String} {cases : List (Case α)} {a : α} {name : String} {c : Case α}
  {entries others : List (String × Datum)}

/-- A union that an open record makes of what else there is. -/
theorem Reads.union {typeName : String}
    (h : (Reader.tagged tag typeName cases).Reads sure depth (.record others) a) :
    (Fields.union tag typeName cases).Reads sure depth entries others a := by
  intro s o hroom ho
  have hread := h s.buffered _ hroom ho.others
  simp only [Fields.union, Fields.leftover, hread]
  rfl

/-- A tag without content, and nothing else. -/
theorem Reads.tagAlone (lookup : (Case.options cases).lookup name = some c)
    (hc : c.content = .nothing a) (own : sure name) :
    (Fields.tagAndContent tag content cases).Reads sure depth entries [(tag, .text name)] a := by
  intro s o hroom ho
  obtain ⟨_, all, heq, hkept, horder⟩ := Node.eq_map_of_shows ho.others
  cases heq
  obtain rfl : all = [(tag, .text name)] := List.perm_singleton.mp horder
  obtain ⟨d, rest, hothers, hd, hrest⟩ := Node.ofEntries_cons hkept
  obtain rfl := Node.ofEntries_nil hrest
  have houter : outerTag s.buffered cases d = .ok c := choiceInData_of_shows lookup own hd _
  simp only [Fields.tagAndContent, Fields.leftover, hothers, readTagAndContent]
  simp [houter, Case.withoutContent, hc, bind, Except.bind, Except.mapError]

/-- A tag and its content in either order, and nothing else. -/
theorem Reads.tagAndContent {rest : List (String × Datum)} {f : Fields α}
    (lookup : (Case.options cases).lookup name = some c) (hf : c.content = .fields f)
    (takes : c.content.Takes sure depth rest a) (own : sure name) (distinct : content ≠ tag) :
    (Fields.tagAndContent tag content cases).Reads sure depth entries
      [(tag, .text name), (content, .record rest)] a := by
  intro s o hroom ho
  obtain ⟨_, all, heq, hkept, horder⟩ := Node.eq_map_of_shows ho.others
  cases heq
  have houter : ∀ d, (Node.ofDatum d).Shows sure (.text name) →
      outerTag s.buffered cases d = .ok c := fun d hd => choiceInData_of_shows lookup own hd _
  have hinner : ∀ d, (Node.ofDatum d).Shows sure (.record rest) →
      c.readContent s.buffered d = .ok a := fun d hd => Case.readContent_of_takes hf takes hd hroom
  rcases List.perm_pair.mp horder with rfl | rfl
  · obtain ⟨d, _, hothers, hd, hothers'⟩ := Node.ofEntries_cons hkept
    obtain ⟨d', _, rfl, hd', hnone⟩ := Node.ofEntries_cons hothers'
    obtain rfl := Node.ofEntries_nil hnone
    simp [Fields.tagAndContent, Fields.leftover, hothers, readTagAndContent, distinct, houter d hd,
      hinner d' hd', bind, Except.bind, Except.mapError]
  · obtain ⟨d, _, hothers, hd, hothers'⟩ := Node.ofEntries_cons hkept
    obtain ⟨d', _, rfl, hd', hnone⟩ := Node.ofEntries_cons hothers'
    obtain rfl := Node.ofEntries_nil hnone
    simp [Fields.tagAndContent, Fields.leftover, hothers, readTagAndContent, distinct, distinct.symm,
      houter d' hd', hinner d hd, bind, Except.bind, Except.mapError]

end Fields

end FleetJobs.Data
