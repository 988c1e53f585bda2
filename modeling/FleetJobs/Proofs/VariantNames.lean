import FleetJobs.Proofs.Unions
import Mathlib

/-! What is read stands under its own name.

Where a tag stands beside its content in an open record and both are read, the tag names the
variant that was read (`Fields.variant_of_read`), and the value is one that this variant makes
from whatever it is given (`Content.Makes`). -/
namespace FleetJobs.Data

theorem Ranked.both_eq_ok {f : Ranked (α → β)} {x : Ranked α} {b : β} (h : Ranked.both f x = .ok b) :
    ∃ g a, f = .ok g ∧ x = .ok a ∧ b = g a := by
  cases f <;> cases x <;> cases h
  exact ⟨_, _, rfl, rfl, rfl⟩

/-- A value that is checked for nothing more after it is the value itself. -/
theorem eq_ok_of_checked {x : Except ReadError α} {check : Except ReadError Unit} {a : α}
    (h : (do let b ← x; check; .ok b) = Except.ok a) : x = .ok a := by
  cases x <;> cases check <;> cases h
  rfl

namespace Fields

/-- Whatever the fields are read from, what they make is so. -/
def Makes (f : Fields α) (p : α → Prop) : Prop := ∀ s o a, f.ofMap s o = .ok a → p a

variable {p : α → Prop}

theorem makes_pure {a : α} (h : p a) : (pure a).Makes p := by
  intro s o b hb
  cases hb
  exact h

theorem Makes.and {f : Fields (β → α)} (h : f.Makes fun g => ∀ b, p (g b)) (g : Fields β) :
    (f.and g).Makes p := by
  intro s o a ha
  obtain ⟨make, b, hmake, _, rfl⟩ := Ranked.both_eq_ok ha
  exact h s o make hmake b

end Fields

theorem lower_eq_none {x y : Option (Nat × ReadError)} (h : lower x y = none) : x = none ∧ y = none := by
  cases x <;> cases y <;> simp_all [lower]

/-- A map that is read as a record has nothing wrong in it. -/
theorem readMap_eq_ok {isOpen : Bool} {f : Fields α} {s : Setting} {es : List Entry} {start : Place}
    {ending : Ending} {a : α} (h : readMap isOpen f s es start ending = .ok a) :
    ∃ claims others, claimsFrom s f.names 0 [] es = (claims, none) ∧
      (isOpen = true → buffered s claims = .ok others) ∧
      f.ofMap s ⟨claims, es.length, ending.place start, others⟩ = .ok a := by
  obtain ⟨claims, wrongKey, hclaims⟩ : ∃ claims wrongKey,
      claimsFrom s f.names 0 [] es = (claims, wrongKey) := ⟨_, _, rfl⟩
  simp only [readMap, hclaims] at h
  split at h
  case h_1 hfields hshape =>
    cases h
    obtain ⟨hkeys, hrest⟩ := lower_eq_none hshape
    obtain ⟨hothers, _⟩ := lower_eq_none hrest
    obtain ⟨rfl, _⟩ := lower_eq_none hkeys
    refine ⟨claims, _, hclaims, fun hopen => ?_, hfields⟩
    subst hopen
    cases hb : buffered s claims with
    | ok others => rfl
    | error e => simp [hb] at hothers
  all_goals cases h

/-- Whatever a variant is read from, what it makes is so. -/
def Content.Makes (p : α → Prop) : Content α → Prop
  | .nothing a => p a
  | .fields f => f.Makes p

theorem Content.Makes.of_read {c : Case α} {p : α → Prop} (h : c.content.Makes p) {content : String}
    {s : Setting} {a : α}
    (read : c.withoutContent content = .ok a ∨ ∃ d, c.readContent s d = .ok a) : p a := by
  obtain ⟨name, label, what⟩ := c
  rcases read with read | ⟨d, read⟩
  · cases what <;> cases read
    exact h
  · cases what with
    | nothing b =>
      cases d <;> cases read
      exact h
    | fields f =>
      cases d with
      | map entries =>
        obtain ⟨_, _, _, _, ha⟩ := readMap_eq_ok read
        exact h _ _ a ha
      | _ => cases read

theorem Case.mem_of_lookup {cases : List (Case α)} {name : String} {c : Case α}
    (h : (Case.options cases).lookup name = some c) : c ∈ cases ∧ c.name = name := by
  obtain ⟨before, after, heq, _⟩ := List.lookup_eq_some_iff.mp h
  have hmem : (name, c) ∈ Case.options cases := by simp [heq]
  obtain ⟨c', hc', heq'⟩ := List.mem_map.mp hmem
  cases heq'
  exact ⟨hc', rfl⟩

section Tags

variable {sure : String → Prop} {s : Setting} {names : List String} {entries : List (String × Datum)}

/-- What an open record keeps has names, and a text under a name stays there. -/
theorem buffered_texts {claims : List Claim} (h : List.Forall₂ (Claim.Of InQuotes names) claims entries)
    {others : List (Datum × Datum)} (hb : buffered s claims = .ok others) :
    ∃ kept : List (String × Datum), others = kept.map named ∧
      ∀ name t, name ∉ names → entries.lookup name = some (.text t) →
        kept.lookup name = some (.text t) := by
  induction h generalizing others with
  | nil =>
    cases hb
    exact ⟨[], rfl, fun _ _ _ h => h⟩
  | @cons c e claims entries hce _ ih =>
    obtain ⟨name', d⟩ := e
    by_cases hname' : name' ∈ names
    · have hc : c.name = some name' := hce.name.trans (if_pos hname')
      simp only [buffered, hc, Option.isSome_some, if_true] at hb
      obtain ⟨kept, hkept, hlookup⟩ := ih hb
      refine ⟨kept, hkept, fun name t hname ht => hlookup name t hname ?_⟩
      have hne : (name == name') = false := by
        simpa using fun heq : name = name' => hname (heq ▸ hname')
      simpa [List.lookup_cons, hne] using ht
    · have hc : c.name = none := hce.name.trans (if_neg hname')
      have hkey := Reader.textFor_of_shows hce.key "field identifier" s
      simp only [buffered, hc, hce.key.resolve, hkey] at hb
      cases hv : c.value.toDatum (s.down (keyStep c.key)) with
      | error e => simp [hv] at hb
      | ok v =>
        cases hrest : buffered s claims with
        | error e => simp [hv, hrest, Except.map] at hb
        | ok rest =>
          obtain ⟨kept, rfl, hlookup⟩ := ih hrest
          simp only [hv, hrest] at hb
          cases hb
          refine ⟨(name', v) :: kept, rfl, fun name t hname ht => ?_⟩
          by_cases heq : name = name'
          · subst heq
            obtain rfl : d = .text t := by simpa using ht
            obtain ⟨d', hd', hshows⟩ := Node.toDatum_of_shows (s := s.down (keyStep c.key)) hce.value trivial
            rw [hv] at hd'
            cases hd'
            simp [Node.eq_text_of_shows hshows]
          · have hne : (name == name') = false := by simpa using heq
            simp only [List.lookup_cons, hne] at ht ⊢
            exact hlookup name t hname ht

theorem lookup_filter {p : String → Bool} {name : String} (h : p name = true)
    (kept : List (String × Datum)) : (kept.filter fun e => p e.1).lookup name = kept.lookup name := by
  induction kept with
  | nil => rfl
  | cons e kept ih =>
    by_cases heq : name = e.1
    · rw [List.filter_cons_of_pos (by simpa [← heq] using h)]
      rw [List.lookup_cons, List.lookup_cons, heq, beq_self_eq_true]
    · have hne : (name == e.1) = false := by simpa using heq
      rw [List.lookup_cons, hne, ← ih, List.filter_cons]
      split
      · rw [List.lookup_cons, hne]
      · rfl

variable {tag content : String} {cases : List (Case α)} {kept : List (String × Datum)} {name : String} {a : α}

theorem lookup_of_outerTag {c : Case α} (h : outerTag s cases (.text name) = .ok c) :
    (Case.options cases).lookup name = some c := by
  simp only [outerTag, Node.ofDatum, Node.ofAtom, choiceInData, known] at h
  split at h
  case h_1 hlookup => exact Except.ok.inj h ▸ hlookup
  case h_2 => cases h

/-- What is read beside a tag is read as the variant of that name. -/
theorem variant_of_read (h : readTagAndContent tag content cases s (kept.map named) = .ok a)
    (ht : kept.lookup tag = some (.text name)) :
    ∃ c, (Case.options cases).lookup name = some c ∧
      (c.withoutContent content = .ok a ∨ ∃ d, c.readContent s d = .ok a) := by
  let isRelevant (name : String) : Bool := decide (name = tag ∨ name = content)
  have hrelevant : (kept.filterMap fun e =>
      if e.1 = tag ∨ e.1 = content then some (e.1, e.2) else none) =
        kept.filter fun e => isRelevant e.1 := by
    rw [← List.filterMap_eq_filter]
    simp [Option.guard, isRelevant]
  simp only [readTagAndContent, List.filterMap_map, Function.comp_def, named, hrelevant] at h
  have hlookup := (lookup_filter (show isRelevant tag = true by simp [isRelevant]) kept).trans ht
  have hnames : ∀ e ∈ kept.filter fun e => isRelevant e.1, e.1 = tag ∨ e.1 = content :=
    fun e he => by simpa [isRelevant] using (List.mem_filter.mp he).2
  generalize (kept.filter fun e => isRelevant e.1) = relevant at h hlookup hnames
  cases relevant with
  | nil => cases h
  | cons entry rest =>
    obtain ⟨first, v⟩ := entry
    by_cases hfirst : first = tag
    · obtain rfl : v = .text name := by simpa [hfirst] using hlookup
      simp only [if_pos hfirst] at h
      obtain ⟨c, hc, h⟩ := bind_eq_ok.mp h
      refine ⟨c, lookup_of_outerTag hc, ?_⟩
      cases rest with
      | nil => exact .inl h
      | cons entry rest =>
        obtain ⟨second, v'⟩ := entry
        by_cases hsecond : second = tag
        · simp [hsecond] at h
        · simp only [if_neg hsecond] at h
          exact .inr ⟨v', eq_ok_of_checked h⟩
    · have hcontent : first = content := (hnames _ List.mem_cons_self).resolve_left hfirst
      simp only [if_neg hfirst] at h
      cases rest with
      | nil => cases h
      | cons entry rest =>
        obtain ⟨second, v'⟩ := entry
        by_cases hsecond : second = content
        · simp [hsecond] at h
        · have htag : second = tag :=
            (hnames _ (List.mem_cons_of_mem _ List.mem_cons_self)).resolve_right hsecond
          have hne : (tag == first) = false := by simpa using Ne.symm hfirst
          obtain rfl : v' = .text name := by simpa [List.lookup_cons, hne, htag] using hlookup
          simp only [if_neg hsecond] at h
          obtain ⟨c, hc, h⟩ := bind_eq_ok.mp h
          exact ⟨c, lookup_of_outerTag hc, .inr ⟨v, eq_ok_of_checked h⟩⟩

/-- The same, from the entries of an open record that are no fields. -/
theorem Fields.variant_of_read {o : Opened}
    (h : (Fields.tagAndContent tag content cases).ofMap s o = .ok a) (others : o.others = kept.map named)
    (ht : kept.lookup tag = some (.text name)) :
    ∃ c, (Case.options cases).lookup name = some c ∧
      (c.withoutContent content = .ok a ∨ ∃ d, c.readContent s.buffered d = .ok a) := by
  simp only [Fields.tagAndContent, Fields.leftover, others] at h
  exact Data.variant_of_read (mapError_eq_ok.mp h) ht

/-- An open record that is read keeps the texts under names that are no fields. -/
theorem Reader.kept_of_read {fields : Fields α} {n : Node} (hn : n.Shows InQuotes (.record entries))
    (once : Once entries) {expected : String} (h : openRecord expected fields s n = .ok a) :
    ∃ (inner : Setting) (o : Opened) (kept : List (String × Datum)),
      fields.ofMap inner o = .ok a ∧ o.others = kept.map named ∧ ∀ name t, name ∉ fields.names →
        entries.lookup name = some (.text t) → kept.lookup name = some (.text t) := by
  obtain ⟨es, p, q, all, rfl, hes, horder⟩ := Node.entries_of_shows hn
  have hall : (all.map (·.1)).Perm (entries.map (·.1)) := horder.map _
  obtain ⟨inner, _, h⟩ := bind_eq_ok.mp h
  obtain ⟨claims, others, hclaims, hothers, hmap⟩ := readMap_eq_ok (mapError_eq_ok.mp h)
  obtain ⟨claims', hclaims', hmatch⟩ := claimsFrom_of_shows inner fields.names hes
    (hall.nodup_iff.mpr once) (fun _ _ => List.not_mem_nil) 0
  obtain rfl : claims = claims' := congrArg Prod.fst (hclaims.symm.trans hclaims')
  obtain ⟨kept, hkept, hlookup⟩ := buffered_texts hmatch (hothers rfl)
  refine ⟨inner, _, kept, hmap, hkept, fun name t hname ht => hlookup name t hname ?_⟩
  rw [lookup_of_perm horder once, ht]

end Tags

end FleetJobs.Data
