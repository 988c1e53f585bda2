import FleetJobs.Proofs.YamlSpelling
import FleetJobs.Yaml.Read

/-! Documents that were written are read back.

The tokens that spell a datum are grouped into a node that shows it (`value_of_spell`): an
unquoted text means what was written, because a text that would mean something else has
quotes. A reader that takes the datum for a value therefore takes its text for it
(`read_write`). -/
namespace FleetJobs.Yaml

open FleetJobs.Data

/-! ### Digits -/

theorem digitValue?_of_isDigit {c : Char} (h : c.isDigit = true) :
    digitValue? 10 c = some (c.toNat - 48) := by
  have hnat : 48 ≤ c.toNat ∧ c.toNat ≤ 57 := by
    simpa [Char.isDigit, UInt32.le_iff_toNat_le] using h
  have hbounds : '0' ≤ c ∧ c ≤ '9' := hnat
  have hsmall : c.toNat - 48 < 10 := by omega
  simp only [digitValue?, hbounds, and_self, if_true, Option.filter_some, decide_eq_true hsmall]

theorem foldlM_digits {cs : List Char} (digits : ∀ c ∈ cs, c.isDigit = true) (n : Nat) :
    cs.foldlM (fun n c => (digitValue? 10 c).map (n * 10 + ·)) n = some (Nat.ofDigitChars 10 cs n) := by
  induction cs generalizing n with
  | nil => rfl
  | cons c cs ih =>
    obtain ⟨hc, hcs⟩ := List.forall_mem_cons.mp digits
    rw [List.foldlM_cons, digitValue?_of_isDigit hc]
    simp only [Option.map_some, Option.bind_eq_bind, Option.bind_some, ih hcs, Nat.ofDigitChars, List.foldl_cons, Nat.mul_comm]
    rfl

theorem isDigit_of_mem {n : Nat} {c : Char} (h : c ∈ Nat.toDigits 10 n) : c.isDigit = true :=
  Nat.isDigit_of_mem_toDigits (by decide) (by decide) h

theorem natural?_toDigits (n : Nat) : natural? 10 (Nat.toDigits 10 n) = some n := by
  have hfold := foldlM_digits (fun _ => isDigit_of_mem (n := n)) 0
  rw [Nat.ofDigitChars_toDigits (by decide) (by decide)] at hfold
  unfold natural?
  split
  · exact absurd ‹_› Nat.toDigits_ne_nil
  · exact hfold

/-- A number of several digits does not begin with a zero. -/
theorem head_toDigits {n : Nat} (h : 0 < n) : (Nat.toDigits 10 n).head? ≠ some '0' := by
  induction n using Nat.strongRecOn with
  | _ n ih =>
    by_cases hn : n < 10
    · rw [Nat.toDigits_of_lt_base hn]
      have hdigit : ∀ m < 10, 0 < m → m.digitChar ≠ '0' := by decide
      simpa using hdigit n hn h
    · have hle : 10 ≤ n := Nat.le_of_not_lt hn
      have hshorter : n / 10 < n := Nat.div_lt_self h (by decide)
      rw [Nat.toDigits_of_base_le (by decide) hle, List.head?_append_of_ne_nil _ Nat.toDigits_ne_nil]
      exact ih (n / 10) hshorter (Nat.div_pos hle (by decide))

section Naturals

variable (n : Nat)

theorem unsigned_toDigits : unsigned (Nat.toDigits 10 n) = Nat.toDigits 10 n := by
  unfold unsigned
  split
  · rename_i heq
    exact absurd (isDigit_of_mem (heq ▸ List.mem_cons_self)) (by decide)
  · rfl

theorem isPadded_toDigits : isPadded (Nat.toDigits 10 n) = false := by
  unfold isPadded
  split
  · rename_i heq
    exact absurd (isDigit_of_mem (heq ▸ List.mem_cons_self)) (by decide)
  · simp only [unsigned_toDigits]
    split
    · rename_i heq
      rcases Nat.eq_zero_or_pos n with rfl | hn
      · simp [Nat.toDigits_zero] at heq
      · exact absurd (by rw [heq]; rfl) (head_toDigits hn)
    · rfl

theorem decimal?_toDigits (h : n < Nat.pow 2 128) : decimal? (Nat.toDigits 10 n) = some (n : Int) := by
  unfold decimal?
  split
  · rename_i heq
    exact absurd (isDigit_of_mem (heq ▸ List.mem_cons_self)) (by decide)
  · rw [unsigned_toDigits, natural?_toDigits]
    simp [h]

theorem prefixed?_toDigits {mark : Char} (h : mark.isDigit = false) (base : Nat) :
    prefixed? base mark (Nat.toDigits 10 n) = none := by
  unfold prefixed?
  split
  · rename_i heq
    exact absurd (isDigit_of_mem (heq ▸ List.mem_cons_self)) (by decide)
  · rw [unsigned_toDigits]
    split
    · rename_i m rest heq
      have hdigit : m.isDigit = true := isDigit_of_mem (heq ▸ List.mem_cons_of_mem _ List.mem_cons_self)
      rw [if_neg]
      rintro rfl
      exact absurd hdigit (by simp [h])
    · rfl

theorem natural_ne_word {w : String} (h : ∃ c ∈ w.toList, c.isDigit = false) : toString (n : Int) ≠ w := by
  rintro rfl
  obtain ⟨c, hc, hno⟩ := h
  rw [toList_natural] at hc
  exact absurd (isDigit_of_mem hc) (by simp [hno])

theorem isNothing_natural : isNothing (toString (n : Int)) = false := by
  have htilde : toString (n : Int) ≠ "~" := natural_ne_word n ⟨'~', by decide, rfl⟩
  have hnull : toString (n : Int) ≠ "null" := natural_ne_word n ⟨'n', by decide, rfl⟩
  rw [isNothing, beq_false_of_ne htilde, beq_false_of_ne hnull]
  rfl

theorem plainAtom_natural (h : n < 18446744073709551616) : plainAtom (toString (n : Int)) = .integer n := by
  have htrue : toString (n : Int) ≠ "true" := natural_ne_word n ⟨'t', by decide, rfl⟩
  have hfalse : toString (n : Int) ≠ "false" := natural_ne_word n ⟨'f', by decide, rfl⟩
  have hx := prefixed?_toDigits n (show 'x'.isDigit = false from rfl) 16
  have ho := prefixed?_toDigits n (show 'o'.isDigit = false from rfl) 8
  have hb := prefixed?_toDigits n (show 'b'.isDigit = false from rfl) 2
  have hdecimal := decimal?_toDigits n (Nat.lt_trans h (by decide))
  have hinteger : integerAtom n = .integer n := by
    have hlow : -Int.pow 2 63 ≤ (n : Int) := Int.le_trans (by decide) (Int.natCast_nonneg n)
    have hhigh : (n : Int) < Int.pow 2 64 := Int.ofNat_lt.mpr h
    exact if_pos ⟨hlow, hhigh⟩
  unfold plainAtom
  simp only [isNothing_natural, htrue, hfalse, toList_natural, List.findSome?_cons,
    List.findSome?_nil, hx, ho, hb, isPadded_toDigits, hdecimal, hinteger, Bool.false_eq_true, if_false]

end Naturals

/-! ### Scalars -/

/-- A text that stands for itself without quotes. -/
def IsSure (t : String) : Prop := plainAtom t = .text t

theorem isNothing_of_needsQuotes {t : String} (h : needsQuotes t = false) : isNothing t = false := by
  have hwords : reservedWords.contains t = false := by
    unfold needsQuotes at h
    cases hcs : t.toList with
    | nil => simp [hcs] at h
    | cons c cs =>
      simp only [hcs, Bool.or_eq_false_iff] at h
      exact h.1.2
  have hne (w : String) (hw : w ∈ reservedWords) : t ≠ w := by
    rintro rfl
    simp [hw] at hwords
  rw [isNothing, beq_false_of_ne (hne "~" (by decide)), beq_false_of_ne (hne "null" (by decide))]
  rfl

variable {p : Place}

theorem shows_null : (Node.scalar (scalarOf true none "~") p p).Shows IsSure .null := by
  have hatom : plainAtom "~" = .null := rfl
  have habsent : isNothing "~" = true := rfl
  simp only [scalarOf, if_true, hatom, absence, habsent, Option.bind_none]
  exact .null

theorem shows_boolean (b : Bool) :
    (Node.scalar (scalarOf true none (if b then "true" else "false")) p p).Shows IsSure (.boolean b) := by
  have hatom : plainAtom (if b then "true" else "false") = .boolean b := by cases b <;> rfl
  have habsent : isNothing (if b then "true" else "false") = false := by cases b <;> rfl
  simp only [scalarOf, if_true, hatom, absence, habsent, Option.bind_none]
  exact .boolean

theorem shows_natural {n : Nat} (h : n < 18446744073709551616) :
    (Node.scalar (scalarOf true none (toString (n : Int))) p p).Shows IsSure (.integer n) := by
  simp only [scalarOf, if_true, plainAtom_natural n h, absence, isNothing_natural, Option.bind_none]
  exact .integer

theorem shows_text (t : String) :
    (Node.scalar (scalarOf (!needsQuotes t) none t) p p).Shows IsSure (.text t) := by
  cases hquotes : needsQuotes t with
  | true => exact .verbatim fun _ => rfl
  | false =>
    have habsent := isNothing_of_needsQuotes hquotes
    simp only [scalarOf, absence, habsent, Option.bind_none]
    exact .verbatim fun sure => congrArg Except.ok sure

namespace Grouping

variable {g : Grouping} {more : List Token} {fuel : Nat} {block bare : Bool}

theorem value_scalar {isPlain : Bool} {v : String} (h : g.tokens = ⟨.scalar isPlain v, p⟩ :: more) :
    value (fuel + 1) block bare g =
      .ok (.scalar (scalarOf isPlain none v) p p, { g with tokens := more }) := by
  have hkind : g.kind = .scalar isPlain v := by simp [kind, peek, h]
  have hplace : g.place = p := by simp [place, peek, h]
  simp only [value, hkind, properties, hplace, bind, Except.bind, complete, skip, h, List.drop_one,
    List.tail_cons]

/-- Kinds of tokens that a value begins with. -/
inductive Opens : TokenKind → Prop
  | scalar {isPlain : Bool} {v : String} : Opens (.scalar isPlain v)
  | listStart : Opens .listStart
  | blockListStart : Opens .blockListStart
  | blockMapStart : Opens .blockMapStart

theorem opens_of_tidy {d : Datum} (tidy : Tidy d) : ∃ k ks, spell d = k :: ks ∧ Opens k := by
  rcases d with _ | _ | _ | _ | _ | ds | es
  case real => exact tidy.elim
  case list =>
    cases ds
    · exact ⟨_, _, rfl, .listStart⟩
    · exact ⟨_, _, rfl, .blockListStart⟩
  case map =>
    rcases es with _ | ⟨⟨k, v⟩, es⟩
    · exact absurd rfl tidy.1
    · exact ⟨_, _, rfl, .blockMapStart⟩
  all_goals exact ⟨_, _, rfl, .scalar⟩

theorem opens_of_spelled {d : Datum} (tidy : Tidy d) {own : List Token} (h : own.map (·.kind) = spell d) :
    ∃ t ts, own = t :: ts ∧ Opens t.kind := by
  obtain ⟨k, ks, hspell, opens⟩ := opens_of_tidy tidy
  obtain ⟨t, ts, rfl, rfl, _⟩ := List.map_eq_cons_iff.mp (h.trans hspell)
  exact ⟨t, ts, rfl, opens⟩

theorem spell_list {ds : List Datum} (h : ds ≠ []) :
    spell (.list ds) = .blockListStart :: (spellItems ds ++ [.blockEnd]) := by
  obtain ⟨d, ds, rfl⟩ := List.exists_cons_of_ne_nil h
  simp [spell, spellItems]

theorem spell_map {es : List (Datum × Datum)} (h : es ≠ []) :
    spell (.map es) = .blockMapStart :: (spellEntries es ++ [.blockEnd]) := by
  obtain ⟨⟨k, v⟩, es, rfl⟩ := List.exists_cons_of_ne_nil h
  simp [spell, spellEntries]

theorem value_listStart {q : Place} (h : g.tokens = ⟨.listStart, p⟩ :: ⟨.listEnd, q⟩ :: more) :
    value (fuel + 2) block bare g = .ok (listNode [] p, { g with tokens := more }) := by
  have hkind : g.kind = .listStart := by simp [kind, peek, h]
  have hplace : g.place = p := by simp [place, peek, h]
  have hnext : g.skip.kind = .listEnd := by simp [kind, peek, skip, h]
  simp only [value, hkind, properties, hplace, bind, Except.bind, bracketItems, hnext, complete]
  simp [skip, h]

theorem value_blockListStart (h : g.tokens = ⟨.blockListStart, p⟩ :: more) {ns : List Node} {g' : Grouping}
    (items : blockItems fuel { g with tokens := more } = .ok (ns, g')) :
    value (fuel + 1) true bare g = .ok (listNode ns p, g') := by
  have hkind : g.kind = .blockListStart := by simp [kind, peek, h]
  have hplace : g.place = p := by simp [place, peek, h]
  have hskip : g.skip = { g with tokens := more } := by simp [skip, h]
  simp only [value, hkind, properties, hplace, bind, Except.bind, hskip, items, complete]

theorem value_blockMapStart (h : g.tokens = ⟨.blockMapStart, p⟩ :: more) {es : List (Node × Node)} {g' : Grouping}
    (entries : blockEntries fuel { g with tokens := more } = .ok (es, g')) :
    value (fuel + 1) true bare g = .ok (mapNode es p, g') := by
  have hkind : g.kind = .blockMapStart := by simp [kind, peek, h]
  have hplace : g.place = p := by simp [place, peek, h]
  have hskip : g.skip = { g with tokens := more } := by simp [skip, h]
  simp only [value, hkind, properties, hplace, bind, Except.bind, hskip, entries, complete]

theorem blockItems_blockEnd (h : g.tokens = ⟨.blockEnd, p⟩ :: more) :
    blockItems (fuel + 1) g = .ok ([], { g with tokens := more }) := by
  have hkind : g.kind = .blockEnd := by simp [kind, peek, h]
  simp [blockItems, hkind, skip, h]

theorem blockEntries_blockEnd (h : g.tokens = ⟨.blockEnd, p⟩ :: more) :
    blockEntries (fuel + 1) g = .ok ([], { g with tokens := more }) := by
  have hkind : g.kind = .blockEnd := by simp [kind, peek, h]
  simp [blockEntries, hkind, skip, h]

theorem blockItems_item {first : Token} (h : g.tokens = ⟨.item, p⟩ :: first :: more) (opens : Opens first.kind)
    {n : Node} {ns : List Node} {g' g'' : Grouping}
    (item : value fuel true false { g with tokens := first :: more } = .ok (n, g'))
    (rest : blockItems fuel g' = .ok (ns, g'')) : blockItems (fuel + 1) g = .ok (n :: ns, g'') := by
  have hkind : g.kind = .item := by simp [kind, peek, h]
  have hskip : g.skip = { g with tokens := first :: more } := by simp [skip, h]
  have hnext : kind { g with tokens := first :: more } = first.kind := rfl
  obtain ⟨k, q⟩ := first
  cases opens <;> simp only [blockItems, hkind, hskip, hnext, item, rest, bind, Except.bind]

theorem blockEntries_key {q : Place} {first second : Token} {more' : List Token}
    (h : g.tokens = ⟨.key, p⟩ :: first :: more) (opens : Opens first.kind) (opens' : Opens second.kind)
    {k v : Node} {es : List (Node × Node)} {g' g'' : Grouping}
    (key : value fuel true true { g with tokens := first :: more } =
      .ok (k, { g with tokens := ⟨.value, q⟩ :: second :: more' }))
    (entry : value fuel true true { g with tokens := second :: more' } = .ok (v, g'))
    (rest : blockEntries fuel g' = .ok (es, g'')) :
    blockEntries (fuel + 1) g = .ok ((k, v) :: es, g'') := by
  have hkind : g.kind = .key := by simp [kind, peek, h]
  have hskip : g.skip = { g with tokens := first :: more } := by simp [skip, h]
  have hfirst : kind { g with tokens := first :: more } = first.kind := rfl
  have hvalue : kind { g with tokens := ⟨.value, q⟩ :: second :: more' } = .value := rfl
  have hskip' : skip { g with tokens := ⟨.value, q⟩ :: second :: more' } = { g with tokens := second :: more' } := rfl
  have hsecond : kind { g with tokens := second :: more' } = second.kind := rfl
  obtain ⟨k₁, p₁⟩ := first
  obtain ⟨k₂, p₂⟩ := second
  cases opens <;> cases opens' <;>
    simp only [blockEntries, hkind, hskip, hfirst, key, hvalue, hskip', hsecond, entry, rest, bind, Except.bind]

/-- What a value's tokens are grouped into shows it, and the tokens after them are left. -/
def Grouped (d : Datum) : Prop :=
  ∀ ⦃own more : List Token⦄ ⦃g : Grouping⦄ ⦃fuel : Nat⦄ ⦃bare : Bool⦄, own.map (·.kind) = spell d →
    g.tokens = own ++ more → own.length < fuel →
    ∃ n, value fuel true bare g = .ok (n, { g with tokens := more }) ∧ n.Shows IsSure d

theorem grouped_of_scalar {d : Datum} {isPlain : Bool} {v : String} (hspell : spell d = [.scalar isPlain v])
    (shows : ∀ p, (Node.scalar (scalarOf isPlain none v) p p).Shows IsSure d) : Grouped d := by
  intro own more g fuel bare hown htokens enough
  obtain ⟨fuel, rfl⟩ := Nat.exists_eq_add_one_of_ne_zero (Nat.ne_of_gt (Nat.zero_lt_of_lt enough))
  rw [hspell] at hown
  obtain ⟨⟨k, p⟩, rfl, rfl⟩ := List.map_eq_singleton_iff.mp hown
  exact ⟨_, value_scalar htokens, shows p⟩

/-- Entries that show data show it wherever their colons are reported. -/
def ShowsPairs (es : List (Node × Node)) (ds : List (Datum × Datum)) : Prop :=
  ∀ p : Place, Node.ShowsEntries IsSure (es.map fun e => (e.1, p, e.2)) ds

mutual

theorem grouped_of_tidy : ∀ d : Datum, Tidy d → Grouped d
  | .null, _ => grouped_of_scalar rfl fun _ => shows_null
  | .boolean b, _ => grouped_of_scalar rfl fun _ => shows_boolean b
  | .integer i, tidy => by
    obtain ⟨n, rfl⟩ := Int.eq_ofNat_of_zero_le tidy.1
    exact grouped_of_scalar rfl fun _ => shows_natural (Int.ofNat_lt.mp tidy.2)
  | .real _, tidy => tidy.elim
  | .text t, _ => grouped_of_scalar rfl fun _ => shows_text t
  | .list ds, tidy => by
    intro own more g fuel bare hown htokens enough
    by_cases hds : ds = []
    · subst hds
      obtain ⟨⟨_, p⟩, own, rfl, rfl, hend⟩ := List.map_eq_cons_iff.mp hown
      obtain ⟨⟨_, q⟩, rfl, rfl⟩ := List.map_eq_singleton_iff.mp hend
      obtain ⟨fuel, rfl⟩ := Nat.exists_eq_add_of_le' (Nat.le_of_succ_le (Nat.succ_le_of_lt enough))
      exact ⟨_, value_listStart htokens, .list .nil⟩
    · rw [spell_list hds] at hown
      obtain ⟨⟨_, p⟩, own, rfl, rfl, hown'⟩ := List.map_eq_cons_iff.mp hown
      obtain ⟨fuel, rfl⟩ := Nat.exists_eq_add_one_of_ne_zero (Nat.ne_of_gt (Nat.zero_lt_of_lt enough))
      obtain ⟨ns, hns, hshows⟩ := grouped_items ds tidy hown'
        (show tokens { g with tokens := own ++ more } = own ++ more from rfl) (Nat.lt_of_succ_lt_succ enough)
      exact ⟨_, value_blockListStart htokens hns, .list hshows⟩
  | .map es, tidy => by
    intro own more g fuel bare hown htokens enough
    rw [spell_map tidy.1] at hown
    obtain ⟨⟨_, p⟩, own, rfl, rfl, hown'⟩ := List.map_eq_cons_iff.mp hown
    obtain ⟨fuel, rfl⟩ := Nat.exists_eq_add_one_of_ne_zero (Nat.ne_of_gt (Nat.zero_lt_of_lt enough))
    obtain ⟨ns, hns, hshows⟩ := grouped_entries es tidy.2 hown'
      (show tokens { g with tokens := own ++ more } = own ++ more from rfl) (Nat.lt_of_succ_lt_succ enough)
    exact ⟨_, value_blockMapStart htokens hns, .map (hshows p) (.refl es)⟩

theorem grouped_items : ∀ ds : List Datum, TidyItems ds → ∀ ⦃own more : List Token⦄ ⦃g : Grouping⦄ ⦃fuel : Nat⦄,
    own.map (·.kind) = spellItems ds ++ [.blockEnd] → g.tokens = own ++ more → own.length < fuel →
    ∃ ns, blockItems fuel g = .ok (ns, { g with tokens := more }) ∧ Node.ShowsItems IsSure ns ds
  | [], _, own, more, g, fuel, hown, htokens, enough => by
    obtain ⟨fuel, rfl⟩ := Nat.exists_eq_add_one_of_ne_zero (Nat.ne_of_gt (Nat.zero_lt_of_lt enough))
    obtain ⟨⟨_, p⟩, rfl, rfl⟩ := List.map_eq_singleton_iff.mp hown
    exact ⟨[], blockItems_blockEnd htokens, .nil⟩
  | d :: ds, ⟨hd, hds⟩, own, more, g, fuel, hown, htokens, enough => by
    obtain ⟨fuel, rfl⟩ := Nat.exists_eq_add_one_of_ne_zero (Nat.ne_of_gt (Nat.zero_lt_of_lt enough))
    rw [spellItems, List.cons_append, List.cons_append, List.append_assoc] at hown
    obtain ⟨⟨_, p⟩, own, rfl, rfl, hown'⟩ := List.map_eq_cons_iff.mp hown
    obtain ⟨first, others, rfl, hfirst, hothers⟩ := List.map_eq_append_iff.mp hown'
    obtain ⟨t, ts, rfl, opens⟩ := opens_of_spelled hd hfirst
    simp only [List.length_cons, List.length_append] at enough
    obtain ⟨n, hn, hshows⟩ := grouped_of_tidy d hd hfirst
      (show tokens { g with tokens := t :: (ts ++ (others ++ more)) } = t :: ts ++ (others ++ more) from rfl)
      (show _ < fuel by simp only [List.length_cons]; omega)
    obtain ⟨ns, hns, hrest⟩ := grouped_items ds hds hothers
      (show tokens { g with tokens := others ++ more } = others ++ more from rfl) (show _ < fuel by omega)
    have htokens' : g.tokens = ⟨.item, p⟩ :: t :: (ts ++ (others ++ more)) := by simpa using htokens
    exact ⟨_, blockItems_item htokens' opens hn hns, .cons hshows hrest⟩

theorem grouped_entries : ∀ es : List (Datum × Datum), TidyEntries es → ∀ ⦃own more : List Token⦄ ⦃g : Grouping⦄ ⦃fuel : Nat⦄,
    own.map (·.kind) = spellEntries es ++ [.blockEnd] → g.tokens = own ++ more → own.length < fuel →
    ∃ ns, blockEntries fuel g = .ok (ns, { g with tokens := more }) ∧ ShowsPairs ns es
  | [], _, own, more, g, fuel, hown, htokens, enough => by
    obtain ⟨fuel, rfl⟩ := Nat.exists_eq_add_one_of_ne_zero (Nat.ne_of_gt (Nat.zero_lt_of_lt enough))
    obtain ⟨⟨_, p⟩, rfl, rfl⟩ := List.map_eq_singleton_iff.mp hown
    exact ⟨[], blockEntries_blockEnd htokens, fun _ => .nil⟩
  | (k, v) :: es, ⟨⟨name, hk, hquotes, _⟩, hv, hes⟩, own, more, g, fuel, hown, htokens, enough => by
    obtain rfl := hk
    obtain ⟨fuel, rfl⟩ := Nat.exists_eq_add_one_of_ne_zero (Nat.ne_of_gt (Nat.zero_lt_of_lt enough))
    simp only [spellEntries, spell, List.cons_append, List.nil_append, List.append_assoc] at hown
    obtain ⟨⟨_, p⟩, own₁, rfl, rfl, hown₁⟩ := List.map_eq_cons_iff.mp hown
    obtain ⟨⟨_, p'⟩, own₂, rfl, rfl, hown₂⟩ := List.map_eq_cons_iff.mp hown₁
    obtain ⟨⟨_, q⟩, own₃, rfl, rfl, hown₃⟩ := List.map_eq_cons_iff.mp hown₂
    obtain ⟨first, others, rfl, hfirst, hothers⟩ := List.map_eq_append_iff.mp hown₃
    obtain ⟨t, ts, rfl, opens⟩ := opens_of_spelled hv hfirst
    simp only [List.length_cons, List.length_append] at enough
    obtain ⟨n, hn, hshows⟩ := grouped_of_tidy v hv hfirst
      (show tokens { g with tokens := t :: (ts ++ (others ++ more)) } = t :: ts ++ (others ++ more) from rfl)
      (show _ < fuel by simp only [List.length_cons]; omega)
    obtain ⟨ns, hns, hrest⟩ := grouped_entries es hes hothers
      (show tokens { g with tokens := others ++ more } = others ++ more from rfl) (show _ < fuel by omega)
    obtain ⟨fuel, rfl⟩ := Nat.exists_eq_add_one_of_ne_zero (show fuel ≠ 0 by omega)
    have htokens' : g.tokens = ⟨.key, p⟩ :: ⟨.scalar (!needsQuotes name) name, p'⟩ ::
        ⟨.value, q⟩ :: t :: (ts ++ (others ++ more)) := by simpa using htokens
    exact ⟨_, blockEntries_key htokens' .scalar opens (value_scalar rfl) hn hns,
      fun colon => .cons (shows_text name) hshows (hrest colon)⟩

end

/-! ### Documents -/

theorem content_of_opens (opens : Opens g.kind) : content fuel g = value fuel true false g := by
  unfold content
  generalize g.kind = k at opens
  cases opens <;> rfl

theorem skipDirectives_of_kind (h : g.kind ≠ .directive) (n : Nat) : skipDirectives n g = g := by
  cases n with
  | zero => rfl
  | succ n =>
    unfold skipDirectives
    split
    · exact absurd ‹_› h
    · rfl

theorem skipDocumentEnds_of_kind (h : g.kind ≠ .documentEnd) (n : Nat) : skipDocumentEnds n g = g := by
  cases n with
  | zero => rfl
  | succ n =>
    unfold skipDocumentEnds
    split
    · exact absurd ‹_› h
    · rfl

theorem documents_of_streamEnd (h : g.kind = .streamEnd) :
    documents (fuel + 1) false g = .ok ([], { g with names := [] }) := by
  have hskip := skipDocumentEnds_of_kind (g := g) (by rw [h]; nofun) (4 * g.tokens.length + 4)
  have hkind : kind { g with names := [] } = .streamEnd := h
  simp only [documents, Bool.false_eq_true, if_false, hskip, hkind]

theorem documents_of_content {n : Node} {g' : Grouping} (h : g.kind = .documentStart) (names : g.names = [])
    (hcontent : content (4 * g.tokens.length + 4) g.skip = .ok (n, g')) (hend : g'.kind = .streamEnd) :
    documents (fuel + 2) true g = .ok ([n], { g' with names := [] }) := by
  have hnames : { g with names := [] } = g := by rw [← names]
  have hdirectives : skipDirectives (4 * g.tokens.length + 4) g = g :=
    skipDirectives_of_kind (by rw [h]; nofun) _
  have hrest : documents (fuel + 1) false g' = .ok ([], { g' with names := [] }) := documents_of_streamEnd hend
  unfold documents
  simp only [if_true, hnames, h, hdirectives, hcontent, hend, bind, Except.bind]
  rw [if_neg nofun, hrest]

/-- One document, from its mark to the end of the stream. -/
theorem documents_of_spelled {d : Datum} (tidy : Tidy d) {ts : List Token}
    (h : ts.map (·.kind) = .documentStart :: spell d ++ [.streamEnd]) :
    ∃ n g, documents (ts.length + 1) true ⟨ts, [], [], 0⟩ = .ok ([n], g) ∧ g.values = [] ∧
      n.Shows IsSure d := by
  rw [List.cons_append] at h
  obtain ⟨⟨_, p⟩, own, rfl, rfl, hown⟩ := List.map_eq_cons_iff.mp h
  obtain ⟨first, last, rfl, hfirst, hlast⟩ := List.map_eq_append_iff.mp hown
  obtain ⟨⟨_, q⟩, rfl, rfl⟩ := List.map_eq_singleton_iff.mp hlast
  obtain ⟨t, ts, rfl, opens⟩ := opens_of_spelled tidy hfirst
  let whole : Grouping := ⟨⟨.documentStart, p⟩ :: (t :: ts ++ [⟨.streamEnd, q⟩]), [], [], 0⟩
  have enough : (t :: ts).length < 4 * whole.tokens.length + 4 := by
    simp only [whole, List.length_cons, List.length_append]
    omega
  obtain ⟨n, hn, hshows⟩ := grouped_of_tidy d tidy hfirst (show whole.skip.tokens = _ from rfl) enough
  have hcontent := (content_of_opens (show Opens whole.skip.kind from opens)).trans hn
  exact ⟨n, _, documents_of_content rfl rfl hcontent rfl, rfl, hshows⟩

end Grouping

/-- **What is written is read back**, by every reader that takes the data for the value. -/
theorem read_write {r : Reader α} {depth : Nat} {es : List (Datum × Datum)} {a : α}
    (h : r.Reads IsSure depth (.map es) a) (tidy : Tidy (.map es)) (room : depth ≤ 128) :
    read r (write (.map es)) = .ok a := by
  obtain ⟨n, g, hdocuments, hvalues, hshows⟩ := Grouping.documents_of_spelled tidy (tokens_write tidy)
  have hread := h (Setting.ofStream [n] g.values) n room hshows
  unfold read
  simp only [hdocuments, bind, Except.bind, Except.mapError, hread]
  rfl

end FleetJobs.Yaml
