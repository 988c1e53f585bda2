import FleetJobs.Json.Read
import FleetJobs.Text.Blank
import Mathlib

/-! JSON texts as trees.

A tree holds what a text says in the order of the text, names that stand twice in a map included
(`Json.readTree`). Whatever the text is, the integers in its tree fit 64 bits and the keys of its
maps are texts (`Json.plain_of_readTree`): the scanner makes no other nodes (`Json.scansPlain`).
Which numerals are integers is settled by `Numeral.value_eq_integer_iff`. -/
namespace FleetJobs

open FleetJobs.Data

/-! ### Integers -/

namespace Json

/-- The integer fits 64 bits, with a sign or without. -/
def Fits (i : Int) : Prop := -9223372036854775808 ≤ i ∧ i ≤ 18446744073709551615

/-- The number that digits come to behind others. -/
def natFrom (n : Nat) (ds : List Char) : Nat := ds.foldl (fun n c => n * 10 + (c.toNat - 48)) n

theorem le_natFrom (n : Nat) (ds : List Char) : n ≤ natFrom n ds := by
  induction ds generalizing n with
  | nil => exact Nat.le_refl n
  | cons d ds ih =>
    have hstep := ih (n * 10 + (d.toNat - 48))
    simp only [natFrom, List.foldl_cons] at hstep ⊢
    omega

/-- Takes one more digit, as `significand` does. -/
def taking (acc : Nat × Nat × Nat) (d : Char) : Nat × Nat × Nat :=
  let m := acc.1 * 10 + (d.toNat - 48)
  if acc.2.2 = 0 ∧ m ≤ significandLimit then (m, acc.2.1 + 1, 0) else (acc.1, acc.2.1, acc.2.2 + 1)

/-- Once a digit is dropped, so are all behind it. -/
theorem dropped_ne_zero {acc : Nat × Nat × Nat} (h : acc.2.2 ≠ 0) (ds : List Char) :
    (ds.foldl taking acc).2.2 ≠ 0 := by
  induction ds generalizing acc with
  | nil => exact h
  | cons d ds ih =>
    refine ih ?_
    rw [taking, if_neg fun hd => h hd.1]
    exact Nat.succ_ne_zero _

/-- Digits are taken to the last exactly if the number that they come to is not too large. -/
theorem foldl_taking {n : Nat} (hn : n ≤ significandLimit) (taken : Nat) (ds : List Char) :
    (natFrom n ds ≤ significandLimit →
      ds.foldl taking (n, taken, 0) = (natFrom n ds, taken + ds.length, 0)) ∧
    (significandLimit < natFrom n ds → (ds.foldl taking (n, taken, 0)).2.2 ≠ 0) := by
  induction ds generalizing n taken with
  | nil => exact ⟨fun _ => rfl, fun h => absurd h (Nat.not_lt.mpr hn)⟩
  | cons d ds ih =>
    have hnext : natFrom n (d :: ds) = natFrom (n * 10 + (d.toNat - 48)) ds := rfl
    rw [hnext, List.foldl_cons, taking]
    by_cases hm : n * 10 + (d.toNat - 48) ≤ significandLimit
    · obtain ⟨hall, hdrop⟩ := ih hm (taken + 1)
      rw [if_pos ⟨rfl, hm⟩]
      refine ⟨fun h => ?_, hdrop⟩
      rw [hall h, List.length_cons, Nat.add_assoc, Nat.add_comm 1]
    · have hle := le_natFrom (n * 10 + (d.toNat - 48)) ds
      rw [if_neg fun h => hm h.2]
      exact ⟨fun h => absurd (hle.trans h) hm, fun _ => dropped_ne_zero (Nat.succ_ne_zero _) ds⟩

theorem significand_of_le {ds : List Char} (h : natOf ds ≤ significandLimit) :
    significand 0 ds = (natOf ds, ds.length, 0) := by
  have hall := (foldl_taking (Nat.zero_le _) 0 ds).1 h
  rwa [Nat.zero_add] at hall

theorem significand_of_lt {ds : List Char} (h : significandLimit < natOf ds) :
    (significand 0 ds).2.2 ≠ 0 :=
  (foldl_taking (Nat.zero_le _) 0 ds).2 h

/-- **A numeral is an integer if it has no fraction and no exponent and its digits come to one that
fits 64 bits**; minus zero is none. -/
theorem Numeral.value_eq_integer_iff {n : Numeral} {i : Int} :
    n.value = some (.integer i) ↔ n.fraction = none ∧ n.exponent = none ∧
      if n.negative then 0 < natOf n.whole ∧ natOf n.whole ≤ 9223372036854775808 ∧ i = -natOf n.whole
      else natOf n.whole ≤ 18446744073709551615 ∧ i = natOf n.whole := by
  obtain ⟨negative, whole, fraction, exponent⟩ := n
  have not_real (x : Option Decimal.Double) : x.map Atom.real ≠ some (.integer i) := by
    cases x <;> simp
  unfold Numeral.value
  dsimp only
  split
  · -- neither a fraction nor an exponent
    by_cases hle : natOf whole ≤ significandLimit
    · rw [significand_of_le hle]
      unfold significandLimit at hle
      cases negative with
      | false => simp [hle, eq_comm]
      | true =>
        simp only [Bool.not_true, Bool.false_eq_true, and_false, if_false, true_and, if_true]
        split
        · rename_i h
          simp [h, Nat.pos_of_ne_zero h.1, eq_comm]
        · rename_i h
          simp only [not_real, false_iff]
          exact fun h' => h ⟨Nat.ne_of_gt h'.1, h'.2.1⟩
    · have hdropped := significand_of_lt (Nat.lt_of_not_le hle)
      unfold significandLimit at hle
      simp only [hdropped, false_and, if_false, not_real, false_iff]
      split <;> omega
  · rename_i hparts
    refine ⟨fun h => ?_, fun h => (hparts h.1 h.2.1).elim⟩
    split at h
    · exact absurd h (not_real _)
    · split at h
      · split at h <;> simp at h
      · exact absurd h (not_real _)

end Json

/-! ### What trees are made of -/

namespace Data

open FleetJobs.Json (Fits)

/-- Every integer fits 64 bits, and the keys of every map are texts. -/
inductive Datum.Plain : Datum → Prop
  | null : Plain .null
  | boolean {b : Bool} : Plain (.boolean b)
  | integer {i : Int} (fits : Fits i) : Plain (.integer i)
  | real {x : Decimal.Double} : Plain (.real x)
  | text {t : String} : Plain (.text t)
  | list {ds : List Datum} (items : ∀ d ∈ ds, Plain d) : Plain (.list ds)
  | record {entries : List (String × Datum)} (values : ∀ e ∈ entries, Plain e.2) :
    Plain (.record entries)

/-- A key that is a text, or that cannot be read at all. -/
inductive Node.IsKey : Node → Prop
  | text {t : String} {v : Scalar} {p q : Place} (own : v.atom = .ok (.text t)) :
    IsKey (.scalar v p q)
  | trouble {t : Trouble} {v : Scalar} {p q : Place} (own : v.atom = .error t) : IsKey (.scalar v p q)

/-- What is read from the node, as far as it can be, is plain. -/
inductive Node.Plain : Node → Prop
  | scalar {v : Scalar} {p q : Place} (fits : ∀ i, v.atom = .ok (.integer i) → Fits i) :
    Plain (.scalar v p q)
  | list {ns : List Node} {p : Place} {ending : Ending} (items : ∀ n ∈ ns, Plain n) :
    Plain (.list ns p ending)
  | map {es : List Entry} {p : Place} {ending : Ending} (keys : ∀ e ∈ es, e.1.IsKey)
    (values : ∀ e ∈ es, Plain e.2.2) : Plain (.map es p ending)
  | broken {b : Break} {front : Place} : Plain (.broken b front)

namespace Node

theorem IsKey.toDatumBy {k : Node} (h : k.IsKey) {follow : Setting → Nat → Except ReadError Datum}
    {s : Setting} {d : Datum} (hd : k.toDatumBy follow s = .ok d) : ∃ name, d = .text name := by
  cases h with
  | text own =>
    rw [Node.toDatumBy, own] at hd
    exact ⟨_, (Except.ok.inj hd).symm⟩
  | trouble own =>
    rw [Node.toDatumBy, own] at hd
    cases hd

mutual

theorem plain_toDatumBy {follow : Setting → Nat → Except ReadError Datum} :
    ∀ (n : Node) (s : Setting) (d : Datum), n.Plain → n.toDatumBy follow s = .ok d → d.Plain
  | .scalar v p q, s, d, .scalar fits, hd => by
    rw [toDatumBy] at hd
    split at hd
    case h_4 i hi =>
      cases hd
      exact .integer (fits i hi)
    all_goals cases hd
    · exact .null
    · exact .boolean
    · exact .real
    · exact .text
  | .list ns p ending, s, d, .list items, hd => by
    rw [toDatumBy] at hd
    split at hd
    · cases hd
    · obtain ⟨ds, hds, hd⟩ := bind_eq_ok.mp hd
      obtain ⟨_, _, hd⟩ := bind_eq_ok.mp hd
      cases hd
      exact .list (plain_toItemsBy ns _ 0 ds items hds)
  | .map es p ending, s, d, .map keys values, hd => by
    rw [toDatumBy] at hd
    split at hd
    · cases hd
    · obtain ⟨ds, hds, hd⟩ := bind_eq_ok.mp hd
      obtain ⟨_, _, hd⟩ := bind_eq_ok.mp hd
      cases hd
      obtain ⟨entries, rfl, hentries⟩ := plain_toEntriesBy es _ ds keys values hds
      exact .record hentries
  | .broken b front, s, d, .broken, hd => by
    rw [toDatumBy] at hd
    cases hd

theorem plain_toItemsBy {follow : Setting → Nat → Except ReadError Datum} :
    ∀ (ns : List Node) (s : Setting) (i : Nat) (ds : List Datum), (∀ n ∈ ns, n.Plain) →
      toItemsBy follow s i ns = .ok ds → ∀ d ∈ ds, d.Plain
  | [], s, i, ds, _, hds => by
    cases hds
    exact nofun
  | n :: ns, s, i, ds, items, hds => by
    obtain ⟨hn, hns⟩ := List.forall_mem_cons.mp items
    rw [toItemsBy] at hds
    obtain ⟨d, hd, hds⟩ := bind_eq_ok.mp hds
    obtain ⟨rest, hrest, hds⟩ := bind_eq_ok.mp hds
    cases hds
    exact List.forall_mem_cons.mpr
      ⟨plain_toDatumBy n _ d hn hd, plain_toItemsBy ns s (i + 1) rest hns hrest⟩

theorem plain_toEntriesBy {follow : Setting → Nat → Except ReadError Datum} :
    ∀ (es : List Entry) (s : Setting) (ds : List (Datum × Datum)), (∀ e ∈ es, e.1.IsKey) →
      (∀ e ∈ es, e.2.2.Plain) → toEntriesBy follow s es = .ok ds →
      ∃ entries : List (String × Datum), ds = entries.map (fun e => (.text e.1, e.2)) ∧
        ∀ e ∈ entries, e.2.Plain
  | [], s, ds, _, _, hds => by
    cases hds
    exact ⟨[], rfl, nofun⟩
  | (k, _, v) :: es, s, ds, keys, values, hds => by
    obtain ⟨hk, hkeys⟩ := List.forall_mem_cons.mp keys
    obtain ⟨hv, hvalues⟩ := List.forall_mem_cons.mp values
    rw [toEntriesBy] at hds
    obtain ⟨key, hkey, hds⟩ := bind_eq_ok.mp hds
    obtain ⟨value, hvalue, hds⟩ := bind_eq_ok.mp hds
    obtain ⟨rest, hrest, hds⟩ := bind_eq_ok.mp hds
    cases hds
    obtain ⟨name, rfl⟩ := hk.toDatumBy hkey
    obtain ⟨entries, rfl, hentries⟩ := plain_toEntriesBy es s rest hkeys hvalues hrest
    exact ⟨(name, value) :: entries, rfl,
      List.forall_mem_cons.mpr ⟨plain_toDatumBy v _ value hv hvalue, hentries⟩⟩

end

end Node

end Data

namespace Json

/-! ### The scanner -/

theorem plain_textNode (c : Cursor) : (textNode c).1.Plain := by
  unfold textNode
  dsimp only
  split
  · exact .scalar nofun
  · exact .scalar nofun
  · exact .broken
  · exact .broken

theorem isKey_textNode {c : Cursor} (h : ∀ b front, (textNode c).1 ≠ .broken b front) :
    (textNode c).1.IsKey := by
  unfold textNode at h ⊢
  dsimp only at h ⊢
  split at h
  · exact .text rfl
  · exact .trouble rfl
  · exact absurd rfl (h _ _)
  · exact absurd rfl (h _ _)

theorem plain_numberNode (c : Cursor) (negative : Bool) : (numberNode c negative).1.Plain := by
  unfold numberNode
  split
  · exact .broken
  · rename_i n past _
    refine .scalar fun i hi => ?_
    dsimp only at hi
    split at hi
    · rename_i a ha
      cases hi
      obtain ⟨_, _, hvalue⟩ := Numeral.value_eq_integer_iff.mp ha
      unfold Fits
      split at hvalue <;> omega
    · cases hi

theorem plain_wordNode (c : Cursor) (letters : List Char) {a : Atom} (ha : ∀ i, a ≠ .integer i) :
    (wordNode c letters a).1.Plain := by
  unfold wordNode
  split
  · exact .broken
  · exact .scalar fun i hi => absurd (Except.ok.inj hi) (ha i)

/-- With this fuel the scanner makes plain nodes, whatever the text is. -/
structure ScansPlain (fuel : Nat) : Prop where
  value : ∀ c, (scan fuel c).1.Plain
  items : ∀ isFirst c, ∀ n ∈ (scanItems fuel isFirst c).1, n.Plain
  entries : ∀ isFirst c, ∀ e ∈ (scanEntries fuel isFirst c).1, e.1.IsKey ∧ e.2.2.Plain

section

variable {fuel : Nat}

theorem ScansPlain.value_succ (h : ScansPlain fuel) (c : Cursor) : (scan (fuel + 1) c).1.Plain := by
  rw [scan]
  dsimp only
  split
  · exact .broken
  · exact plain_textNode _
  · exact plain_numberNode _ _
  · exact plain_wordNode _ _ nofun
  · exact plain_wordNode _ _ nofun
  · exact plain_wordNode _ _ nofun
  · exact .list (h.items true _)
  · exact .map (fun e he => (h.entries true _ e he).1) fun e he => (h.entries true _ e he).2
  · split
    · exact plain_numberNode _ _
    · exact .broken

theorem ScansPlain.items_succ (h : ScansPlain fuel) (isFirst : Bool) (c : Cursor) :
    ∀ n ∈ (scanItems (fuel + 1) isFirst c).1, n.Plain := by
  unfold scanItems
  extract_lets c item next
  have plain_item (c : Cursor) : ∀ n ∈ (item c).1, n.Plain := by
    have hn := h.value c
    dsimp only [item]
    split
    · rename_i heq
      rw [heq] at hn
      simpa using hn
    · rename_i heq
      rw [heq] at hn
      exact List.forall_mem_cons.mpr ⟨hn, h.items false _⟩
  split
  · exact nofun
  · exact nofun
  · split
    · exact plain_item _
    · split
      · exact nofun
      · exact plain_item _
  · split
    · exact plain_item _
    · exact nofun

theorem ScansPlain.entries_succ (h : ScansPlain fuel) (isFirst : Bool) (c : Cursor) :
    ∀ e ∈ (scanEntries (fuel + 1) isFirst c).1, e.1.IsKey ∧ e.2.2.Plain := by
  unfold scanEntries
  extract_lets c entry next
  have plain_entry (c : Cursor) : ∀ e ∈ (entry c).1, e.1.IsKey ∧ e.2.2.Plain := by
    have hkey := isKey_textNode (c := c)
    dsimp only [entry]
    split
    · exact nofun
    · exact nofun
    · rename_i key c hbroken heq
      rw [heq] at hkey
      have hkey : key.IsKey := hkey hbroken
      split
      · simpa using ⟨hkey, .broken⟩
      · have hn := h.value (c.skipSpace.drop 1)
        split
        · rename_i heq
          rw [heq] at hn
          simpa using ⟨hkey, hn⟩
        · rename_i heq
          rw [heq] at hn
          exact List.forall_mem_cons.mpr ⟨⟨hkey, hn⟩, h.entries false _⟩
      · simpa using ⟨hkey, .broken⟩
  split
  · exact nofun
  · exact nofun
  · split
    · exact nofun
    · split
      · exact nofun
      · exact plain_entry _
      · exact nofun
      · exact nofun
  · split
    · exact plain_entry _
    · exact nofun
  · exact nofun

end

/-- **The scanner makes plain nodes**, with any fuel. -/
theorem scansPlain (fuel : Nat) : ScansPlain fuel := by
  induction fuel with
  | zero => exact ⟨fun _ => .broken, fun _ _ => nofun, fun _ _ => nofun⟩
  | succ fuel ih => exact ⟨ih.value_succ, ih.items_succ, ih.entries_succ⟩

/-! ### Trees -/

/-- A whole text as plain data, its entries in order and names that stand twice included. -/
def readTree (s : String) : Except ReadError Datum := read (fun setting n => n.toDatum setting) s

theorem readDatum_eq (s : String) : readDatum s = Datum.sorted <$> readTree s := rfl

/-- A tree is that of the value at the front of the text. -/
theorem scanned_of_readTree {s : String} {d : Datum} (h : readTree s = .ok d) :
    (scan (2 * (Cursor.ofText s).rest.length + 2) (Cursor.ofText s)).1.toDatum
      (.ofMedium .jsonText) = .ok d := by
  unfold readTree read at h
  dsimp only at h
  obtain ⟨a, ha, h⟩ := bind_eq_ok.mp h
  split at h <;> cases h
  exact ha

/-- **Whatever the text is, its tree is plain.** -/
theorem plain_of_readTree {s : String} {d : Datum} (h : readTree s = .ok d) : d.Plain := by
  have htree := scanned_of_readTree h
  unfold Node.toDatum at htree
  split at htree
  · cases htree
  · exact Node.plain_toDatumBy _ _ d ((scansPlain _).value _) htree

/-- Characters that values start with are no blanks. -/
theorem not_isBlank_opener :
    ∀ c ∈ ['"', '-', 'n', 't', 'f', '[', '\x7b'], Text.isBlank c = false := by
  simp only [List.mem_cons, List.not_mem_nil, or_false, forall_eq_or_imp, forall_eq]
  decide

theorem not_isDigit_of_isBlank {c : Char} (h : Text.isBlank c = true) : c.isDigit = false := by
  by_contra hdigit
  have hrange : 48 ≤ c.toNat ∧ c.toNat ≤ 57 := by
    simpa [Char.isDigit, UInt32.le_iff_toNat_le] using hdigit
  simp only [Text.isBlank, Text.blankRanges, List.any_cons, List.any_nil, Bool.or_false,
    Bool.or_eq_true, Bool.and_eq_true, decide_eq_true_eq] at h
  omega

/-- In a text of blanks there is no value. -/
theorem scan_of_blank {fuel : Nat} {c : Cursor} (h : ∀ ch ∈ c.rest, Text.isBlank ch = true) :
    ∃ b front past, scan fuel c = (.broken b front, past) := by
  cases fuel with
  | zero => exact ⟨_, _, _, rfl⟩
  | succ fuel =>
    have hrest : ∀ ch ∈ c.skipSpace.rest, Text.isBlank ch = true :=
      fun ch hch => h ch (List.mem_of_mem_drop hch)
    have hopener {ch : Char} {cs : List Char} (hc : c.skipSpace.rest = ch :: cs) :
        ch ∉ ['"', '-', 'n', 't', 'f', '[', '\x7b'] := fun hmem => by
      have hblank := hrest ch (hc ▸ .head _)
      rw [not_isBlank_opener ch hmem] at hblank
      cases hblank
    rw [scan]
    dsimp only
    split
    case h_1 => exact ⟨_, _, _, rfl⟩
    case h_9 ch cs _ _ _ _ _ _ _ hc =>
      have hblank := hrest ch (hc ▸ .head _)
      rw [if_neg (by rw [not_isDigit_of_isBlank hblank]; exact Bool.false_ne_true)]
      exact ⟨_, _, _, rfl⟩
    all_goals
      rename_i hc
      exact (hopener hc (by simp)).elim

theorem readTree_of_blank {s : String} (h : Text.allBlank s = true) (d : Datum) :
    readTree s ≠ .ok d := by
  intro hread
  have htree := scanned_of_readTree hread
  obtain ⟨b, front, past, hscan⟩ := scan_of_blank (c := Cursor.ofText s) (List.all_eq_true.mp h)
  rw [hscan] at htree
  cases htree

end Json
end FleetJobs
