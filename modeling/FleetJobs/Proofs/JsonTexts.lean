import FleetJobs.Json.Read
import FleetJobs.Json.Write
import FleetJobs.Proofs.Readback

/-! Data written as JSON is found again.

A text between quotes is walked character by character, each by its escape
(`turn_escaped`), and the value at the front of a text is scanned along the structure of
the datum that was written (`scan_chars`), so that what follows it is left as it was. What
is found is a node with places that shows the datum (`Node.Shows`), and a reader of such
nodes reads the whole text (`read_write`). Numbers are left aside here. -/
namespace FleetJobs

namespace Json

open FleetJobs.Data

/-! ### Escapes -/

variable {cs rest : List Char} {p : Place} {fuel : Nat} {soFar : List Char}

@[simp] theorem drop_append (cs rest : List Char) (p : Place) :
    (⟨cs ++ rest, p⟩ : Cursor).drop cs.length = ⟨rest, afterAll p cs⟩ := by
  simp [Cursor.drop]

theorem afterAll_append (p : Place) : afterAll p (cs ++ rest) = afterAll (afterAll p cs) rest :=
  List.foldl_append

theorem afterAll_cons (p : Place) (c : Char) : afterAll p (c :: cs) = afterAll (after p c) cs := rfl

/-- Bytes are at least as many as characters. -/
theorem length_le_bytesLeft (cs : List Char) (p : Place) :
    cs.length ≤ (⟨cs, p⟩ : Cursor).bytesLeft := by
  have sum (n : Nat) (cs : List Char) :
      n + cs.length ≤ (cs.map Char.utf8Size).foldl (· + ·) n := by
    induction cs generalizing n with
    | nil => exact Nat.le_refl _
    | cons c cs ih =>
      have hc := c.utf8Size_pos
      have hcs := ih (n + c.utf8Size)
      simp only [List.length_cons, List.map_cons, List.foldl_cons]
      omega
  simpa [Cursor.bytesLeft] using sum 0 cs

/-- The numbers of control characters, from their four digits. -/
theorem mapM_hexDigit_hexPadded :
    ∀ n < 32, (Text.hexPadded 4 n).mapM hexDigit? = some [0, 0, n / 16, n % 16] ∧
      (Text.hexPadded 4 n).length = 4 := by
  decide +kernel

theorem fourHex_hexPadded {n : Nat} (h : n < 32) (rest : List Char) (p : Place) :
    fourHex ⟨Text.hexPadded 4 n ++ rest, p⟩ = .ok (n, ⟨rest, afterAll p (Text.hexPadded 4 n)⟩) := by
  obtain ⟨hdigits, hlength⟩ := mapM_hexDigit_hexPadded n h
  have hbytes := length_le_bytesLeft (Text.hexPadded 4 n ++ rest) p
  have htake : (Text.hexPadded 4 n ++ rest).take (Text.hexPadded 4 n).length = _ := List.take_left
  have hdrop := drop_append (Text.hexPadded 4 n) rest p
  rw [List.length_append] at hbytes
  rw [hlength] at hbytes htake hdrop
  rw [fourHex, if_neg (by omega)]
  simp only [htake, hdigits, hdrop]
  congr 2
  omega

theorem numberedEscape_hexPadded {c : Char} (h : c.toNat < 32) (rest : List Char) (p : Place) :
    numberedEscape ⟨Text.hexPadded 4 c.toNat ++ rest, p⟩ =
      .ok (c, ⟨rest, afterAll p (Text.hexPadded 4 c.toNat)⟩) := by
  rw [numberedEscape, fourHex_hexPadded h]
  simp only [bind, Except.bind]
  rw [if_neg (by omega), if_pos (by omega), Char.ofNat_toNat]

/-- A character that stands for itself is taken in one turn, whether the text is read or
passed over. -/
theorem turn_plain {c : Char} (hquote : c ≠ '"') (hbackslash : c ≠ '\\') (hc : ¬ c.toNat < 32) :
    readText (fuel + 1) soFar ⟨c :: rest, p⟩ = readText fuel (c :: soFar) ⟨rest, after p c⟩ ∧
      passText (fuel + 1) ⟨c :: rest, p⟩ = passText fuel ⟨rest, after p c⟩ := by
  constructor
  · rw [readText]
    split
    case h_6 heq =>
      obtain ⟨rfl, rfl⟩ := List.cons.inj heq
      rw [if_neg hc]
      rfl
    all_goals simp_all
  · rw [passText]
    split
    case h_6 heq =>
      obtain ⟨rfl, rfl⟩ := List.cons.inj heq
      rw [if_neg hc]
      rfl
    all_goals simp_all

/-- A control character is taken in one turn from its number. -/
theorem turn_numbered {c : Char} (hc : c.toNat < 32) :
    readText (fuel + 1) soFar ⟨'\\' :: 'u' :: (Text.hexPadded 4 c.toNat ++ rest), p⟩ =
        readText fuel (c :: soFar)
          ⟨rest, afterAll (afterAll p ['\\', 'u']) (Text.hexPadded 4 c.toNat)⟩ ∧
      passText (fuel + 1) ⟨'\\' :: 'u' :: (Text.hexPadded 4 c.toNat ++ rest), p⟩ =
        passText fuel ⟨rest, afterAll (afterAll p ['\\', 'u']) (Text.hexPadded 4 c.toNat)⟩ := by
  have hread := numberedEscape_hexPadded hc rest (afterAll p ['\\', 'u'])
  have hpass := fourHex_hexPadded hc rest (afterAll p ['\\', 'u'])
  constructor
  · show (numberedEscape ⟨_, afterAll p ['\\', 'u']⟩ >>= _) = _
    exact congrArg (· >>= _) hread
  · show (fourHex ⟨_, afterAll p ['\\', 'u']⟩ >>= _) = _
    exact congrArg (· >>= _) hpass

/-- The escape of a character is taken in one turn. -/
theorem turn_escaped (c : Char) (fuel : Nat) (soFar rest : List Char) (p : Place) :
    readText (fuel + 1) soFar ⟨escaped c ++ rest, p⟩ =
        readText fuel (c :: soFar) ⟨rest, afterAll p (escaped c)⟩ ∧
      passText (fuel + 1) ⟨escaped c ++ rest, p⟩ =
        passText fuel ⟨rest, afterAll p (escaped c)⟩ := by
  unfold escaped
  split
  · exact ⟨rfl, rfl⟩
  · exact ⟨rfl, rfl⟩
  · exact ⟨rfl, rfl⟩
  · exact ⟨rfl, rfl⟩
  · exact ⟨rfl, rfl⟩
  · exact ⟨rfl, rfl⟩
  · exact ⟨rfl, rfl⟩
  · rename_i hquote hbackslash _ _ _ _ _
    split
    · rename_i hc
      rw [List.append_assoc, afterAll_append]
      exact turn_numbered hc
    · rename_i hc
      exact turn_plain hquote hbackslash hc

/-! ### Texts -/

/-- A text is read up to its closing quote. -/
theorem walk_escaped (h : cs.length < fuel) (soFar rest : List Char) (p : Place) :
    readText fuel soFar ⟨cs.flatMap escaped ++ '"' :: rest, p⟩ =
        .ok (String.ofList (soFar.reverse ++ cs),
          ⟨rest, afterAll p (cs.flatMap escaped ++ ['"'])⟩) ∧
      passText fuel ⟨cs.flatMap escaped ++ '"' :: rest, p⟩ =
        .ok ((), ⟨rest, afterAll p (cs.flatMap escaped ++ ['"'])⟩) := by
  induction cs generalizing fuel soFar p with
  | nil =>
    obtain ⟨fuel, rfl⟩ := Nat.exists_eq_add_one_of_ne_zero (Nat.ne_of_gt h)
    rw [List.append_nil]
    exact ⟨rfl, rfl⟩
  | cons c cs ih =>
    obtain ⟨fuel, rfl⟩ := Nat.exists_eq_add_one_of_ne_zero (Nat.ne_of_gt (Nat.zero_lt_of_lt h))
    have hturn := turn_escaped c fuel soFar (cs.flatMap escaped ++ '"' :: rest) p
    have hcs := ih (Nat.lt_of_succ_lt_succ h) (c :: soFar) (afterAll p (escaped c))
    rw [List.flatMap_cons, List.append_assoc, List.append_assoc, afterAll_append, hturn.1,
      hturn.2, hcs.1, hcs.2]
    simp

theorem length_le_flatMap_escaped (cs : List Char) : cs.length ≤ (cs.flatMap escaped).length := by
  induction cs with
  | nil => exact Nat.le_refl _
  | cons c cs ih =>
    have hc : 1 ≤ (escaped c).length := by
      unfold escaped
      split <;> simp
      split <;> simp
    rw [List.flatMap_cons, List.length_append, List.length_cons]
    omega

/-- **A text between quotes is found, and nothing of what follows it is lost.** -/
theorem textNode_quotedChars (s : String) (rest : List Char) (p : Place) :
    textNode ⟨quotedChars s ++ rest, p⟩ =
      (.scalar ⟨.ok (.text s), none, .ok false, none⟩ p (afterAll p (quotedChars s)),
        some ⟨rest, afterAll p (quotedChars s)⟩) := by
  let inside := s.toList.flatMap escaped ++ '"' :: rest
  have hfuel : s.toList.length < inside.length + 1 := by
    have hlength := length_le_flatMap_escaped s.toList
    simp only [inside, List.length_append]
    omega
  have hwalk := walk_escaped hfuel [] rest (after p '"')
  have hplace : afterAll p (quotedChars s) =
      afterAll (after p '"') (s.toList.flatMap escaped ++ ['"']) := rfl
  have hopen : (⟨quotedChars s ++ rest, p⟩ : Cursor) = ⟨'"' :: inside, p⟩ := by
    simp [quotedChars, inside]
  rw [hopen, hplace]
  have hdrop : (⟨'"' :: inside, p⟩ : Cursor).drop 1 = ⟨inside, after p '"'⟩ := rfl
  simp only [textNode, hdrop]
  simp only [inside] at hwalk ⊢
  rw [hwalk.1, hwalk.2]
  simp

/-! ### Words -/

theorem word_append : word cs ⟨cs ++ rest, p⟩ = .ok ((), ⟨rest, afterAll p cs⟩) := by
  induction cs generalizing p with
  | nil => rfl
  | cons c cs ih =>
    rw [List.cons_append, word]
    simp only [if_pos]
    exact ih

theorem wordNode_append (c : Char) (cs : List Char) (a : Atom) :
    wordNode ⟨c :: cs ++ rest, p⟩ cs a =
      (.scalar ⟨.ok a, none, .ok (a == .null), none⟩ p (afterAll p (c :: cs)),
        some ⟨rest, afterAll p (c :: cs)⟩) := by
  have hword : word cs ((⟨c :: cs ++ rest, p⟩ : Cursor).drop 1) = _ := word_append (p := after p c)
  simp only [wordNode, hword]
  rfl

/-! ### Values -/

mutual

/-- Data of words alone: it holds no numbers, and the keys of its maps are texts. -/
def Verbal : Datum → Prop
  | .integer _ | .real _ => False
  | .list items => VerbalItems items
  | .map entries => VerbalEntries entries
  | _ => True

def VerbalItems : List Datum → Prop
  | [] => True
  | d :: rest => Verbal d ∧ VerbalItems rest

def VerbalEntries : List (Datum × Datum) → Prop
  | [] => True
  | (k, v) :: rest => (∃ name, k = .text name) ∧ Verbal v ∧ VerbalEntries rest

end

theorem verbal_list {ds : List Datum} (h : ∀ d ∈ ds, Verbal d) : Verbal (.list ds) := by
  show VerbalItems ds
  induction ds with
  | nil => exact True.intro
  | cons d ds ih =>
    obtain ⟨hd, hds⟩ := List.forall_mem_cons.mp h
    exact ⟨hd, ih hds⟩

theorem verbal_record {entries : List (String × Datum)} (h : ∀ e ∈ entries, Verbal e.2) :
    Verbal (.record entries) := by
  show VerbalEntries (entries.map fun e => (.text e.1, e.2))
  induction entries with
  | nil => exact True.intro
  | cons e entries ih =>
    obtain ⟨he, hentries⟩ := List.forall_mem_cons.mp h
    exact ⟨⟨e.1, rfl⟩, he, ih hentries⟩

/-- What stands before a part of a list or map. -/
def comma (isFirst : Bool) : List Char := if isFirst then [] else [',']

/-- Items as they are scanned, each with the comma before it. -/
def itemsFrom (isFirst : Bool) : List Datum → List Char
  | [] => []
  | d :: rest => comma isFirst ++ (chars d ++ itemsFrom false rest)

def entriesFrom (isFirst : Bool) : List (Datum × Datum) → List Char
  | [] => []
  | (k, v) :: rest => comma isFirst ++ (chars k ++ ':' :: (chars v ++ entriesFrom false rest))

theorem itemChars_eq (ds : List Datum) : itemChars ds = itemsFrom true ds := by
  have more (d : Datum) (ds : List Datum) :
      itemChars (d :: ds) = chars d ++ itemsFrom false ds := by
    induction ds generalizing d with
    | nil => simp [itemChars, itemsFrom]
    | cons d' ds ih => simp [itemChars, itemsFrom, comma, ih]
  cases ds with
  | nil => rfl
  | cons d ds => exact more d ds

theorem entryChars_eq (ds : List (Datum × Datum)) : entryChars ds = entriesFrom true ds := by
  have more (d : Datum × Datum) (ds : List (Datum × Datum)) :
      entryChars (d :: ds) = chars d.1 ++ ':' :: (chars d.2 ++ entriesFrom false ds) := by
    induction ds generalizing d with
    | nil => simp [entryChars, entriesFrom]
    | cons d' ds ih => simp [entryChars, entriesFrom, comma, ih]
  cases ds with
  | nil => rfl
  | cons d ds => exact more d ds

/-- The characters that values start with. -/
def openers : List Char := ['n', 't', 'f', '"', '[', '\x7b']

theorem chars_eq_cons {d : Datum} (h : Verbal d) : ∃ c ∈ openers, ∃ cs, chars d = c :: cs := by
  cases d with
  | null => exact ⟨'n', by decide, ['u', 'l', 'l'], rfl⟩
  | boolean b =>
    cases b
    · exact ⟨'f', by decide, ['a', 'l', 's', 'e'], rfl⟩
    · exact ⟨'t', by decide, ['r', 'u', 'e'], rfl⟩
  | integer _ => exact h.elim
  | real _ => exact h.elim
  | text s =>
    exact ⟨'"', by decide, s.toList.flatMap escaped ++ ['"'], by simp [chars, quotedChars]⟩
  | list items => exact ⟨'[', by decide, _, rfl⟩
  | map entries => exact ⟨'\x7b', by decide, _, rfl⟩

theorem opener_facts : ∀ c ∈ openers, Cursor.isSpace c = false ∧ c ≠ ']' ∧ c ≠ ',' := by
  simp only [openers, List.mem_cons, List.not_mem_nil, or_false, forall_eq_or_imp, forall_eq]
  decide

theorem skipSpace_cons {c : Char} (h : Cursor.isSpace c = false) :
    (⟨c :: cs, p⟩ : Cursor).skipSpace = ⟨c :: cs, p⟩ := by
  simp [Cursor.skipSpace, Cursor.drop, h, afterAll]

theorem scan_list (fuel : Nat) (cs : List Char) (p : Place) :
    scan (fuel + 1) ⟨'[' :: cs, p⟩ =
      (.list (scanItems fuel true ⟨cs, after p '['⟩).1 p
          (scanItems fuel true ⟨cs, after p '['⟩).2.1,
        (scanItems fuel true ⟨cs, after p '['⟩).2.2) := rfl

theorem scan_map (fuel : Nat) (cs : List Char) (p : Place) :
    scan (fuel + 1) ⟨'\x7b' :: cs, p⟩ =
      (.map (scanEntries fuel true ⟨cs, after p '\x7b'⟩).1 p
          (scanEntries fuel true ⟨cs, after p '\x7b'⟩).2.1,
        (scanEntries fuel true ⟨cs, after p '\x7b'⟩).2.2) := rfl

/-- An item is scanned behind its comma, and the others from where it ends. -/
theorem scanItems_item {isFirst : Bool} {c : Char} (hc : c ∈ openers) {n : Node} {past : Cursor}
    (h : scan fuel ⟨c :: cs, afterAll p (comma isFirst)⟩ = (n, some past)) :
    scanItems (fuel + 1) isFirst ⟨comma isFirst ++ c :: cs, p⟩ =
      (n :: (scanItems fuel false past).1, (scanItems fuel false past).2) := by
  obtain ⟨hspace, hclose, hcomma⟩ := opener_facts c hc
  cases isFirst with
  | true =>
    have h : scan fuel ⟨c :: cs, p⟩ = (n, some past) := h
    show scanItems (fuel + 1) true ⟨c :: cs, p⟩ = _
    simp only [scanItems, skipSpace_cons hspace, h]
    rfl
  | false =>
    have h : scan fuel ⟨c :: cs, after p ','⟩ = (n, some past) := h
    have hfront : (⟨',' :: c :: cs, p⟩ : Cursor).skipSpace = ⟨',' :: c :: cs, p⟩ :=
      skipSpace_cons rfl
    have hnext : ((⟨',' :: c :: cs, p⟩ : Cursor).drop 1).skipSpace = ⟨c :: cs, after p ','⟩ :=
      skipSpace_cons hspace
    show scanItems (fuel + 1) false ⟨',' :: c :: cs, p⟩ = _
    simp only [scanItems, hfront, hnext, h, if_neg Bool.false_ne_true]
    split
    · rename_i heq
      exact absurd (List.cons.inj heq).1 hclose
    · rfl

/-- An entry is scanned behind its comma, key and value, and the others from where it ends. -/
theorem scanEntries_entry {isFirst : Bool} {v : Scalar} {start stop colon : Place}
    {cs' : List Char} {n : Node} {past : Cursor}
    (hkey : textNode ⟨'"' :: cs, afterAll p (comma isFirst)⟩ =
      (.scalar v start stop, some ⟨':' :: cs', colon⟩))
    (hvalue : scan fuel ⟨cs', after colon ':'⟩ = (n, some past)) :
    scanEntries (fuel + 1) isFirst ⟨comma isFirst ++ '"' :: cs, p⟩ =
      ((.scalar v start stop, colon, n) :: (scanEntries fuel false past).1,
        (scanEntries fuel false past).2) := by
  have hcolon : (⟨':' :: cs', colon⟩ : Cursor).skipSpace = ⟨':' :: cs', colon⟩ := skipSpace_cons rfl
  have hvalue : scan fuel ((⟨':' :: cs', colon⟩ : Cursor).drop 1) = (n, some past) := hvalue
  cases isFirst with
  | true =>
    have hkey : textNode ⟨'"' :: cs, p⟩ = _ := hkey
    have hfront : (⟨'"' :: cs, p⟩ : Cursor).skipSpace = ⟨'"' :: cs, p⟩ := skipSpace_cons rfl
    show scanEntries (fuel + 1) true ⟨'"' :: cs, p⟩ = _
    simp only [scanEntries, hfront, hkey, hcolon, hvalue]
    rfl
  | false =>
    have hkey : textNode ⟨'"' :: cs, after p ','⟩ = _ := hkey
    have hfront : (⟨',' :: '"' :: cs, p⟩ : Cursor).skipSpace = ⟨',' :: '"' :: cs, p⟩ :=
      skipSpace_cons rfl
    have hnext : ((⟨',' :: '"' :: cs, p⟩ : Cursor).drop 1).skipSpace = ⟨'"' :: cs, after p ','⟩ :=
      skipSpace_cons rfl
    show scanEntries (fuel + 1) false ⟨',' :: '"' :: cs, p⟩ = _
    simp only [scanEntries, hfront, hnext, hkey, hcolon, hvalue]
    rfl

variable {sure : String → Prop}

mutual

/-- **A value is found at the front of a text, and nothing of what follows it is lost.** -/
theorem scan_chars : ∀ (d : Datum), Verbal d → ∀ (fuel : Nat) (p : Place) (rest : List Char),
    2 * (chars d).length ≤ fuel + 1 →
      ∃ n, scan (fuel + 1) ⟨chars d ++ rest, p⟩ = (n, some ⟨rest, afterAll p (chars d)⟩) ∧
        n.Shows sure d
  | .null, _, _, p, _, _ =>
    ⟨_, wordNode_append 'n' ['u', 'l', 'l'] .null, .null⟩
  | .boolean true, _, _, p, _, _ =>
    ⟨_, wordNode_append 't' ['r', 'u', 'e'] (.boolean true), .boolean⟩
  | .boolean false, _, _, p, _, _ =>
    ⟨_, wordNode_append 'f' ['a', 'l', 's', 'e'] (.boolean false), .boolean⟩
  | .text s, _, _, _, _, _ => ⟨_, textNode_quotedChars s _ _, .text⟩
  | .list items, h, fuel, p, rest, hfuel => by
    have hchars : chars (.list items) = '[' :: (itemsFrom true items ++ [']']) := by
      rw [chars, itemChars_eq]
    rw [hchars] at hfuel ⊢
    simp only [List.length_cons, List.length_append] at hfuel
    obtain ⟨fuel, rfl⟩ : ∃ k, fuel = k + 1 := ⟨fuel - 1, by omega⟩
    obtain ⟨ns, hitems, hshows⟩ :=
      scanItems_itemsFrom items h true fuel (after p '[') rest (by omega)
    refine ⟨_, ?_,
      .list (p := p) (q := afterAll (after p '[') (itemsFrom true items ++ [']'])) hshows⟩
    have hscan := scan_list (fuel + 1) (itemsFrom true items ++ ']' :: rest) p
    rw [hitems] at hscan
    rw [List.cons_append, List.append_assoc]
    exact hscan
  | .map entries, h, fuel, p, rest, hfuel => by
    have hchars : chars (.map entries) = '\x7b' :: (entriesFrom true entries ++ ['\x7d']) := by
      rw [chars, entryChars_eq]
    rw [hchars] at hfuel ⊢
    simp only [List.length_cons, List.length_append] at hfuel
    obtain ⟨fuel, rfl⟩ : ∃ k, fuel = k + 1 := ⟨fuel - 1, by omega⟩
    obtain ⟨es, hentries, hshows⟩ :=
      scanEntries_entriesFrom entries h true fuel (after p '\x7b') rest (by omega)
    refine ⟨_, ?_,
      .map (p := p) (q := afterAll (after p '\x7b') (entriesFrom true entries ++ ['\x7d'])) hshows
        (.refl entries)⟩
    have hscan := scan_map (fuel + 1) (entriesFrom true entries ++ '\x7d' :: rest) p
    rw [hentries] at hscan
    rw [List.cons_append, List.append_assoc]
    exact hscan

theorem scanItems_itemsFrom : ∀ (ds : List Datum), VerbalItems ds → ∀ (isFirst : Bool) (fuel : Nat)
    (p : Place) (rest : List Char), 2 * (itemsFrom isFirst ds).length ≤ fuel →
      ∃ ns, scanItems (fuel + 1) isFirst ⟨itemsFrom isFirst ds ++ ']' :: rest, p⟩ =
          (ns, .closed (afterAll p (itemsFrom isFirst ds ++ [']'])),
            some ⟨rest, afterAll p (itemsFrom isFirst ds ++ [']'])⟩) ∧ Node.ShowsItems sure ns ds
  | [], _, _, _, _, _, _ => ⟨[], rfl, .nil⟩
  | d :: ds, ⟨hd, hds⟩, isFirst, fuel, p, rest, hfuel => by
    obtain ⟨c, hc, cs, hcs⟩ := chars_eq_cons hd
    have hlength : 1 ≤ (chars d).length := by rw [hcs]; exact Nat.succ_pos _
    simp only [itemsFrom, List.length_append] at hfuel
    obtain ⟨fuel, rfl⟩ : ∃ k, fuel = k + 1 := ⟨fuel - 1, by omega⟩
    obtain ⟨n, hfirst, hn⟩ := scan_chars d hd fuel (afterAll p (comma isFirst))
      (itemsFrom false ds ++ ']' :: rest) (by omega)
    obtain ⟨ns, hrest, hns⟩ := scanItems_itemsFrom ds hds false fuel
      (afterAll (afterAll p (comma isFirst)) (chars d)) rest (by omega)
    refine ⟨n :: ns, ?_, .cons hn hns⟩
    rw [hcs] at hfirst
    rw [List.cons_append] at hfirst
    have hitem := scanItems_item hc hfirst
    rw [← List.cons_append, ← hcs, hrest] at hitem
    simp only [itemsFrom, List.append_assoc, afterAll_append] at hitem ⊢
    exact hitem

theorem scanEntries_entriesFrom : ∀ (ds : List (Datum × Datum)), VerbalEntries ds →
    ∀ (isFirst : Bool) (fuel : Nat) (p : Place) (rest : List Char),
    2 * (entriesFrom isFirst ds).length ≤ fuel →
      ∃ es, scanEntries (fuel + 1) isFirst ⟨entriesFrom isFirst ds ++ '\x7d' :: rest, p⟩ =
          (es, .closed (afterAll p (entriesFrom isFirst ds ++ ['\x7d'])),
            some ⟨rest, afterAll p (entriesFrom isFirst ds ++ ['\x7d'])⟩) ∧ Node.ShowsEntries sure es ds
  | [], _, _, _, _, _, _ => ⟨[], rfl, .nil⟩
  | (_, d) :: ds, ⟨⟨name, rfl⟩, hd, hds⟩, isFirst, fuel, p, rest, hfuel => by
    simp only [entriesFrom, List.length_append, List.length_cons] at hfuel
    obtain ⟨fuel, rfl⟩ : ∃ k, fuel = k + 1 := ⟨fuel - 1, by omega⟩
    let colon := afterAll (afterAll p (comma isFirst)) (quotedChars name)
    obtain ⟨n, hfirst, hn⟩ := scan_chars d hd fuel (after colon ':')
      (entriesFrom false ds ++ '\x7d' :: rest) (by omega)
    obtain ⟨es, hrest, hes⟩ := scanEntries_entriesFrom ds hds false fuel
      (afterAll (after colon ':') (chars d)) rest (by omega)
    have hkey := textNode_quotedChars name
      (':' :: (chars d ++ (entriesFrom false ds ++ '\x7d' :: rest))) (afterAll p (comma isFirst))
    have hentry := scanEntries_entry hkey hfirst
    have hname : Node.Shows sure
        (.scalar ⟨.ok (.text name), none, .ok false, none⟩ (afterAll p (comma isFirst)) colon)
        (.text name) := .text
    refine ⟨(_, colon, _) :: es, ?_, .cons hname hn hes⟩
    rw [hrest] at hentry
    simp only [entriesFrom, List.append_assoc, List.cons_append, afterAll_append, afterAll_cons]
      at hentry ⊢
    exact hentry

end

/-- **What is written as JSON is read from it again**, as deep as a text may nest. -/
theorem read_write {r : Reader α} {depth : Nat} {d : Datum} {a : α}
    (h : r.Reads InQuotes depth d a) (verbal : Verbal d) (shallow : depth ≤ 127) :
    read r (write d) = .ok a := by
  obtain ⟨n, hscan, hshows⟩ := scan_chars d verbal (2 * (chars d).length + 1) .start [] (by omega)
  have ha := h (.ofMedium .jsonText) n shallow hshows
  rw [List.append_nil] at hscan
  have htext : (Cursor.ofText (write d)) = ⟨chars d, .start⟩ := by simp [Cursor.ofText, write]
  simp only [read, htext, hscan, ha]
  rfl

end Json
end FleetJobs
