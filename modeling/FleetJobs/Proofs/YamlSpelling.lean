import FleetJobs.Proofs.YamlTokens

/-! The tokens of a document that was written.

What a datum is spelled with (`spell`) depends on nothing but the datum: neither on where
its text begins nor on how far in its lines are. The scanner goes through the text of a
value token by token and leaves the value behind, with the lists and maps in it still to be
closed (`Taken`); by induction over the datum this is so for every value, item and entry. -/
namespace FleetJobs.Yaml

open FleetJobs.Data

mutual

/-- Data whose text is taken back: naturals of 64 bits, no real numbers, and maps with at
least one entry, under short names that need no quotes. -/
def Tidy : Datum → Prop
  | .integer i => 0 ≤ i ∧ i < 18446744073709551616
  | .real _ => False
  | .list ds => TidyItems ds
  | .map es => es ≠ [] ∧ TidyEntries es
  | _ => True

def TidyItems : List Datum → Prop
  | [] => True
  | d :: ds => Tidy d ∧ TidyItems ds

def TidyEntries : List (Datum × Datum) → Prop
  | [] => True
  | (k, v) :: es => (∃ t, k = .text t ∧ needsQuotes t = false ∧ t.length ≤ Scanner.keyReach) ∧ Tidy v ∧
    TidyEntries es

end

mutual

/-- The tokens that spell a datum. -/
def spell : Datum → List TokenKind
  | .null => [.scalar true "~"]
  | .boolean b => [.scalar true (if b then "true" else "false")]
  | .integer i => [.scalar true (toString i)]
  | .real x => [.scalar true (x.write ⟨fun _ => false⟩)]
  | .text t => [.scalar (!needsQuotes t) t]
  | .list [] => [.listStart, .listEnd]
  | .list (d :: ds) => .blockListStart :: .item :: spell d ++ spellItems ds ++ [.blockEnd]
  | .map [] => [.mapStart, .mapEnd]
  | .map ((k, v) :: es) =>
    .blockMapStart :: .key :: spell k ++ .value :: spell v ++ spellEntries es ++ [.blockEnd]

def spellItems : List Datum → List TokenKind
  | [] => []
  | d :: ds => .item :: spell d ++ spellItems ds

def spellEntries : List (Datum × Datum) → List TokenKind
  | [] => []
  | (k, v) :: es => .key :: spell k ++ .value :: spell v ++ spellEntries es

end

/-! ### Words -/

theorem solid_of_isDigit {c : Char} (h : c.isDigit = true) : IsSolid c ∧ isOpener c = false := by
  have hcases : ∀ n < 58, 48 ≤ n → IsSolid (Char.ofNat n) ∧ isOpener (Char.ofNat n) = false := by
    unfold IsSolid
    decide
  have hbounds : 48 ≤ c.toNat ∧ c.toNat ≤ 57 := by
    simpa [Char.isDigit, UInt32.le_iff_toNat_le] using h
  have hc := hcases c.toNat (by omega) hbounds.1
  rwa [Char.ofNat_toNat] at hc

theorem bare_of_solid {cs : List Char} (nonempty : cs ≠ [])
    (solid : ∀ c ∈ cs, IsSolid c ∧ isOpener c = false) : Bare cs :=
  ⟨.one nonempty fun c hc => (solid c hc).1, fun c hc => (solid c (List.mem_of_mem_head? hc)).2⟩

/-- The words that stand for themselves can be looked through. -/
theorem bare_of_all {cs : List Char} (nonempty : cs ≠ [])
    (solid : (cs.all fun c => c != ' ' && !isIndicatorChar c && !isOpener c) = true) : Bare cs := by
  refine bare_of_solid nonempty fun c hc => ?_
  simpa [IsSolid, and_assoc] using List.all_eq_true.mp solid c hc

theorem bare_of_natural (n : Nat) : Bare (Nat.toDigits 10 n) :=
  bare_of_solid Nat.toDigits_ne_nil fun _ hc =>
    solid_of_isDigit (Nat.isDigit_of_mem_toDigits (by decide) (by decide) hc)

theorem toList_natural (n : Nat) : (toString (n : Int)).toList = Nat.toDigits 10 n := by
  show (Nat.repr n).toList = _
  rw [Nat.repr_eq_ofList_toDigits, String.toList_ofList]

/-! ### Values -/

open Scanner

/-- Lists and maps that have lines of their own. -/
def IsBlock : Datum → Prop
  | .list (_ :: _) | .map (_ :: _) => True
  | _ => False

/-- What stands between a key's colon and its value. -/
def lead (level : Nat) : Datum → List Char
  | .list (_ :: _) | .map (_ :: _) => newline (level + 1)
  | _ => [' ']

theorem lead_cases (level : Nat) (d : Datum) :
    lead level d = [' '] ∧ ¬ IsBlock d ∨ lead level d = newline (level + 1) ∧ IsBlock d := by
  rcases d with _ | _ | _ | _ | _ | ds | es
  case list => cases ds <;> simp [lead, IsBlock]
  case map => cases es <;> simp [lead, IsBlock]
  all_goals exact .inl ⟨rfl, id⟩

theorem chars_afterKey (level : Nat) (d : Datum) :
    chars .afterKey level d = lead level d ++ chars .here (level + 1) d := by
  rcases d with _ | _ | _ | _ | _ | _ | _
  case list ds => cases ds <;> simp [chars, lead, Seat.gap, Seat.inner, Seat.opening]
  case map es => rcases es with _ | ⟨⟨k, v⟩, es⟩ <;> simp [chars, lead, Seat.gap, Seat.inner, Seat.opening]
  all_goals rfl

/-- The scanner goes through a value's text and has its tokens. A list or map with lines of
its own begins where its level says; the line after the value lies no further in than what the
value is in. -/
def Taken (d : Datum) : Prop :=
  ∀ ⦃s : Scanner⦄ ⦃level column : Nat⦄ ⦃allowed : Bool⦄ ⦃top : Int⦄ ⦃below : List Int⦄
    ⦃kinds : List TokenKind⦄ ⦃text : List Char⦄,
    s.Faces (chars .here level d ++ text) column allowed (top :: below) kinds → top < column →
    (IsBlock d → column = 2 * level ∧ allowed = true) → Line top text →
    ∃ t, Runs s t ∧ Left t text top below ((spell d).reverse ++ kinds)

theorem taken_of_bare {d : Datum} {cs : List Char} (hchars : ∀ level, chars .here level d = cs)
    (hspell : spell d = [.scalar true (String.ofList cs)]) (bare : Bare cs) : Taken d := by
  intro s level column allowed top below kinds text h inside _ line
  rw [hchars] at h
  rw [hspell]
  exact h.plain bare (Int.le_of_lt inside) line

theorem taken_null : Taken .null :=
  taken_of_bare (fun _ => rfl) rfl (bare_of_all (List.cons_ne_nil _ _) (by decide))

theorem taken_boolean (b : Bool) : Taken (.boolean b) := by
  cases b
  · exact taken_of_bare (fun _ => rfl) rfl (bare_of_all (List.cons_ne_nil _ _) (by decide))
  · exact taken_of_bare (fun _ => rfl) rfl (bare_of_all (List.cons_ne_nil _ _) (by decide))

theorem taken_natural (n : Nat) : Taken (.integer n) := by
  have hchars : ∀ level, chars .here level (.integer n) = Nat.toDigits 10 n := fun _ => toList_natural n
  have hspell : spell (.integer n) = [.scalar true (String.ofList (Nat.toDigits 10 n))] := by
    rw [spell, ← toList_natural, String.ofList_toList]
  exact taken_of_bare hchars hspell (bare_of_natural n)

theorem taken_text (t : String) : Taken (.text t) := by
  cases hquotes : needsQuotes t with
  | false =>
    refine taken_of_bare (fun _ => ?_) ?_ (bare_of_needsQuotes hquotes)
    · simp [chars, Seat.gap, textChars, hquotes]
    · simp [spell, hquotes]
  | true =>
    intro s level column allowed top below kinds text h inside _ line
    have hchars : chars .here level (.text t) ++ text = '"' :: (t.toList.flatMap escaped ++ '"' :: text) := by
      simp [chars, Seat.gap, textChars, hquotes]
    rw [hchars] at h
    have hspell : spell (.text t) = [.scalar false (String.ofList t.toList)] := by simp [spell, hquotes]
    rw [hspell]
    exact h.quoted line

theorem taken_emptyList : Taken (.list []) := by
  intro s level column allowed top below kinds text h _ _ line
  exact h.emptyList line

/-! ### Lines of a list or map -/

theorem starts_cons {c : Char} {cs : List Char} (h : c ∉ [' ', '\t', '\n', '\r', '#']) :
    Starts (c :: cs) := by
  intro d hd
  obtain rfl : c = d := Option.some.inj hd
  exact h

theorem Bare.starts {cs : List Char} (bare : Bare cs) (rest : List Char) : Starts (cs ++ rest) := by
  obtain ⟨c, ds, rfl, solid, _⟩ := bare.head
  refine starts_cons ?_
  have htab : c ≠ '\t' := solid.ne (by decide)
  have hnewline : c ≠ '\n' := solid.ne (by decide)
  have hreturn : c ≠ '\r' := solid.ne (by decide)
  have hhash : c ≠ '#' := solid.ne (by decide)
  simp [solid.1, htab, hnewline, hreturn, hhash]

theorem chars_of_key {t : String} (h : needsQuotes t = false) (level : Nat) :
    chars .here level (.text t) = t.toList := by
  simp [chars, Seat.gap, textChars, h]

/-- A value begins with no blank and no line break. -/
theorem starts_of_tidy {d : Datum} (tidy : Tidy d) (level : Nat) (rest : List Char) :
    Starts (chars .here level d ++ rest) := by
  rcases d with _ | b | i | x | t | ds | es
  case null => exact starts_cons (by decide)
  case boolean => cases b <;> exact starts_cons (by decide)
  case integer =>
    obtain ⟨n, rfl⟩ := Int.eq_ofNat_of_zero_le tidy.1
    have hchars : chars .here level (.integer n) = Nat.toDigits 10 n := toList_natural n
    rw [hchars]
    exact (bare_of_natural n).starts rest
  case real => exact tidy.elim
  case text =>
    cases hquotes : needsQuotes t with
    | false =>
      rw [chars_of_key hquotes]
      exact (bare_of_needsQuotes hquotes).starts rest
    | true =>
      have hchars : chars .here level (.text t) ++ rest = '"' :: (t.toList.flatMap escaped ++ '"' :: rest) := by
        simp [chars, Seat.gap, textChars, hquotes]
      rw [hchars]
      exact starts_cons (by decide)
  case list => cases ds <;> exact starts_cons (by decide)
  case map =>
    rcases es with _ | ⟨⟨k, v⟩, es⟩
    · exact absurd rfl tidy.1
    · obtain ⟨_, ⟨t, rfl, hquotes, _⟩, _⟩ := tidy
      have hkey : chars .here level (.text t) = t.toList := chars_of_key hquotes level
      rw [chars, List.append_assoc, List.append_assoc, List.append_assoc, List.append_assoc]
      show Starts (chars .here level (.text t) ++ _)
      rw [hkey]
      exact (bare_of_needsQuotes hquotes).starts _

theorem line_newline {limit : Int} {rest : List Char} (level : Nat) (starts : Starts rest)
    (inside : (2 * level : Nat) ≤ limit) : Line limit (newline level ++ rest) :=
  ⟨List.replicate (2 * level) ' ', rest, rfl, fun _ hc => List.eq_of_mem_replicate hc, starts,
    by rwa [List.length_replicate]⟩

theorem line_items {level : Nat} {text : List Char} (line : Line (2 * level : Nat) text) (ds : List Datum) :
    Line (2 * level : Nat) (itemsChars level ds ++ text) := by
  cases ds with
  | nil => exact line
  | cons d ds =>
    rw [itemsChars, List.append_assoc, List.append_assoc, List.append_assoc]
    exact line_newline level (starts_cons (by decide)) (Int.le_refl _)

theorem line_entries {level : Nat} {text : List Char} (line : Line (2 * level : Nat) text)
    {es : List (Datum × Datum)} (tidy : TidyEntries es) :
    Line (2 * level : Nat) (entriesChars level es ++ text) := by
  rcases es with _ | ⟨⟨k, v⟩, es⟩
  · exact line
  · obtain ⟨⟨t, rfl, hquotes, _⟩, _⟩ := tidy
    have hkey : chars .here level (.text t) = t.toList := chars_of_key hquotes level
    rw [entriesChars, hkey]
    simp only [List.append_assoc]
    exact line_newline level ((bare_of_needsQuotes hquotes).starts _) (Int.le_refl _)

section Lines

variable {s : Scanner} {level : Nat} {top : Int} {below outer : List Int} {kinds : List TokenKind}
  {text : List Char}

/-- An item, from its dash on. -/
theorem left_of_item {d : Datum} (taken : Taken d) (tidy : Tidy d)
    (h : s.Faces ('-' :: ' ' :: (chars .here (level + 1) d ++ text)) (2 * level) true (top :: below) kinds)
    (opened : (if top < (2 * level : Nat) then ((2 * level : Nat) : Int) :: top :: below else top :: below) =
      ((2 * level : Nat) : Int) :: outer) (line : Line (2 * level : Nat) text) :
    ∃ t, Runs s t ∧ Left t text (2 * level : Nat) outer ((spell d).reverse ++ .item ::
      (if top < (2 * level : Nat) then .blockListStart :: kinds else kinds)) := by
  obtain ⟨t, ht, hitem⟩ := h.item
  rw [opened] at hitem
  have hfaces : t.Faces (chars .here (level + 1) d ++ text) (2 * level + 1 + 1) true
      (((2 * level : Nat) : Int) :: outer) _ :=
    At.faces (show At t ([' '] ++ (chars .here (level + 1) d ++ text)) _ _ _ _ from hitem) nofun (by simp)
      (starts_of_tidy tidy _ _) (by simp; omega)
  obtain ⟨u, hu, hleft⟩ := taken hfaces (by omega) (fun _ => ⟨by omega, rfl⟩) line
  exact ⟨u, ht.trans hu, hleft⟩

/-- An entry, from its key on. -/
theorem left_of_entry {k : String} {v : Datum} (hquotes : needsQuotes k = false)
    (short : k.length ≤ keyReach) (taken : Taken v) (tidy : Tidy v)
    (h : s.Faces (k.toList ++ ':' :: (chars .afterKey level v ++ text)) (2 * level) true (top :: below) kinds)
    (inside : top ≤ (2 * level : Nat))
    (opened : (if top < (2 * level : Nat) then ((2 * level : Nat) : Int) :: top :: below else top :: below) =
      ((2 * level : Nat) : Int) :: outer) (line : Line (2 * level : Nat) text) :
    ∃ t, Runs s t ∧ Left t text (2 * level : Nat) outer ((spell v).reverse ++ .value :: .scalar true k :: .key ::
      (if top < (2 * level : Nat) then .blockMapStart :: kinds else kinds)) := by
  have hstarts : Starts (chars .here (level + 1) v ++ text) := starts_of_tidy tidy _ _
  have hkey := bare_of_needsQuotes hquotes
  have hname : String.ofList k.toList = k := String.ofList_toList
  rw [chars_afterKey, List.append_assoc] at h
  rcases lead_cases level v with ⟨hlead, hflat⟩ | ⟨hlead, _⟩
  · rw [hlead] at h
    obtain ⟨t, ht, hvalue⟩ := h.key hkey inside rfl short
    rw [opened, hname] at hvalue
    have hfaces : t.Faces (chars .here (level + 1) v ++ text) (2 * level + k.toList.length + 1 + 1) false
        (((2 * level : Nat) : Int) :: outer) _ :=
      At.faces (show At t ([' '] ++ (chars .here (level + 1) v ++ text)) _ _ _ _ from hvalue) nofun (by simp)
        hstarts (by simp; omega)
    obtain ⟨u, hu, hleft⟩ := taken hfaces (by omega) (fun hblock => absurd hblock hflat) line
    exact ⟨u, ht.trans hu, hleft⟩
  · rw [hlead] at h
    obtain ⟨t, ht, hvalue⟩ := h.key hkey inside rfl short
    rw [opened, hname] at hvalue
    have hfaces := hvalue.faces_line nofun (fun _ hc => List.eq_of_mem_replicate hc) hstarts
      (by rw [List.length_replicate]; omega)
    rw [List.length_replicate] at hfaces
    obtain ⟨u, hu, hleft⟩ := taken hfaces (by omega) (fun _ => ⟨rfl, rfl⟩) line
    exact ⟨u, ht.trans hu, hleft⟩

end Lines

/-! ### All data -/

theorem replicate_blank (n : Nat) : ∀ c ∈ List.replicate n ' ', c = ' ' :=
  fun _ hc => List.eq_of_mem_replicate hc

mutual

/-- **The scanner takes every tidy value**, whatever it is in. -/
theorem taken_of_tidy : ∀ d : Datum, Tidy d → Taken d
  | .null, _ => taken_null
  | .boolean b, _ => taken_boolean b
  | .integer i, tidy => by
    obtain ⟨n, rfl⟩ := Int.eq_ofNat_of_zero_le tidy.1
    exact taken_natural n
  | .real _, tidy => tidy.elim
  | .text t, _ => taken_text t
  | .list [], _ => taken_emptyList
  | .list (d :: ds), ⟨hd, hds⟩ => by
    intro s level column allowed top below kinds text h inside hblock line
    obtain ⟨rfl, rfl⟩ := hblock trivial
    have hown : Line (2 * level : Nat) text := line.mono (Int.le_of_lt inside)
    simp only [chars, Seat.opening, Seat.inner, List.nil_append, List.append_assoc] at h
    obtain ⟨t, ht, hleft⟩ := left_of_item (taken_of_tidy d hd) hd h (if_pos inside) (line_items hown ds)
    obtain ⟨u, hu, hlist⟩ := left_of_items ds hds hleft hown
    refine ⟨u, ht.trans hu, ?_⟩
    rw [if_pos inside] at hlist
    simpa [spell] using hlist.close inside
  | .map [], tidy => absurd rfl tidy.1
  | .map ((k, v) :: es), ⟨_, ⟨⟨name, hk, hquotes, short⟩, hv, hes⟩⟩ => by
    intro s level column allowed top below kinds text h inside hblock line
    obtain ⟨rfl, rfl⟩ := hblock trivial
    obtain rfl := hk
    have hown : Line (2 * level : Nat) text := line.mono (Int.le_of_lt inside)
    have hkey : chars .here level (.text name) = name.toList := chars_of_key hquotes level
    rw [chars, Seat.opening, Seat.inner, hkey] at h
    simp only [List.nil_append, List.append_assoc] at h
    obtain ⟨t, ht, hleft⟩ := left_of_entry hquotes short (taken_of_tidy v hv) hv h (Int.le_of_lt inside)
      (if_pos inside) (line_entries hown hes)
    obtain ⟨u, hu, hmap⟩ := left_of_entries es hes hleft hown
    refine ⟨u, ht.trans hu, ?_⟩
    rw [if_pos inside] at hmap
    simpa [spell, hquotes] using hmap.close inside

theorem left_of_items : ∀ ds : List Datum, TidyItems ds → ∀ ⦃s : Scanner⦄ ⦃level : Nat⦄ ⦃outer : List Int⦄
    ⦃kinds : List TokenKind⦄ ⦃text : List Char⦄,
    Left s (itemsChars level ds ++ text) (2 * level : Nat) outer kinds → Line (2 * level : Nat) text →
    ∃ t, Runs s t ∧ Left t text (2 * level : Nat) outer ((spellItems ds).reverse ++ kinds)
  | [], _, _, _, _, _, _, h, _ => ⟨_, .refl _, h⟩
  | d :: ds, ⟨hd, hds⟩, s, level, outer, kinds, text, h, line => by
    rw [itemsChars, List.append_assoc, List.append_assoc, List.append_assoc] at h
    have hfaces := h.faces (replicate_blank _) (starts_cons (by decide)) (by rw [List.length_replicate])
    rw [List.length_replicate] at hfaces
    obtain ⟨t, ht, hleft⟩ := left_of_item (taken_of_tidy d hd) hd hfaces (if_neg (Int.lt_irrefl _))
      (line_items line ds)
    obtain ⟨u, hu, hrest⟩ := left_of_items ds hds hleft line
    refine ⟨u, ht.trans hu, ?_⟩
    rw [if_neg (Int.lt_irrefl _)] at hrest
    simpa [spellItems] using hrest

theorem left_of_entries : ∀ es : List (Datum × Datum), TidyEntries es → ∀ ⦃s : Scanner⦄ ⦃level : Nat⦄
    ⦃outer : List Int⦄ ⦃kinds : List TokenKind⦄ ⦃text : List Char⦄,
    Left s (entriesChars level es ++ text) (2 * level : Nat) outer kinds → Line (2 * level : Nat) text →
    ∃ t, Runs s t ∧ Left t text (2 * level : Nat) outer ((spellEntries es).reverse ++ kinds)
  | [], _, _, _, _, _, _, h, _ => ⟨_, .refl _, h⟩
  | (k, v) :: es, ⟨⟨name, hk, hquotes, short⟩, hv, hes⟩, s, level, outer, kinds, text, h, line => by
    obtain rfl := hk
    have hkey : chars .here level (.text name) = name.toList := chars_of_key hquotes level
    rw [entriesChars, hkey] at h
    simp only [List.append_assoc] at h
    have hfaces := h.faces (replicate_blank _) ((bare_of_needsQuotes hquotes).starts _)
      (by rw [List.length_replicate])
    rw [List.length_replicate] at hfaces
    obtain ⟨t, ht, hleft⟩ := left_of_entry hquotes short (taken_of_tidy v hv) hv hfaces (Int.le_refl _)
      (if_neg (Int.lt_irrefl _)) (line_entries line hes)
    obtain ⟨u, hu, hrest⟩ := left_of_entries es hes hleft line
    refine ⟨u, ht.trans hu, ?_⟩
    rw [if_neg (Int.lt_irrefl _)] at hrest
    simpa [spellEntries, spell, hquotes] using hrest

end

/-! ### The whole document -/

theorem runs_from_mark (rest : List Char) :
    ∃ t, Runs (.ofText (String.ofList ('-' :: '-' :: '-' :: '\n' :: rest))) t ∧
      At t ('\n' :: rest) 3 false [-1] [.documentStart] := by
  let s := Scanner.ofText (String.ofList ('-' :: '-' :: '-' :: '\n' :: rest))
  have hat : At s ([] ++ '-' :: '-' :: '-' :: '\n' :: rest) 0 true [-1] [] :=
    ⟨String.toList_ofList, rfl, rfl, rfl, rfl, rfl, rfl, .none, rfl, rfl⟩
  have hfaces : s.Faces ('-' :: '-' :: '-' :: '\n' :: rest) 0 true [-1] [] :=
    hat.faces nofun (by simp) (starts_cons (by decide)) (by decide)
  have hfront := hfaces.front
  have hch : s.front.ch = '-' := ch_of_rest hfront.rest
  have hindicator : s.front.isIndicator '-' = true := by
    simp [isIndicator, hch, hfront.column, at_, hfront.rest, isGapEnd, isBreakEnd, isBreak]
  have hdispatch : s.front.dispatch = s.front.indicator .documentStart := by
    simp [dispatch, hch, hindicator, isEnd]
  have hclosed : At (s.front.outdent (-1)) ('-' :: '-' :: '-' :: '\n' :: rest) 0 true [-1] [] :=
    At.outdent (show At s.front _ _ _ ([] ++ [-1]) _ from hfront) (fun _ hi => absurd hi List.not_mem_nil)
      (Int.le_refl _)
  obtain ⟨t, ht, hdropped, _⟩ := hclosed.dropKey
  have hskip : skipMany 3 (t.allowKey false) = (t.allowKey false).along ['-', '-', '-'] ('\n' :: rest) :=
    skipMany_of_rest (show (t.allowKey false).rest = ['-', '-', '-'] ++ '\n' :: rest from hdropped.rest) (by decide)
  let u := (skipMany 3 (t.allowKey false)).push .documentStart t.place
  have hu : At u ('\n' :: rest) 3 false [-1] [.documentStart] := by
    simp only [u, hskip]
    exact ⟨rfl, congrArg (· + 3) hdropped.column, rfl, hdropped.stack, congrArg (_ :: ·) hdropped.kinds,
      congrArg (· + 1) hdropped.count, hdropped.calm⟩
  refine ⟨u, hfaces.step (hdispatch.trans ?_) hu (Nat.lt_succ_self _), hu⟩
  simp only [indicator, ht, bind, Except.bind, u]

/-- All tokens are there, and none of them can still become a key. -/
structure Complete (s : Scanner) (kinds : List TokenKind) : Prop where
  ended : s.IsOver
  free : s.Free
  settled : ∀ k ∈ s.keys, k.isPossible = false
  count : s.count = kinds.length
  kinds : s.tokens.map (·.kind) = kinds

theorem complete_of_streamEnd {s : Scanner} {allowed : Bool} {opened : List Int} {kinds : List TokenKind}
    (h : At s [] 0 allowed (opened ++ [-1]) kinds) (inside : ∀ i ∈ opened, -1 < i) :
    ∃ t, s.streamEnd = .ok t ∧
      Complete t (.streamEnd :: (List.replicate opened.length .blockEnd ++ kinds)) := by
  obtain ⟨t, ht, hdropped, hsettled⟩ := (h.outdent inside (Int.le_refl _)).dropKey
  refine ⟨(t.allowKey false).push .streamEnd t.place, ?_, ⟨_, _, rfl⟩, hdropped.calm.free, hsettled,
    congrArg (· + 1) hdropped.length, congrArg (_ :: ·) hdropped.kinds⟩
  rw [streamEnd, if_pos h.column]
  simp only [ht, bind, Except.bind]

/-- The end of the text closes what is still open. -/
theorem runs_to_end {s : Scanner} {kinds : List TokenKind} (h : Left s ['\n'] (0 : Nat) [-1] kinds) :
    ∃ t, Runs s t ∧ Complete t (.streamEnd :: .blockEnd :: kinds) := by
  have hfaces : s.Faces [] 0 true ([((0 : Nat) : Int)] ++ [-1]) kinds :=
    Left.faces (show Left s ('\n' :: ([] ++ [])) (0 : Nat) [-1] kinds from h) (by simp) nofun rfl
  have hch : s.front.ch = '\x00' := by simp [ch, at_, hfaces.front.rest]
  have hdispatch : s.front.dispatch = s.front.streamEnd := by simp [dispatch, hch, isEnd]
  obtain ⟨t, ht, complete⟩ := complete_of_streamEnd hfaces.front (by simp)
  refine ⟨t, hfaces.run (hdispatch.trans ht) ?_, complete⟩
  rw [complete.count]
  exact Nat.lt_succ_of_lt (Nat.lt_succ_self _)

/-! ### How many tokens -/

theorem length_textChars_pos (t : String) : 0 < (textChars t).length := by
  unfold textChars
  cases hquotes : needsQuotes t with
  | true => simp
  | false =>
    obtain ⟨c, cs, heq, _⟩ := (bare_of_needsQuotes hquotes).head
    simp [heq]

mutual

/-- No more than four tokens come from one character. -/
theorem length_spell : ∀ d : Datum, Tidy d → ∀ (seat : Seat) (level : Nat),
    (spell d).length ≤ 4 * (chars seat level d).length
  | .null, _ => fun seat _ => by cases seat <;> simp [spell, chars, Seat.gap]
  | .boolean b, _ => fun seat _ => by cases seat <;> cases b <;> simp [spell, chars, Seat.gap]
  | .integer i, tidy => fun seat level => by
    obtain ⟨n, rfl⟩ := Int.eq_ofNat_of_zero_le tidy.1
    have hdigits : 0 < (Nat.toDigits 10 n).length := Nat.length_toDigits_pos
    rw [spell, chars, show (toString (n : Int)).toList = _ from toList_natural n]
    simp only [List.length_append, List.length_singleton]
    omega
  | .real _, tidy => tidy.elim
  | .text t, _ => fun seat level => by
    have htext := length_textChars_pos t
    rw [spell, chars, List.length_singleton, List.length_append]
    omega
  | .list [], _ => fun seat _ => by cases seat <;> simp [spell, chars, Seat.gap]
  | .list (d :: ds), ⟨hd, hds⟩ => fun seat level => by
    have hfirst := length_spell d hd .here (seat.inner level + 1)
    have hrest := length_spellItems ds hds (seat.inner level)
    simp only [spell, chars, List.length_cons, List.length_append, List.length_nil]
    omega
  | .map [], tidy => absurd rfl tidy.1
  | .map ((k, v) :: es), ⟨_, ⟨⟨name, hk, hquotes, _⟩, hv, hes⟩⟩ => fun seat level => by
    obtain rfl := hk
    have hname := length_textChars_pos name
    have hfirst := length_spell v hv .afterKey (seat.inner level)
    have hrest := length_spellEntries es hes (seat.inner level)
    simp only [spell, chars, List.length_cons, List.length_append, List.length_nil]
    omega

theorem length_spellItems : ∀ ds : List Datum, TidyItems ds → ∀ level : Nat,
    (spellItems ds).length ≤ 4 * (itemsChars level ds).length
  | [], _ => fun _ => Nat.zero_le _
  | d :: ds, ⟨hd, hds⟩ => fun level => by
    have hfirst := length_spell d hd .here (level + 1)
    have hrest := length_spellItems ds hds level
    simp only [spellItems, itemsChars, List.length_cons, List.length_append, List.length_nil]
    omega

theorem length_spellEntries : ∀ es : List (Datum × Datum), TidyEntries es → ∀ level : Nat,
    (spellEntries es).length ≤ 4 * (entriesChars level es).length
  | [], _ => fun _ => Nat.zero_le _
  | (k, v) :: es, ⟨⟨name, hk, hquotes, _⟩, hv, hes⟩ => fun level => by
    obtain rfl := hk
    have hname := length_textChars_pos name
    have hfirst := length_spell v hv .afterKey level
    have hrest := length_spellEntries es hes level
    simp only [spellEntries, spell, entriesChars, chars, List.length_cons, List.length_append, List.length_nil]
    omega

end

theorem length_write (d : Datum) : (write d).length = (chars .here 0 d).length + 5 := by
  have hmark : "---\n".toList = ['-', '-', '-', '\n'] := rfl
  unfold write
  rw [String.length_ofList, hmark]
  simp

/-- **The tokens of a map that was written** are those that spell it, in a document of its own. -/
theorem tokens_write {es : List (Datum × Datum)} (tidy : Tidy (.map es)) :
    (tokens (write (.map es))).map (·.kind) = .documentStart :: spell (.map es) ++ [.streamEnd] := by
  have hlength := length_spell (.map es) tidy .here 0
  rcases es with _ | ⟨⟨k, v⟩, es⟩
  · exact absurd rfl tidy.1
  obtain ⟨_, ⟨name, rfl, hquotes, short⟩, hv, hes⟩ := tidy
  have hkey : chars .here 0 (.text name) = name.toList := chars_of_key hquotes 0
  let text := name.toList ++ ':' :: (chars .afterKey 0 v ++ (entriesChars 0 es ++ ['\n']))
  have hwrite : write (.map ((.text name, v) :: es)) = String.ofList ('-' :: '-' :: '-' :: '\n' :: text) := by
    have hmark : "---\n".toList = ['-', '-', '-', '\n'] := rfl
    unfold write
    rw [chars, Seat.opening, Seat.inner, hkey, hmark]
    simp only [text, List.append_assoc, List.cons_append, List.nil_append]
  have hline : Line ((2 * 0 : Nat) : Int) ['\n'] := ⟨[], [], rfl, by simp, nofun, Int.le_refl _⟩
  obtain ⟨t₁, h₁, hmark⟩ := runs_from_mark text
  have hfaces : t₁.Faces text 0 true [-1] [.documentStart] :=
    At.faces_line (show At t₁ ('\n' :: ([] ++ text)) _ _ _ _ from hmark) nofun (by simp)
      ((bare_of_needsQuotes hquotes).starts _) (by decide)
  obtain ⟨t₂, h₂, hfirst⟩ := left_of_entry hquotes short (taken_of_tidy v hv) hv hfaces (by decide)
    (if_pos (by decide)) (line_entries hline hes)
  obtain ⟨t₃, h₃, hrest⟩ := left_of_entries es hes hfirst hline
  obtain ⟨t, h₄, complete⟩ := runs_to_end hrest
  have hruns := ((h₁.trans h₂).trans h₃).trans h₄
  rw [← hwrite] at hruns
  rw [if_pos (by decide)] at complete
  have hcount : t.count = (spell (.map ((.text name, v) :: es))).length + 2 := by
    rw [complete.count]
    simp [spell, hquotes]
    omega
  have henough : t.count - 0 + (t.count - 0) < 8 * (write (.map ((.text name, v) :: es))).length + 16 := by
    rw [length_write]
    omega
  obtain ⟨u, hu, htokens⟩ := giveOut_of_runs hruns complete.ended complete.free complete.settled
    (Nat.le_refl 0) henough (.refl _)
  have hall : tokens (write (.map ((.text name, v) :: es))) = t.tokens.reverse := by
    unfold tokens
    rw [hu]
    exact congrArg List.reverse htokens
  rw [hall, List.map_reverse, complete.kinds]
  simp [spell, hquotes]

end FleetJobs.Yaml
