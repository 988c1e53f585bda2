import FleetJobs.Files.Document
import Mathlib.Data.List.Basic
import Mathlib.Data.String.Basic

/-! Files that are saved.

A file is put where its path leads to one, or to a place for one (`Directory.Leads`), and
nothing that is done to files turns a directory into one or the other way round
(`Directory.SameDirectories`), so that a path leads where it did before. A text is saved at a
path exactly if both the path and its draft lead somewhere (`run_save_iff`). Then it is read
there, and whatever is saved there next takes its place (`read_of_saved`, `saved_again`). -/
namespace FleetJobs.Files

/-! ### Programs one after the other -/

namespace FileProgram

variable {α β : Type}

/-- A program followed by another runs as the first and then as the second. -/
theorem run_bind_eq_some {p : FileProgram α} {f : α → FileProgram β} {d : Directory}
    {r : β × Directory} :
    (p >>= f).run d = some r ↔ ∃ a d₁, p.run d = some (a, d₁) ∧ (f a).run d₁ = some r := by
  show (p.bind f).run d = some r ↔ _
  induction p generalizing d with
  | done a => simp [bind, run]
  | perform o next ih =>
    simp only [bind, run]
    split
    · exact ih _
    · simp

theorem run_operate {o : Operation} {d : Directory} {r : o.Answer × Directory} :
    (operate o).run d = some r ↔ d.perform o = some r := by
  simp only [operate, run]
  rcases d.perform o with _ | ⟨a, d'⟩ <;> rfl

end FileProgram

namespace Directory

variable {d d' : Directory} {path : String} {names names' : List String} {e : Entry}

/-! ### What is found where -/

theorem lookup_without (entries : List (List String × Entry)) (names names' : List String) :
    (entries.filter fun x => x.1 != names).lookup names' =
      if names' = names then none else entries.lookup names' := by
  induction entries with
  | nil => simp
  | cons x entries ih =>
    obtain ⟨own, e⟩ := x
    by_cases hown : own = names
    · have hgone : ((own, e) :: entries).filter (fun x => x.1 != names) =
          entries.filter fun x => x.1 != names := List.filter_cons_of_neg (by simpa using hown)
      rw [hgone, ih]
      split
      · rfl
      · rename_i hne
        have hother : (names' == own) = false := by simpa [hown] using hne
        rw [List.lookup_cons, hother]
    · have hstays : ((own, e) :: entries).filter (fun x => x.1 != names) =
          (own, e) :: entries.filter fun x => x.1 != names := List.filter_cons_of_pos (by simpa using hown)
      rw [hstays, List.lookup_cons, List.lookup_cons, ih]
      by_cases hfound : names' = own
      · subst hfound
        simp [hown]
      · have hother : (names' == own) = false := by simpa using hfound
        simp only [hother]

/-- Only what has an entry of its own can be put anywhere or dropped. -/
theorem not_isAtOrAbove (h : d.find? names ≠ some .directory) : isAtOrAbove names = false := by
  by_contra hat
  exact h (if_pos (by simpa using hat))

theorem find?_put (h : isAtOrAbove names = false) (d : Directory) (e : Entry) (names' : List String) :
    (d.put names e).find? names' = if names' = names then some e else d.find? names' := by
  unfold find? put
  by_cases heq : names' = names
  · subst heq
    simp [h]
  · have hother : (names' == names) = false := by simpa using heq
    simp only [List.lookup_cons, hother, lookup_without, heq, if_false]

theorem find?_drop (h : isAtOrAbove names = false) (d : Directory) (names' : List String) :
    (d.drop names).find? names' = if names' = names then none else d.find? names' := by
  unfold find? drop
  by_cases heq : names' = names
  · subst heq
    simp [h, lookup_without]
  · simp only [lookup_without, heq, if_false]

/-! ### Paths that lead where they led -/

/-- What is a directory in the one tree is one in the other. -/
def SameDirectories (d d' : Directory) : Prop :=
  ∀ names, d'.find? names = some .directory ↔ d.find? names = some .directory

theorem SameDirectories.trans {d'' : Directory} (h : d.SameDirectories d') (h' : d'.SameDirectories d'') :
    d.SameDirectories d'' := fun names => (h' names).trans (h names)

theorem SameDirectories.symm (h : d.SameDirectories d') : d'.SameDirectories d := fun names => (h names).symm

theorem same_put (h : d.find? names ≠ some .directory) (content : ByteArray) :
    d.SameDirectories (d.put names (.file content)) := by
  intro names'
  rw [find?_put (not_isAtOrAbove h)]
  split
  · rename_i heq
    subst heq
    simpa using h
  · rfl

theorem same_drop (h : d.find? names ≠ some .directory) : d.SameDirectories (d.drop names) := by
  intro names'
  rw [find?_drop (not_isAtOrAbove h)]
  split
  · rename_i heq
    subst heq
    simpa using h
  · rfl

/-- The name is that of an entry, not one of the points that stand for directories. -/
structure IsEntryName (name : String) : Prop where
  notHere : name ≠ "."
  notAround : name ≠ ".."
  short : name.utf8ByteSize ≤ nameLimit

/-- **One name of a walk that arrives**: the directory itself, the one around it, the entry that the
walk ends with, or a directory to go on from. -/
theorem walk_cons_iff {slash : Bool} {base rest : List String} {name : String} {s : Spot} :
    d.walk slash base (name :: rest) = .ok s ↔
      name = "." ∧ d.walk slash base rest = .ok s ∨
      name = ".." ∧ d.walk slash (around base) rest = .ok s ∨
      IsEntryName name ∧ rest = [] ∧ s = ⟨base ++ [name], true, slash⟩ ∨
      IsEntryName name ∧ rest ≠ [] ∧ d.find? (base ++ [name]) = some .directory ∧
        d.walk slash (base ++ [name]) rest = .ok s := by
  rw [walk]
  by_cases hdot : name = "."
  · have hno : ¬ IsEntryName name := fun h => h.notHere hdot
    subst hdot
    simp [hno]
  by_cases hup : name = ".."
  · have hno : ¬ IsEntryName name := fun h => h.notAround hup
    subst hup
    simp [hno]
  rw [if_neg hdot, if_neg hup]
  by_cases hlong : nameLimit < name.utf8ByteSize
  · have hno : ¬ IsEntryName name := fun h => Nat.not_lt.mpr h.short hlong
    simp [hdot, hup, hlong, hno]
  have hname : IsEntryName name := ⟨hdot, hup, Nat.not_lt.mp hlong⟩
  cases rest with
  | nil => simp [hdot, hup, hlong, hname, eq_comm]
  | cons next rest =>
    rcases d.find? (base ++ [name]) with _ | content | _ <;> simp [hdot, hup, hlong, hname]

theorem walk_of_same (h : d.SameDirectories d') {slash : Bool} {base names : List String} {s : Spot}
    (hs : d.walk slash base names = .ok s) : d'.walk slash base names = .ok s := by
  induction names generalizing base with
  | nil => exact hs
  | cons name rest ih =>
    rw [walk_cons_iff] at hs ⊢
    rcases hs with ⟨hdot, hs⟩ | ⟨hup, hs⟩ | hlast | ⟨hname, more, hdirectory, hs⟩
    · exact .inl ⟨hdot, ih hs⟩
    · exact .inr (.inl ⟨hup, ih hs⟩)
    · exact .inr (.inr (.inl hlast))
    · exact .inr (.inr (.inr ⟨hname, more, (h _).mpr hdirectory, ih hs⟩))

theorem resolve_of_same (h : d.SameDirectories d') {s : Spot} (hs : d.resolve path = .ok s) :
    d'.resolve path = .ok s := by
  unfold resolve at hs ⊢
  by_cases hnul : path.toList.contains '\x00' = true
  · rw [if_pos hnul] at hs
    cases hs
  rw [if_neg hnul] at hs ⊢
  by_cases hempty : path.isEmpty = true
  · rw [if_pos hempty] at hs
    cases hs
  rw [if_neg hempty] at hs ⊢
  by_cases hlong : pathLimit < path.utf8ByteSize
  · rw [if_pos hlong] at hs
    cases hs
  rw [if_neg hlong] at hs ⊢
  exact walk_of_same h hs

/-- The path leads to a file of these names, or to a place for one. -/
structure Leads (d : Directory) (path : String) (names : List String) : Prop where
  resolved : d.resolve path = .ok ⟨names, true, false⟩
  free : d.find? names ≠ some .directory

theorem Leads.of_same (h : d.Leads path names) (same : d.SameDirectories d') : d'.Leads path names :=
  ⟨resolve_of_same same h.resolved, fun hd => h.free ((same names).mp hd)⟩

theorem Leads.find?_put (h : d.Leads path names) (d' : Directory) (e : Entry) :
    (d'.put names e).find? names = some e := by
  rw [Directory.find?_put (not_isAtOrAbove h.free), if_pos rfl]

/-! ### The names of a path -/

/-- What a text is split into at its slashes, the first piece behind `word`. -/
def pieces (word : List Char) : List Char → List String
  | [] => [String.ofList word]
  | c :: rest => if c = '/' then String.ofList word :: pieces [] rest else pieces (word ++ [c]) rest

theorem extract_word (before word after : List Char) :
    String.Pos.Raw.extract (String.ofList (before ++ word ++ after)) ⟨String.utf8Len before⟩
      ⟨String.utf8Len (before ++ word)⟩ = String.ofList word := by
  rw [String.utf8Len_append]
  exact String.extract_of_valid before word after

/-- The split on its way: `before` is done with, `word` is the piece that is being read. -/
theorem splitOnAux_eq (before word after : List Char) (r : List String) :
    (String.ofList (before ++ word ++ after)).splitOnAux "/" ⟨String.utf8Len before⟩
        ⟨String.utf8Len (before ++ word)⟩ 0 r = r.reverse ++ pieces word after := by
  induction after generalizing before word r with
  | nil =>
    have hend := (String.atEnd_of_valid (before ++ word) []).mpr rfl
    rw [String.splitOnAux, if_pos hend, extract_word]
    exact List.reverse_cons
  | cons c after ih =>
    have hend : ¬ String.Pos.Raw.atEnd (String.ofList (before ++ word ++ c :: after))
        ⟨String.utf8Len (before ++ word)⟩ = true := by
      rw [String.atEnd_of_valid]
      exact List.cons_ne_nil _ _
    have hget : String.Pos.Raw.get (String.ofList (before ++ word ++ c :: after))
        ⟨String.utf8Len (before ++ word)⟩ = c := String.get_of_valid _ _
    rw [String.splitOnAux, if_neg hend, hget]
    by_cases hc : c = '/'
    · subst hc
      have hmark : ('/' == String.Pos.Raw.get "/" 0) = true := rfl
      have hwhole : String.Pos.Raw.atEnd "/" (String.Pos.Raw.next "/" 0) = true := rfl
      have hstart : (String.Pos.Raw.mk (String.utf8Len (before ++ word) + '/'.utf8Size)).unoffsetBy
          (String.Pos.Raw.next "/" 0) = ⟨String.utf8Len (before ++ word)⟩ := rfl
      have hrest := ih (before ++ word ++ ['/']) [] (String.ofList word :: r)
      rw [if_pos hmark, String.next_of_valid]
      dsimp only
      rw [if_pos hwhole, hstart, extract_word, pieces, if_pos rfl]
      simpa [Nat.add_assoc] using hrest
    · have hmark : ¬ (c == String.Pos.Raw.get "/" 0) = true := fun h => hc (beq_iff_eq.mp h)
      have hstart : (String.Pos.Raw.mk (String.utf8Len (before ++ word))).unoffsetBy 0 =
        ⟨String.utf8Len (before ++ word)⟩ := rfl
      have hrest := ih before (word ++ [c]) r
      rw [if_neg hmark, hstart, String.next_of_valid, pieces, if_neg hc]
      simpa [Nat.add_assoc] using hrest

theorem namesOf_eq (path : String) :
    namesOf path = (pieces [] path.toList).filter fun name => !name.isEmpty := by
  have hsplit := splitOnAux_eq [] [] path.toList []
  unfold namesOf String.splitOn
  rw [if_neg (by decide)]
  simpa using congrArg (List.filter fun name => !name.isEmpty) hsplit

theorem pieces_of_notMem (word : List Char) {after : List Char} (h : '/' ∉ after) :
    pieces word after = [String.ofList (word ++ after)] := by
  induction after generalizing word with
  | nil => rw [List.append_nil]; rfl
  | cons c after ih =>
    obtain ⟨hc, hafter⟩ := List.ne_and_not_mem_of_not_mem_cons h
    rw [pieces, if_neg (Ne.symm hc), ih _ hafter, List.append_assoc]
    rfl

theorem namesOf_of_notMem (nonempty : path ≠ "") (h : '/' ∉ path.toList) :
    namesOf path = [path] := by
  rw [namesOf_eq, pieces_of_notMem [] h]
  simp [nonempty]

/-- A plain name of an entry at the top. -/
def isName (path : String) : Bool :=
  path != "" && path != "." && path != ".." && !path.toList.contains '/' && !path.toList.contains '\x00' &&
    decide (path.utf8ByteSize ≤ nameLimit)

/-- A plain name leads to the entry of that name. -/
theorem resolve_of_isName (h : isName path = true) (d : Directory) :
    d.resolve path = .ok ⟨[path], true, false⟩ := by
  simp only [isName, Bool.and_eq_true, Bool.not_eq_true', bne_iff_ne, decide_eq_true_eq] at h
  obtain ⟨⟨⟨⟨⟨hempty, hdot⟩, hup⟩, hslash⟩, hnul⟩, hlong⟩ := h
  have hslash : '/' ∉ path.toList := by simpa using hslash
  have hfirst : ¬ path.toList.head? = some '/' := fun h => hslash (List.mem_of_head? h)
  have hlast : ¬ path.toList.getLast? = some '/' := fun h => hslash (List.mem_of_getLast? h)
  have hshort : ¬ pathLimit < path.utf8ByteSize := by
    unfold nameLimit at hlong
    unfold pathLimit
    omega
  unfold resolve
  rw [hnul, namesOf_of_notMem hempty hslash]
  simp [walk, hempty, hshort, hdot, hup, hfirst, hlast, Nat.not_lt.mpr hlong]

theorem leads_of_isName (h : isName path = true) (free : d.find? [path] ≠ some .directory) :
    d.Leads path [path] := ⟨resolve_of_isName h d, free⟩

/-! ### Operations -/

theorem read_of_leads (h : d.Leads path names) {content : ByteArray}
    (hfile : d.find? names = some (.file content)) : d.read path = .ok content := by
  simp [read, h.resolved, hfile, bind, Except.bind, pure, Except.pure]

theorem read_of_isName (h : isName path = true) {content : ByteArray}
    (hfile : d.find? [path] = some (.file content)) : d.read path = .ok content :=
  read_of_leads (leads_of_isName h (by simp [hfile])) hfile

theorem create_of_leads (h : d.Leads path names) : d.create path = .ok (d.put names (.file .empty)) := by
  have hfree := h.free
  simp [create, h.resolved, bind, Except.bind, pure, Except.pure]

/-- An operation that works has found where its path leads. -/
theorem exists_spot {α : Type} {f : Spot → Except Fault α} {a : α} (h : d.resolve path >>= f = .ok a) :
    ∃ s, d.resolve path = .ok s ∧ f s = .ok a := by
  cases hs : d.resolve path with
  | error e =>
    rw [hs] at h
    cases h
  | ok s =>
    rw [hs] at h
    exact ⟨s, rfl, h⟩

theorem leads_of_create (h : d.create path = .ok d') : ∃ names, d.Leads path names := by
  obtain ⟨⟨names, isNamed, endsInSlash⟩, hs, h⟩ := exists_spot h
  cases isNamed with
  | false => cases h
  | true =>
    cases endsInSlash with
    | true => cases h
    | false =>
      refine ⟨names, hs, fun hdirectory => ?_⟩
      simp [hdirectory, throw, throwThe, MonadExceptOf.throw] at h

theorem fill_of_leads (h : d.Leads path names) {content : ByteArray}
    (hfile : d.find? names = some (.file content)) (text : String) :
    d.fill path text = .ok (d.put names (.file text.toUTF8)) := by
  simp [fill, h.resolved, hfile, bind, Except.bind, pure, Except.pure]

theorem rename_of_leads {source target : String} {s t : List String} (hs : d.Leads source s)
    (ht : d.Leads target t) {content : ByteArray} (hfile : d.find? s = some (.file content)) :
    d.rename source target = .ok ((d.drop s).put t (.file content)) := by
  have hfree := ht.free
  simp [rename, hs.resolved, ht.resolved, hfile, bind, Except.bind, pure, Except.pure]

theorem remove_of_leads (h : d.Leads path names) {content : ByteArray}
    (hfile : d.find? names = some (.file content)) : d.remove path = .ok (d.drop names) := by
  simp [remove, h.resolved, hfile, bind, Except.bind, pure, Except.pure]

/-- What a renaming that works has found, and what it leaves. -/
theorem rename_eq_ok {source target : String} (h : d.rename source target = .ok d') :
    ∃ s t content, d.resolve source = .ok s ∧ d.Leads target t ∧ d.find? s.names = some (.file content) ∧
      d' = (d.drop s.names).put t (.file content) := by
  obtain ⟨⟨s, sNamed, sSlash⟩, hs, h⟩ := exists_spot h
  obtain ⟨⟨t, tNamed, tSlash⟩, ht, h⟩ := exists_spot h
  rcases hfound : d.find? s with _ | content | _ <;> cases sNamed <;> cases tNamed <;> cases sSlash <;>
      cases tSlash <;>
    simp [bind, Except.bind, hfound, throw, throwThe, MonadExceptOf.throw] at h
  refine ⟨_, t, content, hs, ⟨ht, fun hd => ?_⟩, hfound, ?_⟩
  · simp [hd] at h
  · split at h
    · cases h
    · exact (Except.ok.inj h).symm

/-! ### Saving and loading -/

/-- The tree with a text in a draft of these names. -/
def drafted (d : Directory) (draft : List String) (text : String) : Directory :=
  (d.put draft (.file .empty)).put draft (.file text.toUTF8)

/-- The tree with a text in a file of these names, which was a draft before. -/
def saved (d : Directory) (draft names : List String) (text : String) : Directory :=
  ((d.drafted draft text).drop draft).put names (.file text.toUTF8)

variable {draft : List String}

theorem same_drafted (hdraft : d.find? draft ≠ some .directory) (text : String) :
    d.SameDirectories (d.drafted draft text) := by
  have hcreated := same_put hdraft .empty
  exact hcreated.trans (same_put (fun h => hdraft ((hcreated _).mp h)) text.toUTF8)

theorem same_saved (hdraft : d.find? draft ≠ some .directory) (hnames : d.find? names ≠ some .directory)
    (text : String) : d.SameDirectories (d.saved draft names text) := by
  have hdrafted := same_drafted hdraft text
  have hdropped := hdrafted.trans (same_drop fun h => hdraft ((hdrafted _).mp h))
  exact hdropped.trans (same_put (fun h => hnames ((hdropped _).mp h)) text.toUTF8)

theorem fill_created (hdraft : d.Leads path draft) (text : String) :
    (d.put draft (.file .empty)).fill path text = .ok (d.drafted draft text) :=
  fill_of_leads (hdraft.of_same (same_put hdraft.free .empty)) (hdraft.find?_put d _) text

theorem rename_drafted {target : String} (hdraft : d.Leads path draft) (hnames : d.Leads target names)
    (text : String) : (d.drafted draft text).rename path target = .ok (d.saved draft names text) := by
  have hsame := same_drafted hdraft.free text
  exact rename_of_leads (hdraft.of_same hsame) (hnames.of_same hsame) (hdraft.find?_put _ _)

end Directory

open Directory

variable {d d' : Directory} {path text : String} {draft names : List String}

theorem leads_of_save (h : (save path text).run d = some (.ok (), d')) :
    ∃ draft, d.Leads (draftOf path) draft := by
  obtain ⟨f | _, d₁, hcreate, h⟩ := FileProgram.run_bind_eq_some.mp h
  · cases h
  have hcreate := FileProgram.run_operate.mp hcreate
  cases hcreated : d.create (draftOf path) with
  | error f =>
    simp only [perform, hcreated, changed] at hcreate
    cases hcreate
  | ok d₁ => exact leads_of_create hcreated

/-- Once the draft is written, it takes the place of the file or is left where it is. -/
theorem run_save_of_draft (hdraft : d.Leads (draftOf path) draft) (text : String) :
    (save path text).run d =
      match (d.drafted draft text).rename (draftOf path) path with
      | .ok d' => some (.ok (), d')
      | .error f => some (.error (.io path f), d.drafted draft text) := by
  simp only [save, bind, FileProgram.bind, operate, FileProgram.run, perform, create_of_leads hdraft, changed,
    fill_created hdraft]
  cases (d.drafted draft text).rename (draftOf path) path <;> rfl

theorem run_save_of_leads (hdraft : d.Leads (draftOf path) draft) (hnames : d.Leads path names) (text : String) :
    (save path text).run d = some (.ok (), d.saved draft names text) := by
  rw [run_save_of_draft hdraft, rename_drafted hdraft hnames]

/-- **A text is saved exactly if the path and its draft lead to places for files.** -/
theorem run_save_iff :
    (save path text).run d = some (.ok (), d') ↔ ∃ draft names, d.Leads (draftOf path) draft ∧
      d.Leads path names ∧ d' = d.saved draft names text := by
  constructor
  · intro h
    obtain ⟨draft, hdraft⟩ := leads_of_save h
    have hrun := run_save_of_draft hdraft text
    cases hrename : (d.drafted draft text).rename (draftOf path) path with
    | error f =>
      rw [h, hrename] at hrun
      cases hrun
    | ok d₁ =>
      obtain ⟨_, names, _, _, hnames, _⟩ := rename_eq_ok hrename
      have hnames := hnames.of_same (same_drafted hdraft.free text).symm
      rw [run_save_of_leads hdraft hnames] at h
      cases h
      exact ⟨draft, names, hdraft, hnames, rfl⟩
  · rintro ⟨draft, names, hdraft, hnames, rfl⟩
    exact run_save_of_leads hdraft hnames text

/-- **What was saved is read.** -/
theorem read_of_saved (h : (save path text).run d = some (.ok (), d')) : d'.read path = .ok text.toUTF8 := by
  obtain ⟨draft, names, hdraft, hnames, rfl⟩ := run_save_iff.mp h
  exact read_of_leads (hnames.of_same (same_saved hdraft.free hnames.free text)) (hnames.find?_put _ _)

/-- Where a text was saved, another can be. -/
theorem saved_again (h : (save path text).run d = some (.ok (), d')) (text' : String) :
    ∃ d'', (save path text').run d' = some (.ok (), d'') := by
  obtain ⟨draft, names, hdraft, hnames, rfl⟩ := run_save_iff.mp h
  have hsame := same_saved hdraft.free hnames.free text
  exact ⟨_, run_save_of_leads (hdraft.of_same hsame) (hnames.of_same hsame) text'⟩

/-- A text is what its bytes are read as. -/
theorem decode_toUTF8 (r : Data.Reader α) (text : String) :
    decode r text.toUTF8 = (Yaml.read r text).mapError .yaml := by
  have htext : String.fromUTF8? text.toUTF8 = some text := dif_pos text.isValidUTF8
  simp only [decode, htext]

theorem run_loadAs {content : ByteArray} (r : Data.Reader α) (h : d.read path = .ok content) :
    (loadAs r path).run d = some ((decode r content).mapError (.content path), d) := by
  simp only [loadAs, bind, FileProgram.bind, operate, FileProgram.run, perform, h]
  rfl

end FleetJobs.Files
