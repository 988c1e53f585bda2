import FleetJobs.Files.Lock
import FleetJobs.Proofs.SavedFiles

/-! Where a file's lock and draft are.

The path of a lock or a draft is that of the file with a few letters behind it. So the two lie
side by side in one directory, and neither is the file, whatever the path looks like and
wherever it leads (`Directory.apart_lock_draft`, `Directory.apart_lock`,
`Directory.apart_draft`). -/
namespace FleetJobs.Files.Directory

variable {d d' : Directory} {path : String}

/-! ### The names of a longer path -/

/-- The path is made of these names and perhaps a last one, which grows with the path. -/
structure Parts (path : String) (init : List String) (last : String) : Prop where
  own : namesOf path = init ++ if last = "" then [] else [last]
  grown : ∀ x : String, x ≠ "" → '/' ∉ x.toList → namesOf (path ++ x) = init ++ [last ++ x]

theorem pieces_append (word after : List Char) :
    ∃ init last, pieces word after = init ++ [last] ∧
      ∀ x, '/' ∉ x → pieces word (after ++ x) = init ++ [last ++ String.ofList x] := by
  induction after generalizing word with
  | nil =>
    refine ⟨[], String.ofList word, rfl, fun x hx => ?_⟩
    rw [List.nil_append, pieces_of_notMem word hx, String.ofList_append]
    rfl
  | cons c after ih =>
    by_cases hc : c = '/'
    · obtain ⟨init, last, hown, hgrown⟩ := ih []
      refine ⟨String.ofList word :: init, last, ?_, fun x hx => ?_⟩
      · rw [pieces, if_pos hc, hown]
        rfl
      · rw [List.cons_append, pieces, if_pos hc, hgrown x hx]
        rfl
    · obtain ⟨init, last, hown, hgrown⟩ := ih (word ++ [c])
      refine ⟨init, last, ?_, fun x hx => ?_⟩
      · rw [pieces, if_neg hc, hown]
      · rw [List.cons_append, pieces, if_neg hc, hgrown x hx]

theorem exists_parts (path : String) : ∃ init last, Parts path init last := by
  obtain ⟨init, last, hown, hgrown⟩ := pieces_append [] path.toList
  refine ⟨init.filter fun name => !name.isEmpty, last, ?_, fun x nonempty hx => ?_⟩
  · rw [namesOf_eq, hown, List.filter_append]
    by_cases hlast : last = "" <;> simp [hlast]
  · have hsplit := hgrown x.toList hx
    rw [String.ofList_toList] at hsplit
    rw [namesOf_eq, String.toList_append, hsplit, List.filter_append,
      List.filter_cons_of_pos (by simp [nonempty])]
    rfl

/-! ### Walking to the last name -/

/-- The directory that names lead to, if each of them is that of a directory. -/
def follow (d : Directory) : List String → List String → Option (List String)
  | base, [] => some base
  | base, name :: rest =>
    if name = "." then d.follow base rest
    else if name = ".." then d.follow (around base) rest
    else if nameLimit < name.utf8ByteSize then none
    else
      match d.find? (base ++ [name]) with
      | some .directory => d.follow (base ++ [name]) rest
      | _ => none

theorem follow_entry {base rest : List String} {name : String} (hname : IsEntryName name)
    (hdirectory : d.find? (base ++ [name]) = some .directory) :
    d.follow base (name :: rest) = d.follow (base ++ [name]) rest := by
  rw [follow, if_neg hname.notHere, if_neg hname.notAround, if_neg (Nat.not_lt.mpr hname.short),
    hdirectory]

/-- All names before the last are those of directories. -/
theorem walk_concat {slash : Bool} {base init : List String} {last : String} {s : Spot}
    (h : d.walk slash base (init ++ [last]) = .ok s) :
    ∃ inner, d.follow base init = some inner ∧ d.walk slash inner [last] = .ok s := by
  induction init generalizing base with
  | nil => exact ⟨base, rfl, h⟩
  | cons name init ih =>
    rcases walk_cons_iff.mp h with
      ⟨rfl, h⟩ | ⟨rfl, h⟩ | ⟨_, hend, _⟩ | ⟨hname, _, hdirectory, h⟩
    · exact ih h
    · exact ih h
    · exact absurd hend (List.append_ne_nil_of_right_ne_nil init (List.cons_ne_nil last []))
    · rw [follow_entry hname hdirectory]
      exact ih h

/-- A path of directories leads to the last of them. -/
theorem names_of_follow {slash : Bool} {base names inner : List String} {s : Spot}
    (hinner : d.follow base names = some inner) (h : d.walk slash base names = .ok s) :
    s.names = inner := by
  induction names generalizing base with
  | nil =>
    cases hinner
    cases h
    rfl
  | cons name rest ih =>
    rcases walk_cons_iff.mp h with
      ⟨rfl, h⟩ | ⟨rfl, h⟩ | ⟨hname, rfl, rfl⟩ | ⟨hname, _, hdirectory, h⟩
    · exact ih hinner h
    · exact ih hinner h
    · rw [follow, if_neg hname.notHere, if_neg hname.notAround,
        if_neg (Nat.not_lt.mpr hname.short)] at hinner
      split at hinner
      · exact Option.some.inj hinner
      · cases hinner
    · rw [follow_entry hname hdirectory] at hinner
      exact ih hinner h

/-- The one name goes to the directory itself, to the one around it or to an entry in it. -/
theorem names_of_walk_singleton {slash : Bool} {base : List String} {name : String} {s : Spot}
    (h : d.walk slash base [name] = .ok s) :
    s.names = base ∨ s.names = around base ∨ s.names = base ++ [name] := by
  rcases walk_cons_iff.mp h with ⟨_, h⟩ | ⟨_, h⟩ | ⟨_, _, rfl⟩ | ⟨_, more, _⟩
  · cases h
    exact .inl rfl
  · cases h
    exact .inr (.inl rfl)
  · exact .inr (.inr rfl)
  · exact absurd rfl more

theorem around_ne (base : List String) {name : String} (h : name ≠ "..") :
    around base ≠ base ++ [name] := by
  intro heq
  have hlength : (base ++ [name]).length = base.length + 1 := List.length_append
  unfold around at heq
  split at heq
  · rw [← heq] at hlength
    omega
  split at heq
  · exact h (List.singleton_inj.mp (List.append_cancel_left heq)).symm
  · rw [← heq, List.length_dropLast] at hlength
    omega

/-! ### Paths that lead to different places -/

/-- The two paths never lead to the same place. -/
def Apart (d : Directory) (p q : String) : Prop :=
  ∀ s t, d.resolve p = .ok s → d.resolve q = .ok t → s.names ≠ t.names

theorem Apart.symm {p q : String} (h : d.Apart p q) : d.Apart q p :=
  fun s t hs ht heq => h t s ht hs heq.symm

/-- Plain names lead to different places unless they are the same. -/
theorem apart_of_isName {p q : String} (hp : isName p = true) (hq : isName q = true) (hne : p ≠ q) :
    d.Apart p q := by
  intro s t hs ht heq
  rw [resolve_of_isName hp] at hs
  rw [resolve_of_isName hq] at ht
  cases hs
  cases ht
  exact hne (List.singleton_inj.mp heq)

/-- What is put behind the path of a file to name another beside it. -/
def isSuffix (x : String) : Bool := decide (2 < x.length) && !x.toList.contains '/'

/-- Where the names of a path are followed from. -/
def origin (path : String) : List String := if path.toList.head? = some '/' then ["/"] else []

theorem walk_of_resolve {s : Spot} (h : d.resolve path = .ok s) :
    d.walk (path.toList.getLast? == some '/') (origin path) (namesOf path) = .ok s := by
  unfold resolve at h
  split at h
  · cases h
  split at h
  · cases h
  split at h
  · cases h
  exact h

section

variable {x y : String}

theorem origin_append (hx : '/' ∉ x.toList) : origin (path ++ x) = origin path := by
  have hfirst : (path ++ x).toList.head? = some '/' ↔ path.toList.head? = some '/' := by
    rw [String.toList_append]
    cases path.toList with
    | nil => exact ⟨fun h => absurd (List.mem_of_head? h) hx, nofun⟩
    | cons c rest => rfl
  simp only [origin, hfirst]

theorem isSuffix_iff : isSuffix x = true ↔ 2 < x.length ∧ '/' ∉ x.toList := by
  simp [isSuffix]

/-- No name with a suffix is one of the points that stand for directories. -/
theorem append_ne_of_isSuffix (hx : isSuffix x = true) (last : String) {name : String}
    (short : name.length ≤ 2) : last ++ x ≠ name := by
  rintro rfl
  have hlength : (last ++ x).length = last.length + x.length := String.length_append _ _
  have hlong := (isSuffix_iff.mp hx).1
  omega

/-- A path that grows by a suffix leads to a named entry beside the file. -/
theorem spot_of_suffix {init : List String} {last : String} (hparts : Parts path init last)
    (hx : isSuffix x = true) {s : Spot} (h : d.resolve (path ++ x) = .ok s) :
    ∃ inner, d.follow (origin path) init = some inner ∧ s = ⟨inner ++ [last ++ x], true, false⟩ := by
  obtain ⟨hlong, hslash⟩ := isSuffix_iff.mp hx
  have nonempty : x ≠ "" := by
    rintro rfl
    exact absurd hlong (by decide)
  have hchars : x.toList ≠ [] := fun h => nonempty (String.toList_eq_nil_iff.mp h)
  have hend : ((path ++ x).toList.getLast? == some '/') = false := by
    rw [String.toList_append, List.getLast?_append_of_ne_nil _ hchars]
    exact beq_false_of_ne fun h => hslash (List.mem_of_getLast? h)
  have hwalk := walk_of_resolve h
  rw [origin_append hslash, hparts.grown x nonempty hslash, hend] at hwalk
  obtain ⟨inner, hinner, hentry⟩ := walk_concat hwalk
  refine ⟨inner, hinner, ?_⟩
  rcases walk_cons_iff.mp hentry with ⟨hdot, _⟩ | ⟨hup, _⟩ | ⟨_, _, hspot⟩ | ⟨_, more, _⟩
  · exact absurd hdot (append_ne_of_isSuffix hx last (by decide))
  · exact absurd hup (append_ne_of_isSuffix hx last (by decide))
  · exact hspot
  · exact absurd rfl more

/-- Two suffixes lead to two places. -/
theorem apart_suffixes (path : String) (hx : isSuffix x = true) (hy : isSuffix y = true) (hne : x ≠ y) :
    d.Apart (path ++ x) (path ++ y) := by
  intro s t hs ht heq
  obtain ⟨init, last, hparts⟩ := exists_parts path
  obtain ⟨inner, hinner, rfl⟩ := spot_of_suffix hparts hx hs
  obtain ⟨inner', hinner', rfl⟩ := spot_of_suffix hparts hy ht
  obtain rfl : inner = inner' := Option.some.inj (hinner.symm.trans hinner')
  have hlast := List.singleton_inj.mp (List.append_cancel_left heq)
  exact hne (by simpa using hlast)

/-- No suffix leads to where the path itself leads. -/
theorem apart_suffix (path : String) (hx : isSuffix x = true) : d.Apart (path ++ x) path := by
  intro s t hs ht heq
  obtain ⟨init, last, hparts⟩ := exists_parts path
  obtain ⟨inner, hinner, rfl⟩ := spot_of_suffix hparts hx hs
  have heq : t.names = inner ++ [last ++ x] := heq.symm
  have hne : inner ≠ inner ++ [last ++ x] := fun h => nomatch List.self_eq_append_right.mp h
  have hwalk := walk_of_resolve ht
  rw [hparts.own] at hwalk
  by_cases hlast : last = ""
  · rw [if_pos hlast, List.append_nil] at hwalk
    exact hne ((names_of_follow hinner hwalk).symm.trans heq)
  · rw [if_neg hlast] at hwalk
    obtain ⟨inner', hinner', hentry⟩ := walk_concat hwalk
    obtain rfl : inner = inner' := Option.some.inj (hinner.symm.trans hinner')
    rcases names_of_walk_singleton hentry with hbase | haround | hname
    · exact hne (hbase.symm.trans heq)
    · exact around_ne inner (append_ne_of_isSuffix hx last (by decide)) (haround.symm.trans heq)
    · have hsame : last = last ++ x :=
        List.singleton_inj.mp (List.append_cancel_left (hname.symm.trans heq))
      have hlength : (last ++ x).length = last.length + x.length := String.length_append _ _
      have hlong := (isSuffix_iff.mp hx).1
      rw [← hsame] at hlength
      omega

end

theorem apart_lock_draft (d : Directory) (path : String) : d.Apart (lockOf path) (draftOf path) :=
  apart_suffixes path (by decide) (by decide) (by decide)

theorem apart_lock (d : Directory) (path : String) : d.Apart (lockOf path) path :=
  apart_suffix path (by decide)

theorem apart_draft (d : Directory) (path : String) : d.Apart (draftOf path) path :=
  apart_suffix path (by decide)

end FleetJobs.Files.Directory
