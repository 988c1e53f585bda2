import FleetJobs.Proofs.Readback
import FleetJobs.Yaml.Token
import FleetJobs.Yaml.Write
import Mathlib

/-! Texts as they are written, with quotes and without, on their way through the scanner. -/
namespace FleetJobs.Yaml

open FleetJobs.Data

/-- A character of a word that needs no quotes. -/
def IsSolid (c : Char) : Prop := c ≠ ' ' ∧ isIndicatorChar c = false

/-- Words with blanks between them. -/
inductive Words : List Char → Prop
  | one {w : List Char} (nonempty : w ≠ []) (solid : ∀ c ∈ w, IsSolid c) : Words w
  | more {w gap ws : List Char} (nonempty : w ≠ []) (solid : ∀ c ∈ w, IsSolid c)
    (apart : gap ≠ []) (blank : ∀ c ∈ gap, c = ' ') (rest : Words ws) : Words (w ++ (gap ++ ws))

theorem Words.head {cs : List Char} (h : Words cs) : ∃ c ds, cs = c :: ds ∧ IsSolid c := by
  cases h with
  | @one w nonempty solid =>
    obtain ⟨c, ds, rfl⟩ := List.exists_cons_of_ne_nil nonempty
    exact ⟨c, ds, rfl, solid c List.mem_cons_self⟩
  | @more w gap ws nonempty solid _ _ _ =>
    obtain ⟨c, ds, rfl⟩ := List.exists_cons_of_ne_nil nonempty
    exact ⟨c, ds ++ (gap ++ ws), rfl, solid c List.mem_cons_self⟩

/-- A text is one word, or a word with blanks and another text behind it. -/
theorem exists_gap (cs : List Char) : (∀ c ∈ cs, c ≠ ' ') ∨ ∃ w gap rest, cs = w ++ (gap ++ rest) ∧
    (∀ c ∈ w, c ≠ ' ') ∧ gap ≠ [] ∧ (∀ c ∈ gap, c = ' ') ∧ rest.head? ≠ some ' ' := by
  induction cs with
  | nil => exact .inl fun _ h => absurd h List.not_mem_nil
  | cons c cs ih =>
    by_cases hc : c = ' '
    · subst hc
      rcases ih with solid | ⟨w, gap, rest, rfl, solid, apart, blank, hrest⟩
      · refine .inr ⟨[], [' '], cs, rfl, by simp, by simp, by simp, fun hhead => ?_⟩
        exact solid ' ' (List.mem_of_mem_head? hhead) rfl
      · cases w with
        | nil => exact .inr ⟨[], ' ' :: gap, rest, rfl, by simp, by simp, by simpa using blank, hrest⟩
        | cons d w =>
          have hd := solid d List.mem_cons_self
          exact .inr ⟨[], [' '], d :: w ++ (gap ++ rest), rfl, by simp, by simp, by simp, by simpa using hd⟩
    · rcases ih with solid | ⟨w, gap, rest, rfl, solid, apart, blank, hrest⟩
      · exact .inl (List.forall_mem_cons.mpr ⟨hc, solid⟩)
      · exact .inr ⟨c :: w, gap, rest, rfl, List.forall_mem_cons.mpr ⟨hc, solid⟩, apart, blank, hrest⟩

/-- What has no indicator in it and no blank at its ends is made of words. -/
theorem words_of_solid {cs : List Char} (nonempty : cs ≠ []) (first : cs.head? ≠ some ' ')
    (last : cs.getLast? ≠ some ' ') (clear : ∀ c ∈ cs, isIndicatorChar c = false) : Words cs := by
  induction hn : cs.length using Nat.strongRecOn generalizing cs with
  | _ n ih =>
    rcases exists_gap cs with solid | ⟨w, gap, rest, rfl, solid, apart, blank, hrest⟩
    · exact .one nonempty fun c hc => ⟨solid c hc, clear c hc⟩
    · have hw : w ≠ [] := by
        rintro rfl
        obtain ⟨c, gap, rfl⟩ := List.exists_cons_of_ne_nil apart
        exact first (congrArg some (blank c List.mem_cons_self))
      have hne : rest ≠ [] := by
        rintro rfl
        have hgap := blank _ (List.getLast_mem apart)
        simp [List.getLast?_append, List.getLast?_eq_some_getLast apart, hgap] at last
      rw [List.getLast?_append_of_ne_nil _ (by simp [hne]), List.getLast?_append_of_ne_nil _ hne] at last
      have hshorter : rest.length < n := by
        have hpos := List.length_pos_of_ne_nil apart
        simp only [List.length_append] at hn
        omega
      exact .more hw (fun c hc => ⟨solid c hc, clear c (List.mem_append_left _ hc)⟩) apart blank
        (ih rest.length hshorter hne hrest last
          (fun c hc => clear c (List.mem_append_right _ (List.mem_append_right _ hc))) rfl)

/-- A text that stands without quotes: words, and the first character opens nothing else. -/
structure Bare (cs : List Char) : Prop where
  words : Words cs
  opens : ∀ c ∈ cs.head?, isOpener c = false

theorem bare_of_needsQuotes {t : String} (h : needsQuotes t = false) : Bare t.toList := by
  unfold needsQuotes at h
  cases hcs : t.toList with
  | nil => simp [hcs] at h
  | cons c cs =>
    simp only [hcs, Bool.or_eq_false_iff, List.any_eq_false] at h
    obtain ⟨⟨⟨⟨⟨⟨hfirst, hlast⟩, hopens⟩, _⟩, hclear⟩, _⟩, _⟩ := h
    refine ⟨words_of_solid (List.cons_ne_nil c cs) (by simpa using hfirst) (by simpa using hlast)
      (fun d hd => by simpa using hclear d hd), fun d hd => ?_⟩
    obtain rfl : c = d := by simpa using hd
    exact hopens

theorem Bare.head {cs : List Char} (h : Bare cs) :
    ∃ c ds, cs = c :: ds ∧ IsSolid c ∧ isOpener c = false := by
  obtain ⟨c, ds, rfl, hc⟩ := h.words.head
  exact ⟨c, ds, rfl, hc, h.opens c rfl⟩

namespace IsSolid

variable {c : Char}

theorem ne {d : Char} (h : IsSolid c) (hd : isIndicatorChar d = true) : c ≠ d := by
  rintro rfl
  exact absurd h.2 (by simp [hd])

theorem not_gapEnd (h : IsSolid c) : Scanner.isGapEnd c = false := by
  have htab : c ≠ '\t' := h.ne (by decide)
  have hnewline : c ≠ '\n' := h.ne (by decide)
  have hreturn : c ≠ '\r' := h.ne (by decide)
  have hend : c ≠ '\x00' := h.ne (by decide)
  simp [Scanner.isGapEnd, Scanner.isGap, Scanner.isBreakEnd, Scanner.isBreak, Scanner.isEnd, h.1, htab,
    hnewline, hreturn, hend]

end IsSolid

namespace Scanner

variable {s : Scanner} {c : Char} {cs tail : List Char}

/-- Past characters of the same line. -/
def along (s : Scanner) (cs tail : List Char) : Scanner :=
  { s with rest := tail, index := s.index + cs.length, column := s.column + cs.length }

@[simp] theorem along_rest : (s.along cs tail).rest = tail := rfl

@[simp] theorem along_brackets : (s.along cs tail).brackets = s.brackets := rfl

theorem along_along (s : Scanner) (cs ds rest tail : List Char) :
    (s.along cs rest).along ds tail = s.along (cs ++ ds) tail := by
  simp [along, Nat.add_assoc]

theorem along_cons (s : Scanner) (c : Char) (ds rest tail : List Char) :
    (s.along [c] rest).along ds tail = s.along (c :: ds) tail := along_along s [c] ds rest tail

theorem along_nil (h : s.rest = tail) : s.along [] tail = s := by
  subst h
  rfl

theorem ch_of_rest (h : s.rest = c :: cs) : s.ch = c := by simp [ch, at_, h]

theorem skip_of_rest (h : s.rest = c :: cs) (line : c ≠ '\n') : s.skip = s.along [c] cs := by
  unfold skip
  split
  · simp_all
  · rename_i heq
    exact absurd (List.cons.inj (h.symm.trans heq)).1 line
  · rename_i heq
    obtain ⟨rfl, rfl⟩ := List.cons.inj (h.symm.trans heq)
    rfl

theorem skipMany_of_rest (h : s.rest = cs ++ tail) (line : '\n' ∉ cs) :
    skipMany cs.length s = s.along cs tail := by
  induction cs generalizing s with
  | nil => exact (along_nil h).symm
  | cons c cs ih =>
    obtain ⟨hc, hcs⟩ := not_or.mp (List.mem_cons.not.mp line)
    rw [List.length_cons, skipMany, skip_of_rest h (Ne.symm hc), ih rfl hcs, along_cons]

/-! ### Texts without quotes -/

/-- A word is taken up to where it ends. -/
theorem word_of_rest (h : s.rest = cs ++ tail) (solid : ∀ c ∈ cs, IsSolid c) (outside : s.brackets = 0)
    (ends : (s.along cs tail).endsWord = true) {fuel : Nat} (enough : cs.length ≤ fuel)
    (soFar : List Char) : word fuel soFar s = (cs.reverse ++ soFar, s.along cs tail) := by
  induction cs generalizing s fuel soFar with
  | nil =>
    have hs : s.along [] tail = s := along_nil h
    rw [hs] at ends ⊢
    cases fuel with
    | zero => rfl
    | succ fuel => simp [word, ends]
  | cons c cs ih =>
    obtain ⟨fuel, rfl⟩ := Nat.exists_eq_add_one_of_ne_zero (Nat.ne_of_gt (Nat.lt_of_lt_of_le (Nat.succ_pos _) enough))
    obtain ⟨hc, hcs⟩ := List.forall_mem_cons.mp solid
    have hch : s.ch = c := ch_of_rest h
    have hcolon : c ≠ ':' := hc.ne (by decide)
    have hgoes : s.endsWord = false := by simp [endsWord, hch, hc.not_gapEnd, hcolon, outside]
    have hnewline : c ≠ '\n' := hc.ne (by decide)
    have hstep : s.skip = s.along [c] (cs ++ tail) := skip_of_rest h hnewline
    have hrest : (s.along [c] (cs ++ tail)).rest = cs ++ tail := rfl
    have hends : ((s.along [c] (cs ++ tail)).along cs tail).endsWord = true := by
      rwa [along_cons]
    rw [word, if_neg (by simp [hgoes]), hch, hstep,
      ih hrest hcs outside hends (Nat.le_of_succ_le_succ enough), along_cons]
    simp

/-- What is left begins with neither a blank nor a line break. -/
def Halts (cs : List Char) : Prop := ∀ c ∈ cs.head?, isGap c = false ∧ isBreak c = false

theorem Halts.ch (halts : Halts tail) (h : s.rest = tail) : isGap s.ch = false ∧ isBreak s.ch = false := by
  cases tail with
  | nil => simp [Scanner.ch, at_, h, isGap, isBreak]
  | cons c tail => exact ch_of_rest h ▸ halts c rfl

/-- Blanks are passed, and kept unless a line was broken. -/
theorem between_of_gap {gap : List Char} (h : s.rest = gap ++ tail) (blank : ∀ c ∈ gap, c = ' ')
    (halts : Halts tail) (limit : Option (Int × Place)) {fuel : Nat} (enough : gap.length ≤ fuel) (b : Between) :
    between limit fuel b s =
      .ok (if b.broken then b else { b with blanks := gap.reverse ++ b.blanks }, s.along gap tail) := by
  induction gap generalizing s fuel b with
  | nil =>
    have hs : s.along [] tail = s := along_nil h
    have stop := halts.ch h
    rw [hs]
    have htab : s.ch ≠ '\t' := fun heq => by simp [heq, isGap] at stop
    cases fuel with
    | zero => simp [between]
    | succ fuel => simp [between, stop, htab]
  | cons c gap ih =>
    obtain ⟨fuel, rfl⟩ := Nat.exists_eq_add_one_of_ne_zero (Nat.ne_of_gt (Nat.lt_of_lt_of_le (Nat.succ_pos _) enough))
    obtain ⟨rfl, hblank⟩ := List.forall_mem_cons.mp blank
    have hch : s.ch = ' ' := ch_of_rest h
    have hstep : s.skip = s.along [' '] (gap ++ tail) := skip_of_rest h (by decide)
    have hrest : (s.along [' '] (gap ++ tail)).rest = gap ++ tail := rfl
    have hnext := ih hrest hblank (Nat.le_of_succ_le_succ enough)
      (if b.broken then b else { b with blanks := ' ' :: b.blanks })
    rw [along_cons] at hnext
    simp only [between, hch, hstep, isGap, beq_self_eq_true, Bool.true_or, if_true]
    rw [if_neg (by simp), hnext]
    cases hb : b.broken <;> simp [hb]

/-- What follows a word of a text without quotes. -/
def afterWord (start : Place) (fuel : Nat) (soFar : List Char) (s : Scanner) :
    Scan (List Char × Bool × Scanner) :=
  if !(isGap s.ch || isBreak s.ch) then .ok (soFar, false, s)
  else do
    let (b, s) ← between (some (s.indent + 1, start)) fuel .none s
    if s.brackets = 0 ∧ (s.column : Int) < s.indent + 1 then .ok (soFar, b.broken, s)
    else plainWords start fuel soFar b s

theorem plainWords_of_word (h : s.rest = c :: cs ++ tail) (solid : ∀ d ∈ c :: cs, IsSolid d)
    (outside : s.brackets = 0) (opens : s.isIndicator '-' = false ∧ s.isIndicator '.' = false)
    (ends : (s.along (c :: cs) tail).endsWord = true) {fuel : Nat} (enough : (c :: cs).length ≤ fuel)
    (start : Place) (soFar : List Char) (b : Between) :
    plainWords start (fuel + 1) soFar b s =
      afterWord start fuel ((c :: cs).reverse ++ (b.text.reverse ++ soFar)) (s.along (c :: cs) tail) := by
  obtain ⟨hc, _⟩ := List.forall_mem_cons.mp solid
  have hch : s.ch = c := ch_of_rest h
  have hhash : c ≠ '#' := hc.ne (by decide)
  have hcolon : c ≠ ':' := hc.ne (by decide)
  have hgoes : s.endsWord = false := by simp [endsWord, hch, hc.not_gapEnd, hcolon, outside]
  have hword := word_of_rest h solid outside ends enough (b.text.reverse ++ soFar)
  simp only [plainWords, opens, hch, hgoes, hword, afterWord]
  simp [hhash, Between.none]

theorem isIndicator_of_column (h : s.column ≠ 0) (c : Char) : s.isIndicator c = false := by
  simp [isIndicator, h]

/-- A word with others after it is taken with the blanks behind it. -/
theorem plainWords_of_gap {gap : List Char} {d : Char} {ds : List Char}
    (h : s.rest = c :: cs ++ (gap ++ d :: ds)) (solid : ∀ e ∈ c :: cs, IsSolid e) (apart : gap ≠ [])
    (blank : ∀ e ∈ gap, e = ' ') (next : IsSolid d) (outside : s.brackets = 0)
    (inside : s.indent ≤ s.column) (opens : s.isIndicator '-' = false ∧ s.isIndicator '.' = false)
    {fuel : Nat} (enough : (c :: cs).length + gap.length ≤ fuel) (start : Place) (soFar : List Char)
    (b : Between) :
    plainWords start (fuel + 1) soFar b s =
      plainWords start fuel ((c :: cs).reverse ++ (b.text.reverse ++ soFar)) ⟨gap.reverse, false, false, 0⟩
        (s.along (c :: cs ++ gap) (d :: ds)) := by
  let t := s.along (c :: cs) (gap ++ d :: ds)
  have htch : t.ch = ' ' := by
    obtain ⟨e, gap', rfl⟩ := List.exists_cons_of_ne_nil apart
    exact (ch_of_rest rfl).trans (blank e List.mem_cons_self)
  have hends : t.endsWord = true := by simp [endsWord, isGapEnd, isGap, htch]
  have halts : Halts (d :: ds) := by
    have hgapEnd := next.not_gapEnd
    simp only [isGapEnd, isBreakEnd, Bool.or_eq_false_iff] at hgapEnd
    intro e he
    obtain rfl : d = e := by simpa using he
    exact ⟨hgapEnd.1, hgapEnd.2.1⟩
  have hbetween := between_of_gap (show t.rest = gap ++ d :: ds from rfl) blank halts
    (some (s.indent + 1, start)) (show gap.length ≤ fuel by omega) .none
  have hcolumn : ¬((t.along gap (d :: ds)).column : Int) < s.indent + 1 := by
    simp only [t, along, Int.natCast_add, List.length_cons]
    omega
  rw [plainWords_of_word h solid outside opens hends (by omega)]
  have hindent : (t.along gap (d :: ds)).indent = s.indent := rfl
  have htindent : t.indent = s.indent := rfl
  show afterWord start fuel _ t = _
  simp only [afterWord, htch, htindent, hbetween, bind, Except.bind, hindent, hcolumn, and_false, if_false]
  simp [isGap, Between.none, t, along_along]

/-- **A text without quotes is taken up to the end of its last word.** -/
theorem plainWords_of_words (words : Words cs) (h : s.rest = cs ++ tail) (outside : s.brackets = 0)
    (inside : s.indent ≤ s.column) (opens : s.isIndicator '-' = false ∧ s.isIndicator '.' = false)
    (ends : (s.along cs tail).endsWord = true) {fuel : Nat} (enough : (cs ++ tail).length < fuel)
    (start : Place) (soFar : List Char) (b : Between) :
    ∃ left, tail.length < left ∧ plainWords start fuel soFar b s =
      afterWord start left (cs.reverse ++ (b.text.reverse ++ soFar)) (s.along cs tail) := by
  obtain ⟨fuel, rfl⟩ := Nat.exists_eq_add_one_of_ne_zero (Nat.ne_of_gt (Nat.zero_lt_of_lt enough))
  rw [List.length_append] at enough
  induction words generalizing s fuel soFar b with
  | @one w nonempty solid =>
    obtain ⟨c, ds, rfl⟩ := List.exists_cons_of_ne_nil nonempty
    have hw := List.length_pos_of_ne_nil nonempty
    exact ⟨fuel, by omega, plainWords_of_word h solid outside opens ends (by omega) start soFar b⟩
  | @more w gap ws nonempty solid apart blank rest ih =>
    obtain ⟨c, cs, rfl⟩ := List.exists_cons_of_ne_nil nonempty
    obtain ⟨d, ds, rfl, hd⟩ := rest.head
    have hgap := List.length_pos_of_ne_nil apart
    simp only [List.length_append] at enough
    have hw : 0 < (c :: cs).length := Nat.succ_pos _
    obtain ⟨fuel, rfl⟩ := Nat.exists_eq_add_one_of_ne_zero (show fuel ≠ 0 by omega)
    have hrest : s.rest = c :: cs ++ (gap ++ d :: (ds ++ tail)) := by rw [h]; simp
    let u := s.along (c :: cs ++ gap) (d :: ds ++ tail)
    have hstep : plainWords start (fuel + 1 + 1) soFar b s = plainWords start (fuel + 1) _ _ u :=
      plainWords_of_gap hrest solid apart blank hd outside inside opens (by omega) start soFar b
    have hcolumn : u.column = s.column + (c :: cs ++ gap).length := rfl
    rw [List.length_append] at hcolumn
    have hopens := And.intro (isIndicator_of_column (s := u) (by omega) '-')
      (isIndicator_of_column (s := u) (by omega) '.')
    have hindent : u.indent = s.indent := rfl
    have hu : u.along (d :: ds) tail = s.along (c :: cs ++ (gap ++ d :: ds)) tail := by
      simp [u, along_along]
    have hends : (u.along (d :: ds) tail).endsWord = true := by rw [hu]; exact ends
    obtain ⟨left, hleft, hrun⟩ := @ih u rfl outside (show u.indent ≤ u.column by omega) hopens hends
      ((c :: cs).reverse ++ (b.text.reverse ++ soFar)) ⟨gap.reverse, false, false, 0⟩ fuel (by omega)
    refine ⟨left, hleft, ?_⟩
    rw [hstep, hrun, hu]
    simp [Between.text]

/-- At the start of the next line. -/
def below (s : Scanner) (tail : List Char) : Scanner :=
  { s with rest := tail, index := s.index + 1, line := s.line + 1, column := 0 }

theorem skipBreak_of_rest (h : s.rest = '\n' :: tail) : s.skipBreak = s.below tail := by
  have hch : s.ch = '\n' := ch_of_rest h
  simp [skipBreak, hch, isBreak, skip, h, below]

theorem afterWord_of_colon (h : s.rest = ':' :: tail) (start : Place) (fuel : Nat) (soFar : List Char) :
    afterWord start fuel soFar s = .ok (soFar, false, s) := by
  have hch : s.ch = ':' := ch_of_rest h
  simp [afterWord, hch, isGap, isBreak]

/-- A text without quotes ends before a line that lies no further in than what it is part of,
and the indentation of that line is passed too. -/
theorem afterWord_of_line {gap : List Char} (h : s.rest = '\n' :: (gap ++ tail)) (blank : ∀ c ∈ gap, c = ' ')
    (halts : Halts tail) (outside : s.brackets = 0) (out : gap.length ≤ s.indent) {fuel : Nat} (enough : gap.length < fuel)
    (start : Place) (soFar : List Char) :
    afterWord start fuel soFar s = .ok (soFar, true, (s.below (gap ++ tail)).along gap tail) := by
  obtain ⟨fuel, rfl⟩ := Nat.exists_eq_add_one_of_ne_zero (Nat.ne_of_gt (Nat.zero_lt_of_lt enough))
  have hch : s.ch = '\n' := ch_of_rest h
  have hgap := between_of_gap (show (s.below (gap ++ tail)).rest = gap ++ tail from rfl) blank halts
    (some (s.indent + 1, start)) (show gap.length ≤ fuel by omega) ⟨[], true, true, 0⟩
  have hbetween : between (some (s.indent + 1, start)) (fuel + 1) .none s =
      .ok (⟨[], true, true, 0⟩, (s.below (gap ++ tail)).along gap tail) := by
    simp [between, Between.none, hch, isGap, isBreak, skipBreak_of_rest h, hgap]
  have hcolumn : ((((s.below (gap ++ tail)).along gap tail).column : Int) <
      ((s.below (gap ++ tail)).along gap tail).indent + 1) := by
    simp only [along, below]
    omega
  simp only [afterWord, hch, hbetween, bind, Except.bind, hcolumn, and_true]
  rw [if_neg (by decide), if_pos (show ((s.below (gap ++ tail)).along gap tail).brackets = 0 from outside)]

/-! ### Texts in quotes -/

theorem at_one_of_rest {d : Char} (h : s.rest = c :: d :: cs) : s.at_ 1 = d := by simp [at_, h]

theorem skip_skip_of_rest {d : Char} (h : s.rest = '\\' :: d :: tail) (line : d ≠ '\n') :
    s.skip.skip = s.along ['\\', d] tail := by
  have hfirst : s.skip = s.along ['\\'] (d :: tail) := skip_of_rest h (by decide)
  rw [hfirst, skip_of_rest rfl line, along_cons]

theorem escape_simple {d : Char} (h : s.rest = '\\' :: d :: tail) (hd : simpleEscape? d = some c)
    (line : d ≠ '\n') (start : Place) : escape start s = .ok (c, s.along ['\\', d] tail) := by
  simp [escape, at_one_of_rest h, hd, skip_skip_of_rest h line]

/-- What the four digits of a character's number stand for. -/
theorem hexPadded_value : ∀ n < 128, (Text.hexPadded 4 n).length = 4 ∧ '\n' ∉ Text.hexPadded 4 n ∧
    ∃ ds ∈ (Text.hexPadded 4 n).mapM (digitValue? 16), ds.length = 4 ∧
      ds.foldl (fun n d => n * 16 + d) 0 = n := by
  decide +kernel

theorem escape_numbered (hc : c.toNat < 128)
    (h : s.rest = '\\' :: 'u' :: (Text.hexPadded 4 c.toNat ++ tail)) (start : Place) :
    escape start s = .ok (c, s.along ('\\' :: 'u' :: Text.hexPadded 4 c.toNat) tail) := by
  obtain ⟨hlength, hline, ds, hds, hcount, hvalue⟩ := hexPadded_value c.toNat hc
  have ht : s.skip.skip = s.along ['\\', 'u'] (Text.hexPadded 4 c.toNat ++ tail) :=
    skip_skip_of_rest h (by decide)
  have hrest : s.skip.skip.rest = Text.hexPadded 4 c.toNat ++ tail := by rw [ht, along_rest]
  have htake : s.skip.skip.rest.take 4 = Text.hexPadded 4 c.toNat := by
    have hleft : (Text.hexPadded 4 c.toNat ++ tail).take (Text.hexPadded 4 c.toNat).length = _ := List.take_left
    rwa [hlength, ← hrest] at hleft
  have hskip : skipMany 4 s.skip.skip = s.along ('\\' :: 'u' :: Text.hexPadded 4 c.toNat) tail := by
    have hmany := skipMany_of_rest hrest hline
    rw [hlength] at hmany
    rw [hmany, ht, along_along]
    rfl
  have hvalid : c.toNat.isValidChar := c.valid
  have hsimple : simpleEscape? 'u' = none := rfl
  have hwidth : escapeWidth? 'u' = some 4 := rfl
  simp only [escape, at_one_of_rest h, hsimple, hwidth, htake, Option.mem_def.mp hds, hvalue,
    hcount, hskip, Nat.lt_irrefl, if_false, hvalid, dite_true]
  rfl

theorem quotedWord_of_escape {d : Char} (h : s.rest = '\\' :: d :: tail) (line : isBreak d = false)
    {start : Place} {t : Scanner} (ht : escape start s = .ok (c, t)) (fuel : Nat) (soFar : List Char) :
    quotedWord false start (fuel + 1) soFar s = quotedWord false start fuel (c :: soFar) t := by
  have hch : s.ch = '\\' := ch_of_rest h
  have hgapEnd : isGapEnd '\\' = false := rfl
  simp [quotedWord, hch, hgapEnd, at_one_of_rest h, line, ht, bind, Except.bind]

/-- A character is written as one that stands for it, as its number, or as itself. -/
theorem escaped_cases (c : Char) :
    (∃ d, escaped c = ['\\', d] ∧ simpleEscape? d = some c ∧ isBreak d = false) ∨
    (escaped c = '\\' :: 'u' :: Text.hexPadded 4 c.toNat ∧ c.toNat < 128) ∨
    (escaped c = [c] ∧ c ≠ '"' ∧ c ≠ '\\' ∧ c ≠ '\n' ∧ (c ≠ ' ' → isGapEnd c = false)) := by
  unfold escaped
  split
  case h_8 hquote hbackslash _ htab hnewline _ hreturn =>
    by_cases hc : c.toNat < 32 ∨ c.toNat = 127
    · exact .inr (.inl ⟨if_pos hc, by omega⟩)
    · have hend : c ≠ '\x00' := fun heq => hc (by simp [heq])
      have hgapEnd (solid : c ≠ ' ') : isGapEnd c = false := by
        have htab : c ≠ '\t' := htab
        have hnewline : c ≠ '\n' := hnewline
        have hreturn : c ≠ '\r' := hreturn
        simp [isGapEnd, isGap, isBreakEnd, isBreak, isEnd, solid, htab, hnewline, hreturn, hend]
      exact .inr (.inr ⟨if_neg hc, hquote, hbackslash, hnewline, hgapEnd⟩)
  all_goals exact .inl ⟨_, rfl, rfl, rfl⟩

/-- Each character that is no blank is taken back from what it was written as. -/
theorem quotedWord_of_escaped (h : s.rest = escaped c ++ tail) (solid : c ≠ ' ') (start : Place)
    (fuel : Nat) (soFar : List Char) :
    quotedWord false start (fuel + 1) soFar s =
      quotedWord false start fuel (c :: soFar) (s.along (escaped c) tail) := by
  rcases escaped_cases c with ⟨d, heq, hd, line⟩ | ⟨heq, hc⟩ | ⟨heq, hquote, hbackslash, hnewline, hgapEnd⟩
  · rw [heq] at h ⊢
    have hd' : d ≠ '\n' := fun hd => by simp [hd, isBreak] at line
    exact quotedWord_of_escape h line (escape_simple h hd hd' start) fuel soFar
  · rw [heq] at h ⊢
    exact quotedWord_of_escape h rfl (escape_numbered hc h start) fuel soFar
  · rw [heq] at h ⊢
    have hch : s.ch = c := ch_of_rest h
    have hskip : s.skip = s.along [c] tail := skip_of_rest h hnewline
    simp [quotedWord, hch, hgapEnd solid, hquote, hbackslash, hskip]

/-- A word in quotes is taken up to a blank or the closing quote. -/
theorem quotedWord_of_rest (h : s.rest = cs.flatMap escaped ++ tail) (solid : ∀ d ∈ cs, d ≠ ' ')
    (stop : (s.along (cs.flatMap escaped) tail).ch = ' ' ∨ (s.along (cs.flatMap escaped) tail).ch = '"')
    {fuel : Nat} (enough : cs.length < fuel) (start : Place) (soFar : List Char) :
    quotedWord false start fuel soFar s =
      .ok (cs.reverse ++ soFar, false, s.along (cs.flatMap escaped) tail) := by
  obtain ⟨fuel, rfl⟩ := Nat.exists_eq_add_one_of_ne_zero (Nat.ne_of_gt (Nat.zero_lt_of_lt enough))
  induction cs generalizing s fuel soFar with
  | nil =>
    have hs : s.along [] tail = s := along_nil h
    rw [List.flatMap_nil, hs] at stop ⊢
    rcases stop with hch | hch <;> simp [quotedWord, hch, isGapEnd, isGap, isBreakEnd, isBreak, isEnd]
  | cons c cs ih =>
    obtain ⟨hc, hcs⟩ := List.forall_mem_cons.mp solid
    rw [List.flatMap_cons, List.append_assoc] at h
    rw [List.flatMap_cons, ← along_along s (escaped c) _ (cs.flatMap escaped ++ tail)] at stop ⊢
    obtain ⟨fuel, rfl⟩ := Nat.exists_eq_add_one_of_ne_zero (Nat.ne_of_gt (Nat.lt_of_lt_of_le (Nat.succ_pos _)
      (Nat.le_of_lt_succ enough)))
    rw [quotedWord_of_escaped h hc, ih rfl hcs stop (c :: soFar) fuel (Nat.lt_of_succ_lt_succ enough)]
    simp

/-- Nothing in quotes begins like the end of a text, and without a blank in front it halts. -/
theorem head_of_escaped (cs tail : List Char) :
    ∃ c rest, cs.flatMap escaped ++ '"' :: tail = c :: rest ∧ isEnd c = false ∧
      (cs.head? ≠ some ' ' → isGap c = false ∧ isBreak c = false) := by
  cases cs with
  | nil => exact ⟨'"', tail, rfl, rfl, fun _ => ⟨rfl, rfl⟩⟩
  | cons c cs =>
    rcases escaped_cases c with ⟨d, heq, _⟩ | ⟨heq, _⟩ | ⟨heq, _, _, _, hgapEnd⟩
    · exact ⟨'\\', _, by rw [List.flatMap_cons, heq]; rfl, rfl, fun _ => ⟨rfl, rfl⟩⟩
    · exact ⟨'\\', _, by rw [List.flatMap_cons, heq]; rfl, rfl, fun _ => ⟨rfl, rfl⟩⟩
    · refine ⟨c, _, by rw [List.flatMap_cons, heq]; rfl, ?_⟩
      by_cases hc : c = ' '
      · subst hc
        exact ⟨rfl, fun hne => absurd rfl hne⟩
      · have hends := hgapEnd hc
        simp only [isGapEnd, isBreakEnd, Bool.or_eq_false_iff] at hends
        exact ⟨hends.2.2, fun _ => ⟨hends.1, hends.2.1⟩⟩

theorem length_le_escaped (cs : List Char) : cs.length ≤ (cs.flatMap escaped).length := by
  induction cs with
  | nil => exact Nat.le_refl _
  | cons c cs ih =>
    have hc : 0 < (escaped c).length := by
      rcases escaped_cases c with ⟨_, heq, _⟩ | ⟨heq, _⟩ | ⟨heq, _⟩ <;> simp [heq]
    rw [List.flatMap_cons, List.length_append, List.length_cons]
    omega

theorem escaped_of_blank {gap : List Char} (blank : ∀ c ∈ gap, c = ' ') : gap.flatMap escaped = gap := by
  induction gap with
  | nil => rfl
  | cons c gap ih =>
    obtain ⟨rfl, hblank⟩ := List.forall_mem_cons.mp blank
    rw [List.flatMap_cons, ih hblank]
    rfl

/-- A word in quotes with blanks behind it is taken with them. -/
theorem quotedWords_of_gap {w gap inner : List Char} (h : s.rest = w.flatMap escaped ++ (gap ++ inner))
    (begun : s.column ≠ 0) (hend : isEnd s.ch = false) (solid : ∀ c ∈ w, c ≠ ' ') (apart : gap ≠ [])
    (blank : ∀ c ∈ gap, c = ' ')
    (halts : Halts inner) (start : Place) (fuel : Nat) (soFar : List Char) :
    quotedWords false start (fuel + 1) soFar s =
      quotedWords false start fuel (gap.reverse ++ (w.reverse ++ soFar))
        (s.along (w.flatMap escaped ++ gap) inner) := by
  rw [← along_along s _ gap (gap ++ inner)]
  have hch : (s.along (w.flatMap escaped) (gap ++ inner)).ch = ' ' := by
    obtain ⟨e, gap', rfl⟩ := List.exists_cons_of_ne_nil apart
    exact (ch_of_rest rfl).trans (blank e List.mem_cons_self)
  have hlength := length_le_escaped w
  have hrest : s.rest.length = (w.flatMap escaped).length + (gap.length + inner.length) := by simp [h]
  have hword := quotedWord_of_rest h solid (.inl hch) (show w.length < s.rest.length + 1 by omega) start soFar
  have hbetween := between_of_gap (show (s.along (w.flatMap escaped) (gap ++ inner)).rest = _ from rfl) blank
    halts none (show gap.length ≤ (gap ++ inner).length + 1 by simp; omega) ⟨[], false, false, 0⟩
  simp only [quotedWords, isIndicator_of_column begun, hend, hword, hch, along_rest, hbetween, bind,
    Except.bind]
  simp [Between.text]

/-- **A text in quotes is taken back from its escapes, up to the closing quote.** -/
theorem quotedWords_of_rest (h : s.rest = cs.flatMap escaped ++ '"' :: tail) (begun : s.column ≠ 0)
    {fuel : Nat} (enough : cs.length < fuel) (start : Place) (soFar : List Char) :
    quotedWords false start fuel soFar s =
      .ok (cs.reverse ++ soFar, s.along (cs.flatMap escaped) ('"' :: tail)) := by
  induction fuel generalizing cs s soFar with
  | zero => exact absurd enough (Nat.not_lt_zero _)
  | succ fuel ih =>
    have hend : isEnd s.ch = false := by
      obtain ⟨c, rest, heq, hend, _⟩ := head_of_escaped cs tail
      rwa [ch_of_rest (h.trans heq)]
    rcases exists_gap cs with solid | ⟨w, gap, rest, rfl, solid, apart, blank, hhead⟩
    · have hch : (s.along (cs.flatMap escaped) ('"' :: tail)).ch = '"' := ch_of_rest rfl
      have hlength := length_le_escaped cs
      have hrest : s.rest.length = (cs.flatMap escaped).length + (tail.length + 1) := by simp [h]
      have hword := quotedWord_of_rest h solid (.inr hch) (show cs.length < s.rest.length + 1 by omega)
        start soFar
      simp [quotedWords, isIndicator_of_column begun, hend, hword, hch, bind, Except.bind]
    · have hgap := List.length_pos_of_ne_nil apart
      simp only [List.length_append] at enough
      have hflat : (w ++ (gap ++ rest)).flatMap escaped = w.flatMap escaped ++ (gap ++ rest.flatMap escaped) := by
        rw [List.flatMap_append, List.flatMap_append, escaped_of_blank blank]
      have hcut : s.rest = w.flatMap escaped ++ (gap ++ (rest.flatMap escaped ++ '"' :: tail)) := by
        rw [h, hflat]
        simp
      let t := s.along (w.flatMap escaped ++ gap) (rest.flatMap escaped ++ '"' :: tail)
      have ht : t.rest = rest.flatMap escaped ++ '"' :: tail := rfl
      have hbegun : t.column ≠ 0 := by
        simp only [t, along]
        omega
      have halts : Halts (rest.flatMap escaped ++ '"' :: tail) := by
        obtain ⟨c, rest', heq, _, hhalts⟩ := head_of_escaped rest tail
        intro d hd
        rw [heq] at hd
        exact Option.some.inj hd ▸ hhalts hhead
      rw [quotedWords_of_gap hcut begun hend solid apart blank halts start fuel soFar,
        ih ht hbegun (by omega), along_along, hflat]
      simp

/-! ### The tokens of texts -/

/-- Outside of brackets there is one pending key, and it need not be one. -/
def Calm (s : Scanner) : Prop := s.brackets = 0 ∧ ∃ k, s.keys = [k] ∧ k.isRequired = false

/-- The next value may be a key, where keys may stand. -/
def saved (s : Scanner) : Scanner :=
  { s with keys := if s.keyAllowed then [⟨true, false, s.count, s.index, ⟨s.line, s.column⟩⟩] else s.keys }

theorem saveKey_of_calm (calm : s.Calm) : s.saveKey = .ok s.saved := by
  obtain ⟨outside, k, hk, hfree⟩ := calm
  obtain ⟨rest, index, line, column, tokens, count, keyAllowed, keys, indent, indents, brackets, touchingAt⟩ := s
  obtain rfl : keys = [k] := hk
  obtain rfl : brackets = 0 := outside
  cases keyAllowed <;> simp [saveKey, dropKey, saved, topKey, hfree, setTopKey, bind, Except.bind]

theorem opens_of_bare (bare : Bare cs) (h : s.rest = cs ++ tail) :
    s.isIndicator '-' = false ∧ s.isIndicator '.' = false := by
  obtain ⟨c, ds, rfl, _, hopens⟩ := bare.head
  have hch : s.ch = c := ch_of_rest h
  have hdash : c ≠ '-' := fun heq => by simp [heq, isOpener] at hopens
  have hdot : c ≠ '.' := fun heq => by simp [heq, isOpener] at hopens
  simp [isIndicator, hch, hdash, hdot]

/-- A text without quotes, and what follows it. -/
theorem plain_of_bare (bare : Bare cs) (h : s.rest = cs ++ tail) (calm : s.Calm)
    (inside : s.indent ≤ s.column) (ends : (s.along cs tail).endsWord = true) :
    ∃ left, tail.length < left ∧ s.plain = (do
      let (text, broken, t) ← afterWord s.place left cs.reverse ((s.saved.allowKey false).along cs tail)
      let t := if broken then t.allowKey true else t
      .ok (t.push (.scalar true (String.ofList text.reverse)) s.place)) := by
  have hsaved : (s.saved.allowKey false).rest = cs ++ tail := h
  obtain ⟨left, hleft, hrun⟩ := plainWords_of_words bare.words hsaved calm.1 inside (opens_of_bare bare hsaved)
    ends (show (cs ++ tail).length < s.rest.length + 1 by rw [h]; exact Nat.lt_succ_self _) s.place [] .none
  refine ⟨left, hleft, ?_⟩
  have hcs : cs.reverse ++ (Between.none.text.reverse ++ []) = cs.reverse := List.append_nil _
  rw [hcs] at hrun
  unfold plain
  rw [saveKey_of_calm calm]
  change (plainWords s.place (s.rest.length + 1) [] .none (s.saved.allowKey false) >>= _) = _
  rw [hrun]
  rfl

/-- A text without quotes before a colon. -/
theorem plain_before_colon (bare : Bare cs) (h : s.rest = cs ++ ':' :: c :: tail) (gap : isGapEnd c = true)
    (calm : s.Calm) (inside : s.indent ≤ s.column) :
    s.plain = .ok (((s.saved.allowKey false).along cs (':' :: c :: tail)).push
      (.scalar true (String.ofList cs)) s.place) := by
  have hends : (s.along cs (':' :: c :: tail)).endsWord = true := by
    have hch : (s.along cs (':' :: c :: tail)).ch = ':' := ch_of_rest rfl
    have hnext : (s.along cs (':' :: c :: tail)).at_ 1 = c := rfl
    simp [endsWord, hch, hnext, gap]
  obtain ⟨left, _, hrun⟩ := plain_of_bare bare h calm inside hends
  rw [hrun, afterWord_of_colon rfl]
  simp [bind, Except.bind]

/-- A text without quotes at the end of a line; the indentation of the next is passed too. -/
theorem plain_before_line {gap : List Char} (bare : Bare cs) (h : s.rest = cs ++ '\n' :: (gap ++ tail))
    (blank : ∀ c ∈ gap, c = ' ') (halts : Halts tail) (calm : s.Calm) (inside : s.indent ≤ s.column) (out : gap.length ≤ s.indent) :
    s.plain = .ok ((((((s.saved.allowKey false).along cs ('\n' :: (gap ++ tail))).below (gap ++ tail)).along
      gap tail).allowKey true).push (.scalar true (String.ofList cs)) s.place) := by
  have hends : (s.along cs ('\n' :: (gap ++ tail))).endsWord = true := rfl
  obtain ⟨left, hleft, hrun⟩ := plain_of_bare bare h calm inside hends
  have henough : gap.length < left := by
    simp only [List.length_cons, List.length_append] at hleft
    omega
  let t := (s.saved.allowKey false).along cs ('\n' :: (gap ++ tail))
  have hafter : afterWord s.place left cs.reverse t = _ :=
    afterWord_of_line (show t.rest = _ from rfl) blank halts calm.1 out henough s.place cs.reverse
  rw [hrun, hafter]
  simp [t, bind, Except.bind]

/-- A text in quotes. -/
theorem quotedText_of_escaped (h : s.rest = '"' :: (cs.flatMap escaped ++ '"' :: tail)) (calm : s.Calm) :
    s.quotedText false = .ok ({ (s.saved.allowKey false).along ('"' :: (cs.flatMap escaped ++ ['"'])) tail with
        touchingAt := s.index + ('"' :: (cs.flatMap escaped ++ ['"'])).length }.push
      (.scalar false (String.ofList cs)) s.place) := by
  let t := s.saved.allowKey false
  let u := t.along ['"'] (cs.flatMap escaped ++ '"' :: tail)
  have hopen : t.skip = u := skip_of_rest h (by decide)
  have henough : cs.length < t.rest.length + 1 := by
    have hlength := length_le_escaped cs
    have hrest : t.rest.length = (cs.flatMap escaped).length + tail.length + 2 := by
      show s.rest.length = _
      rw [h, List.length_cons, List.length_append, List.length_cons]
      omega
    omega
  have hwords : quotedWords false s.place (t.rest.length + 1) [] u =
      .ok (cs.reverse ++ [], u.along (cs.flatMap escaped) ('"' :: tail)) :=
    quotedWords_of_rest (show u.rest = _ from rfl) (Nat.succ_ne_zero _) henough s.place []
  have hclose : (u.along (cs.flatMap escaped) ('"' :: tail)).skip =
      t.along ('"' :: (cs.flatMap escaped ++ ['"'])) tail := by
    rw [skip_of_rest rfl (by decide), along_along, along_cons]
  unfold quotedText
  rw [saveKey_of_calm calm]
  change (quotedWords false s.place (t.rest.length + 1) [] t.skip >>= _) = _
  rw [hopen, hwords]
  simp only [bind, Except.bind, hclose, List.append_nil, List.reverse_reverse]
  rfl

end Scanner

end FleetJobs.Yaml
