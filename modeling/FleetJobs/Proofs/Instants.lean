import FleetJobs.Calendar.Instant
import FleetJobs.Text.Digits
import Mathlib

/-! Instants that were written are read back, and they are compared as instants.

Every part of the text has its digits in full width, so a reader that takes as many digits
as it may never takes one of the next part, and what stands between the parts is no digit:
`read_write`. The rank of an instant has room for each of its parts below the one before it,
so ranks are in order as dates and times are: `rank_lt_rank`. -/
namespace FleetJobs.Calendar.Instant

open FleetJobs.Text (digitsValue)

/-! ### Numbers in full width -/

theorem digitsValue_toDigits (n : Nat) : digitsValue (Nat.toDigits 10 n) = n := by
  have h : Nat.ofDigitChars 10 (Nat.toDigits 10 n) 0 = n := Nat.ofDigitChars_toDigits (by decide) (by decide)
  simp only [Nat.ofDigitChars, Nat.mul_comm 10] at h
  exact h

theorem digitsValue_zeros (k : Nat) (ds : List Char) :
    digitsValue (List.replicate k '0' ++ ds) = digitsValue ds := by
  induction k with
  | zero => rfl
  | succ k ih => exact ih

theorem digitsValue_padded (width n : Nat) : digitsValue (padded width n) = n := by
  rw [padded, digitsValue_zeros, digitsValue_toDigits]

theorem isDigit_of_mem_padded {width n : Nat} {c : Char} (h : c ∈ padded width n) : c.isDigit = true := by
  rcases List.mem_append.mp h with hc | hc
  · rw [List.eq_of_mem_replicate hc]
    rfl
  · exact Nat.isDigit_of_mem_toDigits (by decide) (by decide) hc

theorem padded_ne_nil (width n : Nat) : padded width n ≠ [] := by simp [padded, Nat.toDigits_ne_nil]

theorem length_padded {width n : Nat} (h : n < 10 ^ width) (pos : 0 < width) :
    (padded width n).length = width := by
  have hdigits : (Nat.toDigits 10 n).length ≤ width := (Nat.length_toDigits_le_iff (by decide) pos).mpr h
  rw [padded, List.length_append, List.length_replicate]
  omega

variable {rest : List Char} {width n : Nat}

/-- As many digits are taken as there are, if no digit follows or no more may be taken. -/
theorem digits_padded {most : Nat} (fits : (padded width n).length ≤ most)
    (stops : (padded width n).length = most ∨ ∀ c ∈ rest.head?, c.isDigit = false)
    (small : n ≤ 9223372036854775807) : digits most (padded width n ++ rest) = .ok (n, rest) := by
  have hall : ∀ c ∈ padded width n, c.isDigit = true := fun _ => isDigit_of_mem_padded
  have hrest : (rest.take (most - (padded width n).length)).takeWhile Char.isDigit = [] := by
    rcases stops with hmost | hrest
    · rw [hmost, Nat.sub_self, List.take_zero, List.takeWhile_nil]
    · cases hcut : rest.take (most - (padded width n).length) with
      | nil => rfl
      | cons c cs =>
        have hc : c ∈ rest.head? := by
          cases rest with
          | nil => simp at hcut
          | cons d rest =>
            cases hroom : most - (padded width n).length with
            | zero => simp [hroom] at hcut
            | succ k =>
              rw [hroom, List.take_succ_cons] at hcut
              exact congrArg some (List.cons.inj hcut).1
        exact List.takeWhile_cons_of_neg (by simp [hrest c hc])
  have htake : ((padded width n ++ rest).take most).takeWhile Char.isDigit = padded width n := by
    rw [List.take_append, List.take_of_length_le fits, List.takeWhile_append_of_pos hall, hrest,
      List.append_nil]
  have hvalue : (padded width n).foldl (fun n c => n * 10 + (c.toNat - 48)) 0 = n := digitsValue_padded width n
  unfold digits
  rw [htake]
  have hnonempty := padded_ne_nil width n
  have hnonempty' : padded width n ++ rest ≠ [] := by simp [hnonempty]
  dsimp only
  split
  · exact absurd ‹_› hnonempty'
  · exact absurd ‹_› hnonempty
  · rw [hvalue, if_neg (Nat.not_lt.mpr small), List.drop_left]

theorem dropBlanks_of_head {c : Char} (h : Text.isBlank c = false) : Text.dropBlanks (c :: rest) = c :: rest := by
  simp [Text.dropBlanks, h]

theorem not_blank_of_isDigit {c : Char} (h : c.isDigit = true) : Text.isBlank c = false := by
  have hbounds : 48 ≤ c.toNat ∧ c.toNat ≤ 57 := by
    simpa [Char.isDigit, UInt32.le_iff_toNat_le] using h
  simp only [Text.isBlank, Text.blankRanges, List.any_cons, List.any_nil]
  have hrange {low high : Nat} (hout : high < 48 ∨ 57 < low) :
      (decide (low ≤ c.toNat) && decide (c.toNat ≤ high)) = false := by
    simp only [Bool.and_eq_false_iff, decide_eq_false_iff_not]
    omega
  simp [hrange]

theorem dropBlanks_padded : Text.dropBlanks (padded width n ++ rest) = padded width n ++ rest := by
  obtain ⟨c, cs, hds⟩ := List.exists_cons_of_ne_nil (padded_ne_nil width n)
  have hc : c.isDigit = true := isDigit_of_mem_padded (hds ▸ List.mem_cons_self)
  rw [hds, List.cons_append, dropBlanks_of_head (not_blank_of_isDigit hc)]

/-! ### Parts of the text -/

theorem number_padded {low high : Nat} (hlow : low ≤ n) (hhigh : n ≤ high) (small : n < 100) :
    number low high (padded 2 n ++ rest) = .ok (n, rest) := by
  have hlength : (padded 2 n).length = 2 := length_padded (by omega) (by decide)
  have hdigits : digits 2 (padded 2 n ++ rest) = .ok (n, rest) :=
    digits_padded (Nat.le_of_eq hlength) (.inl hlength) (by omega)
  rw [number, dropBlanks_padded]
  simp only [hdigits, bind, Except.bind, hlow, hhigh, and_self, if_true]

theorem mark_self {c : Char} (h : Text.isBlank c = false) : mark c (c :: rest) = .ok ((), rest) := by
  rw [mark, dropBlanks_of_head h]
  exact if_pos rfl

theorem padded_ne_cons {c : Char} (h : c.isDigit = false) (cs : List Char) : padded width n ++ rest ≠ c :: cs := by
  obtain ⟨d, ds, hds⟩ := List.exists_cons_of_ne_nil (padded_ne_nil width n)
  have hd : d.isDigit = true := isDigit_of_mem_padded (hds ▸ List.mem_cons_self)
  rw [hds, List.cons_append]
  rintro heq
  rw [(List.cons.inj heq).1, h] at hd
  exact absurd hd (by decide)

/-- A year is read up to the mark behind it. -/
theorem year_write {y : Int} (low : firstYear ≤ y) (high : y ≤ lastYear) :
    year (writeYear y ++ '-' :: rest) = .ok (y, '-' :: rest) := by
  unfold firstYear at low
  unfold lastYear at high
  by_cases hshort : 0 ≤ y ∧ y ≤ 9999
  · have hlength : (padded 4 y.toNat).length = 4 := length_padded (by omega) (by decide)
    have hdigits : digits 4 (padded 4 y.toNat ++ '-' :: rest) = .ok (y.toNat, '-' :: rest) :=
      digits_padded (Nat.le_of_eq hlength) (.inl hlength) (by omega)
    have hbounds : -2147483648 ≤ (y.toNat : Int) ∧ (y.toNat : Int) ≤ 2147483647 := by omega
    rw [writeYear, if_pos hshort, year, dropBlanks_padded]
    split
    · exact absurd ‹_› (padded_ne_cons rfl _)
    · exact absurd ‹_› (padded_ne_cons rfl _)
    · simp only [hdigits, bind, Except.bind, if_pos hbounds]
      rw [Int.toNat_of_nonneg hshort.1]
  · have hdigits : digits (padded 4 y.natAbs ++ '-' :: rest).length (padded 4 y.natAbs ++ '-' :: rest) =
        .ok (y.natAbs, '-' :: rest) :=
      digits_padded (by simp) (.inr (by simp)) (by omega)
    rw [writeYear, if_neg hshort]
    by_cases hnegative : y < 0
    · have hvalue : -((y.natAbs : Nat) : Int) = y := by omega
      have hbounds : -2147483648 ≤ y ∧ y ≤ 2147483647 := by omega
      rw [if_pos hnegative, List.cons_append, year, dropBlanks_of_head rfl]
      simp only [hdigits, bind, Except.bind, hvalue, if_pos hbounds]
    · have hvalue : ((y.natAbs : Nat) : Int) = y := by omega
      have hbounds : -2147483648 ≤ y ∧ y ≤ 2147483647 := by omega
      rw [if_neg hnegative, List.cons_append, year, dropBlanks_of_head rfl]
      simp only [hdigits, bind, Except.bind, hvalue, if_pos hbounds]

theorem fraction_write {nano : Nat} (h : nano < 1000000000) :
    fraction (writeFraction nano ++ 'Z' :: rest) = .ok (nano, 'Z' :: rest) := by
  have hpart {k m : Nat} (pos : 0 < k) (le : k ≤ 9) (hm : m < 10 ^ k) :
      fraction ('.' :: padded k m ++ 'Z' :: rest) = .ok (m * Nat.pow 10 (9 - k), 'Z' :: rest) := by
    have hlength : (padded k m).length = k := length_padded hm pos
    have hsmall : m < 10 ^ 9 := Nat.lt_of_lt_of_le hm (Nat.pow_le_pow_right (by decide) le)
    have hdigits : digits 9 (padded k m ++ 'Z' :: rest) = .ok (m, 'Z' :: rest) :=
      digits_padded (by omega) (.inr (by simp)) (by omega)
    have hcount : (padded k m ++ 'Z' :: rest).length - ('Z' :: rest).length = k := by
      rw [List.length_append, hlength]
      omega
    rw [List.cons_append, fraction]
    simp only [hdigits, bind, Except.bind, hcount]
    rfl
  unfold writeFraction
  by_cases hzero : nano = 0
  · subst hzero
    rfl
  rw [if_neg hzero]
  by_cases hmilli : nano % 1000000 = 0
  · have hvalue : nano / 1000000 * Nat.pow 10 (9 - 3) = nano := by
      show nano / 1000000 * 1000000 = nano
      omega
    rw [if_pos hmilli, hpart (by decide) (by decide) (by omega), hvalue]
  rw [if_neg hmilli]
  by_cases hmicro : nano % 1000 = 0
  · have hvalue : nano / 1000 * Nat.pow 10 (9 - 6) = nano := by
      show nano / 1000 * 1000 = nano
      omega
    rw [if_pos hmicro, hpart (by decide) (by decide) (by omega), hvalue]
  · have hvalue : nano * Nat.pow 10 (9 - 9) = nano := Nat.mul_one nano
    rw [if_neg hmicro, hpart (by decide) (by decide) (by omega), hvalue]

theorem behind?_zero (t : Instant) : t.behind? 0 = some t := by
  have hhour := t.hour_lt
  have hminute := t.minute_lt
  have hfields : t.hour < 24 ∧ t.minute < 60 ∧ t.second ≤ 60 ∧ t.nano < 1000000000 :=
    ⟨t.hour_lt, t.minute_lt, t.second_le, t.nano_lt⟩
  have hminutes : (((t.hour * 60 + t.minute : Nat) : Int) - 0) % 1440 = ((t.hour * 60 + t.minute : Nat) : Int) := by
    omega
  have hof : (t.hour * 60 + t.minute) / 60 = t.hour := by omega
  have hrest : (t.hour * 60 + t.minute) % 60 = t.minute := by omega
  have hday : ¬ (((t.hour * 60 + t.minute : Nat) : Int) - 0 < 0) := by omega
  have hnext : ¬ (1440 ≤ ((t.hour * 60 + t.minute : Nat) : Int) - 0) := by omega
  simp only [behind?, hminutes, hday, hnext, if_false, Option.bind_some, Int.toNat_natCast, hof, hrest]
  exact dif_pos hfields

theorem daysInMonth_le (year : Int) (month : Nat) : daysInMonth year month ≤ 31 := by
  unfold daysInMonth
  repeat' split
  all_goals decide

/-- **An instant that was written is read back.** -/
theorem read_write (t : Instant) : read t.write = .ok t := by
  obtain ⟨hmonth, hday⟩ := And.intro t.date.month_exists t.date.day_exists
  have hdays := daysInMonth_le t.date.year t.date.month
  have hyear : ∀ cs, year (writeYear t.date.year ++ '-' :: cs) = .ok (t.date.year, '-' :: cs) :=
    fun _ => year_write t.date.year_kept.1 t.date.year_kept.2
  have hmark {c : Char} (hc : Text.isBlank c = false) : ∀ cs, mark c (c :: cs) = .ok ((), cs) :=
    fun _ => mark_self hc
  have hmonth' : ∀ cs, number 1 12 (padded 2 t.date.month ++ cs) = .ok (t.date.month, cs) :=
    fun _ => number_padded hmonth.1 hmonth.2 (by omega)
  have hday' : ∀ cs, number 1 31 (padded 2 t.date.day ++ cs) = .ok (t.date.day, cs) :=
    fun _ => number_padded hday.1 (by omega) (by omega)
  have hhour : ∀ cs, number 0 23 (padded 2 t.hour ++ cs) = .ok (t.hour, cs) :=
    fun _ => number_padded (Nat.zero_le _) (Nat.le_of_lt_succ t.hour_lt) (Nat.lt_trans t.hour_lt (by decide))
  have hminute : ∀ cs, number 0 59 (padded 2 t.minute ++ cs) = .ok (t.minute, cs) :=
    fun _ => number_padded (Nat.zero_le _) (Nat.le_of_lt_succ t.minute_lt)
      (Nat.lt_trans t.minute_lt (by decide))
  have hsecond : ∀ cs, number 0 60 (padded 2 t.second ++ cs) = .ok (t.second, cs) :=
    fun _ => number_padded (Nat.zero_le _) t.second_le (Nat.lt_of_le_of_lt t.second_le (by decide))
  have hfraction : fraction (writeFraction t.nano ++ ['Z']) = .ok (t.nano, ['Z']) := fraction_write t.nano_lt
  have hbetween : ∀ cs, between ('T' :: cs) = .ok ((), cs) := fun _ => rfl
  have hoffset : offset (Text.dropBlanks ['Z']) = .ok (0, []) := rfl
  have hend : (Text.dropBlanks []).isEmpty = true := rfl
  have hdate : Date.of? t.date.year t.date.month t.date.day = some t.date :=
    dif_pos ⟨t.date.year_kept, t.date.month_exists, t.date.day_exists⟩
  have htime : of? t.date t.hour t.minute t.second t.nano = some t :=
    dif_pos ⟨t.hour_lt, t.minute_lt, t.second_le, t.nano_lt⟩
  have hchars : t.write.toList = writeYear t.date.year ++ '-' :: (padded 2 t.date.month ++ '-' ::
      (padded 2 t.date.day ++ 'T' :: (padded 2 t.hour ++ ':' :: (padded 2 t.minute ++ ':' ::
        (padded 2 t.second ++ (writeFraction t.nano ++ ['Z'])))))) := by
    simp [write]
  rw [read, hchars, readChars]
  simp only [hyear, hmark (show Text.isBlank '-' = false from rfl), hmark (show Text.isBlank ':' = false from rfl),
    hmonth', hday', hbetween, hhour, hminute, hsecond, hfraction, hoffset, hend, bind, Except.bind, hdate,
    Option.bind_some, htime, behind?_zero]
  rfl

/-! ### One instant after another -/

/-- From the year down to the nanosecond. -/
def parts (t : Instant) : List Int :=
  [t.date.year, t.date.month, t.date.day, t.hour, t.minute, t.second, t.nano]

/-- The first part that differs decides. -/
def Earlier (t u : Instant) : Prop := t.parts < u.parts

theorem parts_inj {t u : Instant} : t.parts = u.parts ↔ t = u := by
  refine ⟨fun h => ?_, congrArg parts⟩
  obtain ⟨⟨_, _, _, _, _, _⟩, _, _, _, _, _, _, _, _⟩ := t
  obtain ⟨⟨_, _, _, _, _, _⟩, _, _, _, _, _, _, _, _⟩ := u
  simp only [parts, List.cons.injEq, Int.natCast_inj] at h
  obtain ⟨rfl, rfl, rfl, rfl, rfl, rfl, rfl, -⟩ := h
  rfl

/-- Every part has its room below the one before it. -/
theorem parts_fit (t : Instant) : t.date.month < 13 ∧ t.date.day < 32 ∧ t.hour < 24 ∧ t.minute < 60 ∧
    t.second * 1000000000 + t.nano < 61000000000 := by
  have hmonth := t.date.month_exists
  have hday := t.date.day_exists
  have hdays := daysInMonth_le t.date.year t.date.month
  have hsecond := t.second_le
  have hnano := t.nano_lt
  exact ⟨by omega, by omega, t.hour_lt, t.minute_lt, by omega⟩

/-- **Ranks are in order as dates and times are.** -/
theorem rank_lt_rank {t u : Instant} : t.rank < u.rank ↔ t.Earlier u := by
  obtain ⟨hmonth, hday, hhour, hminute, hrest⟩ := parts_fit t
  obtain ⟨hmonth', hday', hhour', hminute', hrest'⟩ := parts_fit u
  have hnano := t.nano_lt
  have hnano' := u.nano_lt
  simp only [Earlier, parts, List.cons_lt_cons_iff, List.lt_irrefl, and_false, or_false, rank]
  omega

theorem rank_inj {t u : Instant} : t.rank = u.rank ↔ t = u := by
  refine ⟨fun h => ?_, congrArg rank⟩
  rw [← parts_inj]
  have htu : ¬ t.parts < u.parts := fun hlt => (rank_lt_rank.mpr hlt).ne h
  have hut : ¬ u.parts < t.parts := fun hlt => (rank_lt_rank.mpr hlt).ne' h
  exact le_antisymm (not_lt.mp hut) (not_lt.mp htu)

end FleetJobs.Calendar.Instant
