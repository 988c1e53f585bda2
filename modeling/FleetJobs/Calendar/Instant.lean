import FleetJobs.Text.Blank

/-! Instants of time: a date of the Gregorian calendar and a time of day, both of
universal time, down to the nanosecond.

They are read from RFC 3339 texts with some leave (`Instant.read`): blanks around
the marks, any offset below a day, one digit where two are usual, a sixtieth second
in any minute. They are written in one way only (`Instant.write`): in universal
time, with as few of 0, 3, 6 or 9 digits of the second as are exact. -/
namespace FleetJobs.Calendar

def isLeap (year : Int) : Bool :=
  year % 4 == 0 && (year % 100 != 0 || year % 400 == 0)

def daysInMonth (year : Int) (month : Nat) : Nat :=
  match month with
  | 2 => if isLeap year then 29 else 28
  | 4 | 6 | 9 | 11 => 30
  | _ => 31

/-- The first and the last year that are kept. -/
def firstYear : Int := -262143
def lastYear : Int := 262142

structure Date where
  year : Int
  month : Nat
  day : Nat
  year_kept : firstYear ≤ year ∧ year ≤ lastYear
  month_exists : 1 ≤ month ∧ month ≤ 12
  day_exists : 1 ≤ day ∧ day ≤ daysInMonth year month
  deriving DecidableEq

namespace Date

/-- The date of that name, if there is one and its year is kept. -/
def of? (year : Int) (month day : Nat) : Option Date :=
  if h : (firstYear ≤ year ∧ year ≤ lastYear) ∧ (1 ≤ month ∧ month ≤ 12) ∧
      (1 ≤ day ∧ day ≤ daysInMonth year month) then
    some ⟨year, month, day, h.1, h.2.1, h.2.2⟩
  else none

/-- The day before, unless its year is not kept. -/
def before? (d : Date) : Option Date :=
  if 1 < d.day then of? d.year d.month (d.day - 1)
  else if 1 < d.month then of? d.year (d.month - 1) (daysInMonth d.year (d.month - 1))
  else of? (d.year - 1) 12 31

/-- The day after, unless its year is not kept. -/
def after? (d : Date) : Option Date :=
  if d.day < daysInMonth d.year d.month then of? d.year d.month (d.day + 1)
  else if d.month < 12 then of? d.year (d.month + 1) 1
  else of? (d.year + 1) 1 1

end Date

/-- A sixtieth second may follow the sixty of any minute. -/
structure Instant where
  date : Date
  hour : Nat
  minute : Nat
  second : Nat
  nano : Nat
  hour_lt : hour < 24
  minute_lt : minute < 60
  second_le : second ≤ 60
  nano_lt : nano < 1000000000
  deriving DecidableEq

namespace Instant

def of? (date : Date) (hour minute second nano : Nat) : Option Instant :=
  if h : hour < 24 ∧ minute < 60 ∧ second ≤ 60 ∧ nano < 1000000000 then
    some ⟨date, hour, minute, second, nano, h.1, h.2.1, h.2.2.1, h.2.2.2⟩
  else none

/-- A number that grows with time: instants are compared by it. -/
def rank (t : Instant) : Int :=
  ((((t.date.year * 13 + t.date.month) * 32 + t.date.day) * 24 + t.hour) * 60 + t.minute) *
    61000000000 + (t.second * 1000000000 + t.nano : Nat)

/-- The instant whose clock, run `offset` minutes ahead of universal time, shows the
given one; `offset` is less than a day. -/
def behind? (t : Instant) (offset : Int) : Option Instant :=
  let minutes : Int := (t.hour * 60 + t.minute : Nat) - offset
  let date := if minutes < 0 then t.date.before? else if 1440 ≤ minutes then t.date.after? else some t.date
  let ofDay := (minutes % 1440).toNat
  date.bind fun d => of? d (ofDay / 60) (ofDay % 60) t.second t.nano

/-- Why a text is no instant. -/
inductive ReadError where
  | tooShort
  | invalid
  | outOfRange
  | trailing
  | impossible
  deriving DecidableEq, Repr

def ReadError.message : ReadError → String
  | tooShort => "premature end of input"
  | invalid => "input contains invalid characters"
  | outOfRange => "input is out of range"
  | trailing => "trailing input"
  | impossible => "no possible date and time matching input"

/-- A reader takes what it wants from the front of a text. -/
abbrev Reader (α : Type) := List Char → Except ReadError (α × List Char)

/-- At most `most` digits, at least one. -/
def digits (most : Nat) : Reader Nat := fun cs =>
  let ds := (cs.take most).takeWhile Char.isDigit
  match cs, ds with
  | [], _ => .error .tooShort
  | _, [] => .error .invalid
  | _, ds =>
    let n := ds.foldl (fun n c => n * 10 + (c.toNat - 48)) 0
    if 9223372036854775807 < n then .error .outOfRange else .ok (n, cs.drop ds.length)

/-- A number after blanks, within bounds. -/
def number (low high : Nat) : Reader Nat := fun cs => do
  let (n, rest) ← digits 2 (Text.dropBlanks cs)
  if low ≤ n ∧ n ≤ high then .ok (n, rest) else .error .outOfRange

/-- A year after blanks: four digits, or a sign and any number of digits. -/
def year : Reader Int := fun cs => do
  let bounded (n : Int) (rest : List Char) : Except ReadError (Int × List Char) :=
    if -2147483648 ≤ n ∧ n ≤ 2147483647 then .ok (n, rest) else .error .outOfRange
  match Text.dropBlanks cs with
  | '-' :: rest =>
    let (n, rest) ← digits rest.length rest
    bounded (-n) rest
  | '+' :: rest =>
    let (n, rest) ← digits rest.length rest
    bounded n rest
  | rest =>
    let (n, rest) ← digits 4 rest
    bounded n rest

/-- A mark after blanks. -/
def mark (c : Char) : Reader Unit := fun cs =>
  match Text.dropBlanks cs with
  | [] => .error .tooShort
  | d :: rest => if d = c then .ok ((), rest) else .error .invalid

/-- Parts of a second, if a point announces them; digits after the ninth are dropped. -/
def fraction : Reader Nat
  | '.' :: rest => do
    let (n, after) ← digits 9 rest
    let count := rest.length - after.length
    .ok (n * Nat.pow 10 (9 - count), after.dropWhile Char.isDigit)
  | cs => .ok (0, cs)

/-- Two digits, the first at most `top`. -/
def pair (top : Char) : Reader Nat
  | a :: b :: rest =>
    if !(a.isDigit && b.isDigit) then .error .invalid
    else if top < a then .error .outOfRange
    else .ok ((a.toNat - 48) * 10 + (b.toNat - 48), rest)
  | [c] => if c.utf8Size = 1 then .error .tooShort else .error .invalid
  | [] => .error .tooShort

/-- Hours and minutes with a sign, as minutes. -/
def signedOffset (negative : Bool) : Reader Int := fun cs => do
  let (hours, rest) ← pair '9' cs
  let (minutes, rest) ← pair '5' (rest.dropWhile fun c => c == ':' || Text.isBlank c)
  let total : Int := hours * 60 + minutes
  .ok (if negative then -total else total, rest)

/-- The offset from universal time, in minutes; a minus may be written in either of two ways. -/
def offset : Reader Int := fun cs =>
  match cs with
  | c :: rest =>
    if c = 'Z' ∨ c = 'z' then .ok (0, rest)
    else if (cs.take 3).map Char.toUpper = ['U', 'T', 'C'] then .ok (0, cs.drop 3)
    else if c = '+' then signedOffset false rest
    else if c = '-' ∨ c = '−' then signedOffset true rest
    else .error .invalid
  | [] => .error .tooShort

/-- The mark between date and time. -/
def between : Reader Unit
  | [] => .error .tooShort
  | c :: rest => if c = 't' ∨ c = 'T' ∨ c = ' ' then .ok ((), rest) else .error .invalid

def readChars (cs : List Char) : Except ReadError Instant := do
  let (y, cs) ← year cs
  let (_, cs) ← mark '-' cs
  let (m, cs) ← number 1 12 cs
  let (_, cs) ← mark '-' cs
  let (d, cs) ← number 1 31 cs
  let (_, cs) ← between cs
  let (h, cs) ← number 0 23 cs
  let (_, cs) ← mark ':' cs
  let (minute, cs) ← number 0 59 cs
  let (_, cs) ← mark ':' cs
  let (second, cs) ← number 0 60 cs
  let (nano, cs) ← fraction cs
  let (ahead, cs) ← offset (Text.dropBlanks cs)
  if !(Text.dropBlanks cs).isEmpty then .error .trailing
  else
    match (Date.of? y m d).bind fun date => of? date h minute second nano with
    | none => .error .outOfRange
    | some local_ =>
      if 1440 ≤ ahead.natAbs then .error .outOfRange
      else
        match local_.behind? ahead with
        | none => .error .impossible
        | some t => .ok t

/-- The instant that a text names. -/
def read (s : String) : Except ReadError Instant := readChars s.toList

/-- A number in decimal with at least `width` digits. -/
def padded (width n : Nat) : List Char :=
  let ds := Nat.toDigits 10 n
  List.replicate (width - ds.length) '0' ++ ds

/-- Years of more than four digits, and those before the year zero, carry a sign. -/
def writeYear (y : Int) : List Char :=
  if 0 ≤ y ∧ y ≤ 9999 then padded 4 y.toNat
  else (if y < 0 then '-' else '+') :: padded 4 y.natAbs

def writeFraction (nano : Nat) : List Char :=
  if nano = 0 then []
  else if nano % 1000000 = 0 then '.' :: padded 3 (nano / 1000000)
  else if nano % 1000 = 0 then '.' :: padded 6 (nano / 1000)
  else '.' :: padded 9 nano

def write (t : Instant) : String :=
  String.ofList
    (writeYear t.date.year ++ ['-'] ++ padded 2 t.date.month ++ ['-'] ++ padded 2 t.date.day ++ ['T'] ++
      padded 2 t.hour ++ [':'] ++ padded 2 t.minute ++ [':'] ++ padded 2 t.second ++
      writeFraction t.nano ++ ['Z'])

end Instant

end FleetJobs.Calendar
