import FleetJobs.Data.Fields

/-! JSON texts as documents.

`scan` finds the value at the front of a text, with all places, up to where the
notation breaks. Places count bytes within a line. What a value is read as and
whether it can be passed over differ in small ways, so texts and numbers are walked
twice: escapes of half a surrogate pair and numbers beyond the real ones only trouble
a reader who wants the value. -/
namespace FleetJobs.Json

open FleetJobs.Data
open FleetJobs.Decimal (Double)

/-- What is left of a text, and where it starts. -/
structure Cursor where
  rest : List Char
  place : Place

/-- The place after a character. -/
def after (p : Place) (c : Char) : Place :=
  if c = '\n' then ⟨p.line + 1, 0⟩ else ⟨p.line, p.column + c.utf8Size⟩

def afterAll (p : Place) (cs : List Char) : Place := cs.foldl after p

namespace Cursor

def ofText (s : String) : Cursor := ⟨s.toList, .start⟩

/-- The place just into the next character. -/
def peek (c : Cursor) : Place :=
  match c.rest with
  | [] => c.place
  | '\n' :: _ => ⟨c.place.line + 1, 0⟩
  | _ :: _ => c.place.next

/-- Past the first `n` characters. -/
def drop (c : Cursor) (n : Nat) : Cursor := ⟨c.rest.drop n, afterAll c.place (c.rest.take n)⟩

def isSpace (c : Char) : Bool := c == ' ' || c == '\n' || c == '\t' || c == '\r'

def skipSpace (c : Cursor) : Cursor := c.drop (c.rest.takeWhile isSpace).length

/-- The place `n` bytes on; the last of them may be inside a character. -/
def bytesOn : Nat → Cursor → Place
  | 0, c => c.place
  | _, ⟨[], p⟩ => p
  | n + 1, ⟨ch :: rest, p⟩ =>
    if ch.utf8Size ≤ n + 1 then bytesOn (n + 1 - ch.utf8Size) ⟨rest, after p ch⟩
    else ⟨p.line, p.column + n + 1⟩
  termination_by n => n
  decreasing_by
    have := ch.utf8Size_pos
    omega

def bytesLeft (c : Cursor) : Nat := (c.rest.map Char.utf8Size).foldl (· + ·) 0

end Cursor

/-- What a walk over part of a text comes to. -/
abbrev Walk := Except (Fault × Place)

def hexDigit? (c : Char) : Option Nat :=
  if '0' ≤ c ∧ c ≤ '9' then some (c.toNat - 48)
  else if 'a' ≤ c ∧ c ≤ 'f' then some (c.toNat - 87)
  else if 'A' ≤ c ∧ c ≤ 'F' then some (c.toNat - 55)
  else none

/-- Four digits of base sixteen. -/
def fourHex (c : Cursor) : Walk (Nat × Cursor) :=
  if c.bytesLeft < 4 then .error (.openText, afterAll c.place c.rest)
  else
    match c.rest.take 4 |>.mapM hexDigit? with
    | some [a, b, d, e] => .ok (((a * 16 + b) * 16 + d) * 16 + e, c.drop 4)
    | _ => .error (.badEscape, c.bytesOn 4)

/-- The character of a simple escape. -/
def simpleEscape? : Char → Option Char
  | '"' => some '"'
  | '\\' => some '\\'
  | '/' => some '/'
  | 'b' => some '\x08'
  | 'f' => some '\x0c'
  | 'n' => some '\n'
  | 'r' => some '\r'
  | 't' => some '\t'
  | _ => none

/-- The character that four digits name; the first half of a pair wants the other. -/
def numberedEscape (c : Cursor) : Walk (Char × Cursor) := do
  let (n, c) ← fourHex c
  if 0xDC00 ≤ n ∧ n ≤ 0xDFFF then .error (.loneSurrogate, c.place)
  else if n < 0xD800 ∨ 0xDBFF < n then .ok (Char.ofNat n, c)
  else
    match c.rest with
    | [] => .error (.openText, c.place)
    | '\\' :: 'u' :: _ =>
      let (m, c) ← fourHex (c.drop 2)
      if m < 0xDC00 ∨ 0xDFFF < m then .error (.loneSurrogate, c.place)
      else .ok (Char.ofNat ((n - 0xD800) * 1024 + (m - 0xDC00) + 0x10000), c)
    | ['\\'] => .error (.openText, (c.drop 1).place)
    | '\\' :: _ => .error (.brokenSurrogate, (c.drop 1).bytesOn 1)
    | _ => .error (.brokenSurrogate, c.bytesOn 1)

/-- The text after an opening quote, and what follows its closing one. Every turn uses
up at least one character. -/
def readText : Nat → List Char → Cursor → Walk (String × Cursor)
  | 0, _, c => .error (.openText, c.place)
  | fuel + 1, soFar, c =>
    match c.rest with
    | [] => .error (.openText, c.place)
    | '"' :: _ => .ok (String.ofList soFar.reverse, c.drop 1)
    | ['\\'] => .error (.openText, (c.drop 1).place)
    | '\\' :: 'u' :: _ => do
      let (ch, c) ← numberedEscape (c.drop 2)
      readText fuel (ch :: soFar) c
    | '\\' :: e :: _ =>
      match simpleEscape? e with
      | some ch => readText fuel (ch :: soFar) (c.drop 2)
      | none => .error (.badEscape, (c.drop 1).bytesOn 1)
    | ch :: _ =>
      if ch.toNat < 32 then .error (.controlCharacter, (c.drop 1).place)
      else readText fuel (ch :: soFar) (c.drop 1)

/-- What follows the closing quote of a text that is passed over. -/
def passText : Nat → Cursor → Walk (Unit × Cursor)
  | 0, c => .error (.openText, c.place)
  | fuel + 1, c =>
    match c.rest with
    | [] => .error (.openText, c.place)
    | '"' :: _ => .ok ((), c.drop 1)
    | ['\\'] => .error (.openText, (c.drop 1).place)
    | '\\' :: 'u' :: _ => do
      let (_, c) ← fourHex (c.drop 2)
      passText fuel c
    | '\\' :: e :: _ =>
      match simpleEscape? e with
      | some _ => passText fuel (c.drop 2)
      | none => .error (.badEscape, (c.drop 1).bytesOn 1)
    | ch :: _ =>
      if ch.toNat < 32 then .error (.controlCharacter, c.place)
      else passText fuel (c.drop 1)

/-- The largest number that a significand may hold. -/
def significandLimit : Nat := 18446744073709551615

/-- Digits taken into a significand while it can hold them: the significand, how many
digits it took, and how many it could not take. -/
def significand (n : Nat) (ds : List Char) : Nat × Nat × Nat :=
  ds.foldl
    (fun (n, taken, dropped) d =>
      let m := n * 10 + (d.toNat - 48)
      if dropped = 0 ∧ m ≤ significandLimit then (m, taken + 1, 0) else (n, taken, dropped + 1))
    (n, 0, 0)

/-- A significand times a power of ten, by steps of at most `10 ^ 308`. -/
def scaled : Nat → Float → Int → Option Float
  | 0, x, _ => some x
  | fuel + 1, x, e =>
    if e.natAbs ≤ 308 then
      let power := Float.ofScientific 1 false e.natAbs
      if 0 ≤ e then
        let y := x * power
        if y.isInf then none else some y
      else some (x / power)
    else if x == 0.0 then some x
    else if 0 ≤ e then none
    else scaled fuel (x / 1e308) (e + 308)

def real (negative : Bool) (n : Nat) (exponent : Int) : Option Double :=
  (scaled 8 (Float.ofNat n) exponent).map fun x => .ofFloat (if negative then -x else x)

/-- A number in parts: the digits before the point, after it, and the exponent with its
sign, the latter two if they are there. -/
structure Numeral where
  negative : Bool
  whole : List Char
  fraction : Option (List Char)
  exponent : Option (Bool × List Char)

def natOf (ds : List Char) : Nat := ds.foldl (fun n c => n * 10 + (c.toNat - 48)) 0

/-- The largest exponent that is told apart from those beyond. -/
def exponentLimit : Nat := 2147483647

/-- The value of a numeral. An integer that fits 64 bits stays one, except for minus
zero; all others are real. -/
def Numeral.value (n : Numeral) : Option Atom :=
  let (head, _, droppedWhole) := significand 0 n.whole
  match n.fraction, n.exponent with
  | none, none =>
    if droppedWhole = 0 ∧ !n.negative then some (.integer head)
    else if droppedWhole = 0 ∧ head ≠ 0 ∧ head ≤ 9223372036854775808 then some (.integer (-(head : Int)))
    else (real n.negative head droppedWhole).map .real
  | fraction, exponent =>
    let (all, takenFraction, _) := significand head (fraction.getD [])
    let own : Int := (droppedWhole : Int) - takenFraction
    match exponent with
    | none => (real n.negative all own).map .real
    | some (negative, ds) =>
      let e := natOf ds
      if exponentLimit < e then
        if all ≠ 0 ∧ !negative then none
        else some (.real (.ofFloat (if n.negative then -0.0 else 0.0)))
      else
        let total := if negative then own - e else own + e
        (real n.negative all (max (-2147483648) (min total 2147483647))).map .real

/-- How many digits of an exponent are read; one that makes it too large to be told
apart is the last. -/
def digitsRead : Nat → List Char → Nat
  | _, [] => 0
  | soFar, d :: ds =>
    let n := soFar * 10 + (d.toNat - 48)
    if exponentLimit < n then 1 else 1 + digitsRead n ds

/-- Where it shows that a numeral is too large, if its text ends at a place. -/
def Numeral.excessPlace (n : Numeral) (stop : Place) : Place :=
  match n.exponent with
  | none => stop
  | some (_, ds) => { stop with column := stop.column - (ds.length - digitsRead 0 ds) }

/-- A numeral, from after its sign. An end of the text where a digit should stand is
told apart by a reader only; `start` is the place just into its first character. -/
def numeral (start : Place) (negative : Bool) (c : Cursor) : Except Break (Numeral × Cursor) := do
  let broken (f g : Fault × Place) : Except Break (Numeral × Cursor) :=
    .error ⟨f, g, (.valueExpected, start)⟩
  let bad (p : Place) : Except Break (Numeral × Cursor) := broken (.badNumber, p) (.badNumber, p)
  let whole := c.rest.takeWhile Char.isDigit
  match whole with
  | [] =>
    match c.rest with
    | [] => broken (.noValue, c.place) (.badNumber, c.place)
    | _ => bad (c.bytesOn 1)
  | '0' :: _ :: _ => bad (c.drop 1).peek
  | whole =>
    let c := c.drop whole.length
    let withExponent (fraction : Option (List Char)) (c : Cursor) : Except Break (Numeral × Cursor) :=
      match c.rest with
      | e :: sign =>
        if e = 'e' ∨ e = 'E' then
          let c := c.drop (match sign with
            | '+' :: _ | '-' :: _ => 2
            | _ => 1)
          let ds := c.rest.takeWhile Char.isDigit
          match ds, c.rest with
          | [], [] => broken (.noValue, c.place) (.badNumber, c.place)
          | [], _ => bad (c.bytesOn 1)
          | ds, _ => .ok (⟨negative, whole, fraction, some (sign.head? == some '-', ds)⟩, c.drop ds.length)
        else .ok (⟨negative, whole, fraction, none⟩, c)
      | [] => .ok (⟨negative, whole, fraction, none⟩, c)
    match c.rest with
    | '.' :: _ =>
      let c := c.drop 1
      let ds := c.rest.takeWhile Char.isDigit
      match ds, c.rest with
      | [], [] => broken (.noValue, c.place) (.badNumber, c.place)
      | [], _ => bad c.peek
      | ds, _ => withExponent (some ds) (c.drop ds.length)
    | _ => withExponent none c

/-- The rest of a word whose first letter has been seen. -/
def word : List Char → Cursor → Walk (Unit × Cursor)
  | [], c => .ok ((), c)
  | w :: ws, c =>
    match c.rest with
    | [] => .error (.noValue, c.place)
    | ch :: _ => if ch = w then word ws (c.drop 1) else .error (.wordExpected, c.bytesOn 1)

/-- A text as a value, from its opening quote. -/
def textNode (c : Cursor) : Node × Option Cursor :=
  let inside := c.drop 1
  let fuel := inside.rest.length + 1
  match passText fuel inside, readText fuel [] inside with
  | .ok (_, past), .ok (s, _) => (.scalar ⟨.ok (.text s), none, .ok false, none⟩ c.place past.place, some past)
  | .ok (_, past), .error (f, p) =>
    (.scalar ⟨.error (.fault f p), none, .ok false, none⟩ c.place past.place, some past)
  | .error passing, .error reading => (.broken { reading, passing } c.peek, none)
  | .error passing, .ok _ => (.broken { reading := passing, passing } c.peek, none)

def numberNode (c : Cursor) (negative : Bool) : Node × Option Cursor :=
  match numeral c.peek negative (if negative then c.drop 1 else c) with
  | .error b => (.broken b c.peek, none)
  | .ok (n, past) =>
    let atom : Except Trouble Atom := match n.value with
      | some a => .ok a
      | none => .error (.fault .numberTooLarge (n.excessPlace past.place))
    (.scalar ⟨atom, none, .ok false, none⟩ c.place past.place, some past)

def wordNode (c : Cursor) (letters : List Char) (a : Atom) : Node × Option Cursor :=
  match word letters (c.drop 1) with
  | .error e => (.broken ⟨e, e, (.valueExpected, c.peek)⟩ c.peek, none)
  | .ok (_, past) => (.scalar ⟨.ok a, none, .ok (a == .null), none⟩ c.place past.place, some past)

mutual

/-- The value at the front of a text, and what follows it unless the text breaks.
Every call of the three uses up a character or hands over to one that does. -/
def scan : Nat → Cursor → Node × Option Cursor
  | 0, c => (.broken (.same .noValue c.place) c.place, none)
  | fuel + 1, c =>
    let c := c.skipSpace
    match c.rest with
    | [] => (.broken (.same .noValue c.place) c.place, none)
    | '"' :: _ => textNode c
    | '-' :: _ => numberNode c true
    | 'n' :: _ => wordNode c ['u', 'l', 'l'] .null
    | 't' :: _ => wordNode c ['r', 'u', 'e'] (.boolean true)
    | 'f' :: _ => wordNode c ['a', 'l', 's', 'e'] (.boolean false)
    | '[' :: _ =>
      let (items, ending, past) := scanItems fuel true (c.drop 1)
      (.list items c.place ending, past)
    | '\x7b' :: _ =>
      let (entries, ending, past) := scanEntries fuel true (c.drop 1)
      (.map entries c.place ending, past)
    | ch :: _ =>
      if ch.isDigit then numberNode c false
      else (.broken (.same .valueExpected c.peek) c.peek, none)

/-- The items of a list, from before a comma unless it is the first. -/
def scanItems : Nat → Bool → Cursor → List Node × Ending × Option Cursor
  | 0, _, c => ([], .broken (.same .openList c.place), none)
  | fuel + 1, isFirst, c =>
    let c := c.skipSpace
    let item (c : Cursor) : List Node × Ending × Option Cursor :=
      match scan fuel c with
      | (n, none) => ([n], .broken (.same .openList c.place), none)
      | (n, some c) =>
        let (rest, ending, past) := scanItems fuel false c
        (n :: rest, ending, past)
    match c.rest with
    | [] => ([], .broken (.same .openList c.place), none)
    | ']' :: _ => ([], .closed (c.drop 1).place, some (c.drop 1))
    | ',' :: _ =>
      if isFirst then item c
      else
        let c := (c.drop 1).skipSpace
        match c.rest with
        | ']' :: _ =>
          ([], .broken { reading := (.trailingComma, c.peek), passing := (.valueExpected, c.peek) },
            none)
        | _ => item c
    | _ :: _ =>
      if isFirst then item c else ([], .broken (.same .listCommaExpected c.peek), none)

/-- The entries of a map, from before a comma unless it is the first. -/
def scanEntries : Nat → Bool → Cursor → List (Node × Place × Node) × Ending × Option Cursor
  | 0, _, c => ([], .broken (.same .openMap c.place), none)
  | fuel + 1, isFirst, c =>
    let c := c.skipSpace
    let entry (c : Cursor) : List (Node × Place × Node) × Ending × Option Cursor :=
      match textNode c with
      | (.broken b _, _) => ([], .broken b, none)
      | (_, none) => ([], .broken (.same .openText c.place), none)
      | (key, some c) =>
        let c := c.skipSpace
        match c.rest with
        | [] => ([(key, c.place, .broken (.same .openMap c.place) c.place)], .closed c.place, none)
        | ':' :: _ =>
          match scan fuel (c.drop 1) with
          | (n, none) => ([(key, c.place, n)], .closed c.place, none)
          | (n, some after) =>
            let (rest, ending, past) := scanEntries fuel false after
            ((key, c.place, n) :: rest, ending, past)
        | _ =>
          ([(key, c.place, .broken (.same .colonExpected c.peek) c.peek)], .closed c.place, none)
    match c.rest with
    | [] => ([], .broken (.same .openMap c.place), none)
    | '\x7d' :: _ => ([], .closed (c.drop 1).place, some (c.drop 1))
    | ',' :: _ =>
      if isFirst then ([], .broken (.same .keyNotText c.peek), none)
      else
        let c := (c.drop 1).skipSpace
        match c.rest with
        | [] =>
          ([], .broken { reading := (.noValue, c.place), passing := (.openMap, c.place) }, none)
        | '"' :: _ => entry c
        | '\x7d' :: _ =>
          ([], .broken { reading := (.trailingComma, c.peek), passing := (.keyNotText, c.peek) },
            none)
        | _ => ([], .broken (.same .keyNotText c.peek), none)
    | '"' :: _ =>
      if isFirst then entry c else ([], .broken (.same .mapCommaExpected c.peek), none)
    | _ :: _ =>
      ([], .broken (.same (if isFirst then .keyNotText else .mapCommaExpected) c.peek), none)

end

/-- What is wrong with a text, in words, and where if that is known. -/
def message : ReadError → String
  | .fault f p => f.message ++ p.suffix
  | .mismatch m location => m.message .json ++ (location.map fun l => l.place.suffix).getD ""

/-- Reads a whole text: a value, and after it nothing but blanks. -/
def read (r : Reader α) (s : String) : Except ReadError α := do
  let c := Cursor.ofText s
  let (node, past) := scan (2 * c.rest.length + 2) c
  let a ← r (.ofMedium .jsonText) node
  match past.map Cursor.skipSpace with
  | some ⟨ch :: rest, p⟩ => .error (.fault .trailingCharacters (Cursor.peek ⟨ch :: rest, p⟩))
  | _ => .ok a

/-- A whole text as plain data: maps are sorted by name, and of entries under one name
the last stays. -/
def readDatum (s : String) : Except ReadError Datum :=
  Datum.sorted <$> read (fun setting n => n.toDatum setting) s

end FleetJobs.Json
