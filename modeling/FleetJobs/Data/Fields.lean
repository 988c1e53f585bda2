import FleetJobs.Data.Reader

/-! Records read field by field.

A record stands in a document as a map from field names, or as a list of its fields
in order. `Fields α` says how both are read, and is built up from single fields with
`required`, `optional`, `orElse` and `and`. In a map the fields may come in any
order, yet of several things wrong the first in the text is reported, then fields
that are missing, then what an open record makes of its other entries: every failure
carries its rank, and `both` keeps the lower one. -/
namespace FleetJobs.Data

/-- A result whose failure tells its rank: the number of the entry it shows at, or a
number past the last entry. -/
abbrev Ranked (α : Type) := Except (Nat × ReadError) α

/-- Both results; of two failures the one that shows first. -/
def Ranked.both (f : Ranked (α → β)) (a : Ranked α) : Ranked β :=
  match f, a with
  | .ok f, .ok a => .ok (f a)
  | .error e, .ok _ => .error e
  | .ok _, .error e => .error e
  | .error e, .error e' => .error (if e'.1 < e.1 then e' else e)

/-- An entry of a map whose key has been read: `name` is a field of the record, if the
key is one. -/
structure Claim where
  rank : Nat
  name : Option String
  key : Node
  colon : Place
  value : Node

/-- A map that is being read as a record. -/
structure Opened where
  claims : List Claim
  count : Nat
  close : Place
  /-- The entries that are no fields, as data; only open records keep them. -/
  others : List (Datum × Datum)

namespace Opened

/-- The rank of a field that is missing. -/
def missing (o : Opened) : Nat := o.count + 1

/-- The rank of what is wrong with the entries that are no fields. -/
def leftover (o : Opened) : Nat := o.count + 2

def find? (o : Opened) (name : String) : Option Claim :=
  o.claims.find? fun c => c.name == some name

end Opened

/-- A list that is being read as a record: the items left, and how many are gone. -/
structure Row where
  items : List Node
  taken : Nat
  ending : Ending

/-- How the fields of a record are read. -/
structure Fields (α : Type) where
  names : List String
  ofMap : Setting → Opened → Ranked α
  /-- Wants the words for what a list too short should have been. -/
  ofRow : Setting → String → Row → Except ReadError (α × Row)

namespace Fields

def pure (a : α) : Fields α :=
  ⟨[], fun _ _ => .ok a, fun _ _ row => .ok (a, row)⟩

/-- One more field. -/
def and (f : Fields (α → β)) (g : Fields α) : Fields β where
  names := f.names ++ g.names
  ofMap s o := Ranked.both (f.ofMap s o) (g.ofMap s o)
  ofRow s expected row := do
    let (h, row) ← f.ofRow s expected row
    let (a, row) ← g.ofRow s expected row
    .ok (h a, row)

/-- A field that is not there, in a list. -/
def short (s : Setting) (expected : String) (row : Row) : ReadError :=
  match row.ending with
  | .closed p => s.refuse p (.wrongLength row.taken expected)
  | .broken b => .fault b.reading.1 b.reading.2

/-- A field by name; `absentMap` and `absentRow` stand in where it is missing. -/
def field (name : String) (r : Reader α) (absentMap absentRow : Option α) : Fields α where
  names := [name]
  ofMap s o :=
    match o.find? name with
    | some c => (r (s.down (keyStep c.key)) (s.resolve c.value)).mapError fun e => (c.rank, e)
    | none =>
      match absentMap with
      | some a => .ok a
      | none => .error (o.missing, s.refuse o.close (.missingField name))
  ofRow s expected row :=
    match row.items, row.ending, absentRow with
    | n :: rest, _, _ => do
      let a ← r (s.down (.item row.taken)) (s.resolve n)
      .ok (a, { row with items := rest, taken := row.taken + 1 })
    | [], .closed _, some a => .ok (a, row)
    | [], _, _ => .error (short s expected row)

def required (name : String) (r : Reader α) : Fields α := field name r none none

/-- A field that has a value even if it is left out. -/
def orElse (name : String) (r : Reader α) (value : α) : Fields α :=
  field name r (some value) (some value)

/-- A field whose value may be absent; it may also be left out. -/
def optional (name : String) (r : Reader α) : Fields (Option α) :=
  orElse name (Reader.optional r) none

/-- A field whose value may be absent, but whose place in a list is kept. -/
def nullable (name : String) (r : Reader α) : Fields (Option α) :=
  field name (Reader.optional r) (some none) none

/-- What an open record makes of the entries that are no fields. It stands in no list. -/
def leftover (read : Setting → List (Datum × Datum) → Except ReadError α) : Fields α where
  names := []
  ofMap s o :=
    (read s o.others).mapError fun e => (o.leftover, e.locatedAt (s.locate o.close))
  ofRow s expected row := .error (short s expected row)

end Fields

/-- The name that a key gives. In data taken out of a text a field may be named by its
number; a number below zero names none. -/
def keyName (s : Setting) (names : List String) (key : Node) : Except ReadError String :=
  match s.medium, key with
  | .buffer _, .scalar ⟨.ok (.integer i), none, _, _⟩ _ _ =>
    if 0 ≤ i then .ok ((names[i.toNat]?).getD "") else .error (wrongKind s key "field identifier")
  | _, key => Reader.textFor "field identifier" s key

/-- The entries with the fields that they claim. A key that is no name, or the name of
a field that is already there, ends the walk. -/
def claimsFrom (s : Setting) (names : List String) :
    Nat → List String → List Entry → List Claim × Option (Nat × ReadError)
  | _, _, [] => ([], none)
  | i, seen, (key, colon, value) :: rest =>
    match keyName s names (s.resolve key) with
    | .error e => ([], some (i, e))
    | .ok name =>
      if !names.contains name then
        let (claims, e) := claimsFrom s names (i + 1) seen rest
        (⟨i, none, key, colon, value⟩ :: claims, e)
      else if seen.contains name then
        ([], some (i, s.refuse colon (.duplicateField name)))
      else
        let (claims, e) := claimsFrom s names (i + 1) (name :: seen) rest
        (⟨i, some name, key, colon, value⟩ :: claims, e)

/-- What is wrong with entries that are passed over. -/
def passingFault (s : Setting) (claims : List Claim) : Option (Nat × ReadError) :=
  match s.medium with
  | .jsonText =>
    claims.findSome? fun c =>
      if c.name.isSome then none
      else c.value.passing.map fun f => (c.rank, .fault f.1 f.2)
  | _ => none

/-- The entries that are no fields, as data. -/
def buffered (s : Setting) : List Claim → Ranked (List (Datum × Datum))
  | [] => .ok []
  | c :: rest =>
    if c.name.isSome then buffered s rest
    else
      match Reader.textFor "field identifier" s (s.resolve c.key), c.value.toDatum (s.down (keyStep c.key)) with
      | .ok k, .ok v => (buffered s rest).map ((.text k, v) :: ·)
      | .error e, _ | _, .error e => .error (c.rank, e)

/-- The failure of the lower rank, if there is any. -/
def lower : Option (Nat × ReadError) → Option (Nat × ReadError) → Option (Nat × ReadError)
  | none, b => b
  | a, none => a
  | some a, some b => some (if b.1 < a.1 then b else a)

def endingFault (count : Nat) : Ending → Option (Nat × ReadError)
  | .closed _ => none
  | .broken b => some (count, .fault b.reading.1 b.reading.2)

/-- The place after a map; one that does not end has none. -/
def Ending.place (start : Place) : Ending → Place
  | closed p => p
  | broken _ => start

/-- The fields of a map. `isOpen` records take their other entries as data. -/
def readMap (isOpen : Bool) (fields : Fields α) (s : Setting) (entries : List Entry) (start : Place)
    (ending : Ending) : Except ReadError α :=
  let (claims, wrongKey) := claimsFrom s fields.names 0 [] entries
  let others := if isOpen then buffered s claims else .ok []
  let count := entries.length
  let passed := if isOpen then none else passingFault s claims
  let wrongOther := match others with
    | .ok _ => none
    | .error e => some e
  let shape := lower (lower wrongKey passed) (lower wrongOther (endingFault count ending))
  let opened : Opened := ⟨claims, count, ending.place start, others.toOption.getD []⟩
  match fields.ofMap s opened, shape with
  | .ok a, none => .ok a
  | .ok _, some e => .error e.2
  | .error e, none => .error e.2
  | .error e, some e' => .error (if e'.1 ≤ e.1 then e'.2 else e.2)

/-- What is left of a list once the fields are read. Where a comma would have to come
next if there were more of them, anything but the end is too much. -/
def surplus (s : Setting) (close : Place) (row : Row) : Except ReadError Unit :=
  match row.items, row.ending with
  | [], .broken ⟨(.listCommaExpected, p), _, _⟩ => .error (.fault .trailingCharacters p)
  | [], ending => Reader.closed ending
  | n :: rest, _ =>
    let total := row.taken + (n :: rest).length
    let sized (k : Nat) (one many : String) : String :=
      if k = 1 then one else s!"{k} " ++ many
    .error <| match s.medium with
    | .jsonText =>
      match n with
      | .broken _ front => .fault .trailingCharacters front
      | n => .fault .trailingCharacters (n.start?.getD close).next
    | .yamlText =>
      s.refuse close (.wrongLength total ("sequence of " ++ sized row.taken "1 element" "elements"))
    | .tree => s.refuse close (.wrongLength total "fewer elements in array")
    | .buffer _ =>
      s.refuse close (.wrongLength total (sized row.taken "1 element in sequence" "elements in sequence"))

def readRow (expected : String) (fields : Fields α) (s : Setting) (nodes : List Node) (start : Place)
    (ending : Ending) : Except ReadError α := do
  let n := fields.names.length
  let sized := expected ++ " with " ++ (if n = 1 then "1 element" else s!"{n} elements")
  let (a, row) ← fields.ofRow s sized ⟨nodes, 0, ending⟩
  surplus s (ending.place start) row
  .ok a

namespace Reader

/-- A record whose other entries mean nothing; also as a list. `expected` is what
messages call it. What is wrong with a field and has no location is reported at the
record. -/
def record (expected : String) (fields : Fields α) : Reader α := fun s n =>
  match n with
  | .map entries start ending => do
    let inner ← s.enter start
    (readMap false fields inner entries start ending).mapError (·.locatedAt (s.locate start))
  | .list nodes start ending => do
    let inner ← s.enter start
    (readRow expected fields inner nodes start ending).mapError (·.locatedAt (s.locate start))
  | n => .error (wrongKind s n expected)

/-- A record that takes its other entries as part of one field; never a list. -/
def openRecord (expected : String) (fields : Fields α) : Reader α := fun s n =>
  match n with
  | .map entries start ending => do
    let inner ← s.enter start
    (readMap true fields inner entries start ending).mapError (·.locatedAt (s.locate start))
  | n => .error (wrongKind s n expected)

end Reader

end FleetJobs.Data
