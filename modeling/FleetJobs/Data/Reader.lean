import FleetJobs.Data.Reference

/-! Readers of values: functions from a node to a typed value, or to the first thing
that is wrong.

A reader works in a `Setting`: the medium that the node comes from, the path to it,
how many lists and maps may still be opened inside it, and what references stand for.
It is handed the value itself, never a reference (`Setting.resolve`). A mismatch is
located at the innermost value that was being read; values that were taken out of
their text beforehand have no place of their own and take that of the value around
them. -/
namespace FleetJobs

section

variable {ε ε' α β : Type} {x : Except ε α} {f : α → Except ε β}

/-- One thing after another comes to something if both do. -/
theorem bind_eq_ok {b : β} : (x >>= f) = .ok b ↔ ∃ a, x = .ok a ∧ f a = .ok b := by
  cases x <;> simp [bind, Except.bind]

/-- The first of the two that goes wrong is what is wrong. -/
theorem bind_eq_error {e : ε} :
    (x >>= f) = .error e ↔ x = .error e ∨ ∃ a, x = .ok a ∧ f a = .error e := by
  cases x <;> simp [bind, Except.bind]

theorem mapError_eq_ok {g : ε → ε'} {a : α} : x.mapError g = .ok a ↔ x = .ok a := by
  constructor
  · intro h
    cases x <;> cases h
    rfl
  · rintro rfl
    rfl

end

end FleetJobs

namespace FleetJobs.Data

/-- Where values are read from. Data that was taken out of a text to be read later is
a `buffer`; a `tree` never had a text. -/
inductive Medium where
  | jsonText
  | yamlText
  | tree
  | buffer (words : Wording)

def Medium.words : Medium → Wording
  | jsonText | tree => .json
  | yamlText => .yaml
  | buffer w => w

/-- One step from a value to a part of it. -/
inductive Step where
  | item (index : Nat)
  | key (name : String)
  | unnamed
  deriving DecidableEq, Repr

/-- The way to a value from the whole document, last step first. -/
abbrev Path := List Step

namespace Path

/-- The path as messages show it; the whole document is a point. -/
def render : Path → String
  | [] => "."
  | .item i :: parent => render parent ++ s!"[{i}]"
  | [.key name] => name
  | .key name :: parent => render parent ++ "." ++ name
  | [.unnamed] => "?"
  | .unnamed :: parent => render parent ++ ".?"

end Path

structure Location where
  path : Path
  place : Place
  deriving DecidableEq, Repr

inductive ReadError where
  | fault (cause : Fault) (place : Place)
  | mismatch (cause : Mismatch) (location : Option Location)
  deriving DecidableEq, Repr

structure Setting where
  medium : Medium
  path : Path
  room : Nat
  references : References

/-- How many lists and maps may stand inside one another: as many as a JSON text may
nest before the next is refused, and one more in YAML. -/
def Setting.ofMedium : Medium → Setting
  | .yamlText => ⟨.yamlText, [], 128, .none⟩
  | m => ⟨m, [], 127, .none⟩

abbrev Reader (α : Type) := Setting → Node → Except ReadError α

namespace Setting

/-- Where a mismatch at a place is reported. -/
def locate (s : Setting) (p : Place) : Option Location :=
  match s.medium with
  | .jsonText | .yamlText => some ⟨s.path, p⟩
  | .tree | .buffer _ => none

def refuse (s : Setting) (p : Place) (m : Mismatch) : ReadError := .mismatch m (s.locate p)

/-- The value that a node stands for. -/
def resolve (s : Setting) (n : Node) : Node := s.references.resolve n

/-- The setting of a part. -/
def down (s : Setting) (step : Step) : Setting := { s with path := step :: s.path }

/-- The setting inside a list or map, unless it stands too deep. -/
def enter (s : Setting) (start : Place) : Except ReadError Setting :=
  match s.medium, s.room with
  | .jsonText, 0 => .error (.fault .tooDeep start.next)
  | .yamlText, 0 => .error (.fault .tooDeep start)
  | _, room => .ok { s with room := room - 1 }

def trouble (s : Setting) (p : Place) : Trouble → ReadError
  | .fault f q => .fault f q
  | .mismatch m => s.refuse p m

end Setting

/-- A mismatch that has no location yet gets this one. -/
def ReadError.locatedAt (location : Option Location) : ReadError → ReadError
  | mismatch m none => .mismatch m location
  | e => e

/-- The refusal of a node that is not of the expected kind. -/
def wrongKind (s : Setting) (n : Node) (expected : String) : ReadError :=
  match n with
  | .scalar v _ stop =>
    match v.atom with
    | .ok a => s.refuse stop (.wrongType a.found expected)
    | .error t => s.trouble stop t
  | .list _ start _ => s.refuse start (.wrongType .list expected)
  | .map _ start _ => s.refuse start (.wrongType .map expected)
  | .broken b _ => .fault b.reading.1 b.reading.2
  | .reference _ => .fault .tooDeep nowhere

namespace Reader

/-- A text; in a notation without quotes any value without parts is one. -/
def textFor (expected : String) : Reader String := fun s n =>
  match n with
  | .scalar ⟨_, some v, _, _⟩ _ _ => .ok v
  | .scalar ⟨.ok (.text v), none, _, _⟩ _ _ => .ok v
  | n => .error (wrongKind s n expected)

def text : Reader String := textFor "a string"

def boolean : Reader Bool := fun s n =>
  match n with
  | .scalar ⟨.ok (.boolean b), _, _, _⟩ _ _ => .ok b
  | n => .error (wrongKind s n "a boolean")

/-- An integer with bounds, known to messages by a name. -/
def integer (low high : Int) (name : String) : Reader Int := fun s n =>
  match n with
  | .scalar ⟨.ok (.integer i), _, _, _⟩ _ stop =>
    if low ≤ i ∧ i ≤ high then .ok i
    else .error (s.refuse stop (.wrongValue (.integer i) name))
  | n => .error (wrongKind s n name)

def uint16 : Reader UInt16 := fun s n => (fun i : Int => UInt16.ofNat i.toNat) <$> integer 0 65535 "u16" s n

def uint32 : Reader UInt32 := fun s n =>
  (fun i : Int => UInt32.ofNat i.toNat) <$> integer 0 4294967295 "u32" s n

def uint64 : Reader UInt64 := fun s n =>
  (fun i : Int => UInt64.ofNat i.toNat) <$> integer 0 18446744073709551615 "u64" s n

/-- A position in a list. -/
def index : Reader Nat := fun s n => Int.toNat <$> integer 0 18446744073709551615 "usize" s n

def int32 : Reader Int32 := fun s n => Int32.ofInt <$> integer (-2147483648) 2147483647 "i32" s n

/-- A flag told as a boolean, or as an integer that is zero for no. -/
def flag : Reader Bool := fun s n =>
  match n with
  | .scalar ⟨.ok (.boolean b), _, _, _⟩ _ _ => .ok b
  | .scalar ⟨.ok (.integer i), _, _, _⟩ _ _ => .ok (i != 0)
  | n => .error (wrongKind s n "boolean or integer")

def instant : Reader Calendar.Instant := fun s n => do
  let v ← textFor "an RFC 3339 formatted date and time string" s n
  match Calendar.Instant.read v, n with
  | .ok t, _ => .ok t
  | .error e, .scalar _ _ stop => .error (s.refuse stop (.badInstant e))
  | .error e, _ => .error (.mismatch (.badInstant e) none)

/-- A value that may be absent. -/
def optional (r : Reader α) : Reader (Option α) := fun s n =>
  match n with
  | .scalar ⟨_, _, .ok true, _⟩ _ _ => .ok none
  | .scalar ⟨_, _, .error m, _⟩ _ _ => .error (.mismatch m none)
  | n => some <$> r s n

/-- Items of a list, counted from `i`. -/
def items (r : Reader α) (s : Setting) : Nat → List Node → Except ReadError (List α)
  | _, [] => .ok []
  | i, n :: rest => do
    let a ← r (s.down (.item i)) (s.resolve n)
    let as ← items r s (i + 1) rest
    .ok (a :: as)

/-- A list must be closed once its items are read. -/
def closed : Ending → Except ReadError Unit
  | .closed _ => .ok ()
  | .broken b => .error (.fault b.reading.1 b.reading.2)

def list (r : Reader α) : Reader (List α) := fun s n =>
  match n with
  | .list ns start ending => do
    let inner ← s.enter start
    let as ← (items r inner 0 ns).mapError (·.locatedAt (s.locate start))
    closed ending
    .ok as
  | n => .error (wrongKind s n "a sequence")

end Reader

/-- The name that a key shows in a path. -/
def keyStep : Node → Step
  | .scalar ⟨_, some v, _, _⟩ _ _ => .key v
  | .scalar ⟨.ok (.text v), none, _, _⟩ _ _ => .key v
  | _ => .unnamed

namespace Node

mutual

/-- The value as plain data; `follow` reads the one of a number. -/
def toDatumBy (follow : Setting → Nat → Except ReadError Datum) (s : Setting) :
    Node → Except ReadError Datum
  | .scalar v _ stop =>
    match v.atom with
    | .error t => .error (s.trouble stop t)
    | .ok .null => .ok .null
    | .ok (.boolean b) => .ok (.boolean b)
    | .ok (.integer i) => .ok (.integer i)
    | .ok (.wideInteger i) => .error (s.refuse stop (.wrongType (.wideInteger i) "any value"))
    | .ok (.real x) => .ok (.real x)
    | .ok (.text t) => .ok (.text t)
  | .list items start ending =>
    match s.enter start with
    | .error e => .error e
    | .ok inner => do
      let ds ← toItemsBy follow inner 0 items
      Reader.closed ending
      .ok (.list ds)
  | .map entries start ending =>
    match s.enter start with
    | .error e => .error e
    | .ok inner => do
      let ds ← toEntriesBy follow inner entries
      Reader.closed ending
      .ok (.map ds)
  | .broken b _ => .error (.fault b.reading.1 b.reading.2)
  | .reference i => follow s i

def toItemsBy (follow : Setting → Nat → Except ReadError Datum) (s : Setting) :
    Nat → List Node → Except ReadError (List Datum)
  | _, [] => .ok []
  | i, n :: rest => do
    let d ← toDatumBy follow (s.down (.item i)) n
    let ds ← toItemsBy follow s (i + 1) rest
    .ok (d :: ds)

def toEntriesBy (follow : Setting → Nat → Except ReadError Datum) (s : Setting) :
    List (Node × Place × Node) → Except ReadError (List (Datum × Datum))
  | [] => .ok []
  | (k, _, v) :: rest => do
    let key ← toDatumBy follow s k
    let value ← toDatumBy follow (s.down (keyStep k)) v
    let ds ← toEntriesBy follow s rest
    .ok ((key, value) :: ds)

end

/-- The value of a number as plain data, by following at most so many references one
inside the other. -/
def follow : Nat → Setting → Nat → Except ReadError Datum
  | 0, _, _ => .error (.fault .tooDeep nowhere)
  | depth + 1, s, i =>
    match s.references.find? i with
    | some v => v.value.toDatumBy (follow depth) s
    | none => .error (.fault .tooDeep nowhere)

/-- The value as plain data, taken out of its text. Between two references that are
followed one inside the other a list or map is opened, so the room bounds them too. -/
def toDatum (s : Setting) (n : Node) : Except ReadError Datum :=
  if s.references.limit < n.weight s.references then .error (.fault .tooManyReferences nowhere)
  else n.toDatumBy (follow (s.room + 1)) s

/-- Items of a list as plain data, counted from `i`. -/
def toItems (s : Setting) (i : Nat) (items : List Node) : Except ReadError (List Datum) :=
  if s.references.limit < weightItems s.references items then
    .error (.fault .tooManyReferences nowhere)
  else toItemsBy (follow (s.room + 1)) s i items

end Node

end FleetJobs.Data
