import FleetJobs.Yaml.Token
import FleetJobs.Data.Fields

/-! YAML texts as documents.

Tokens are grouped into values by the grammar of the notation. A name refers to the
value that was given it last; values with a name are numbered, and a reference keeps
the number (`Data/Reference`). -/
namespace FleetJobs.Yaml

open FleetJobs.Data

/-- Tokens being grouped. Values with a name are numbered in order; `names` says which
number a name has now, and `values` holds those that are complete. -/
structure Grouping where
  tokens : List Token
  names : List (String × Nat)
  values : List Referent
  count : Nat

abbrev Group := Except (Flaw × Place)

namespace Grouping

def peek (g : Grouping) : Token := g.tokens.headD ⟨.streamEnd, nowhere⟩

def kind (g : Grouping) : TokenKind := g.peek.kind

def place (g : Grouping) : Place := g.peek.place

def skip (g : Grouping) : Grouping := { g with tokens := g.tokens.drop 1 }

/-- Gives a name to the value that comes next. -/
def named (g : Grouping) (name : String) : Nat × Grouping :=
  (g.count, { g with names := (name, g.count) :: g.names, count := g.count + 1 })

/-- The named value is complete. -/
def complete (g : Grouping) (number : Option Nat) (n : Node) : Grouping :=
  match number with
  | some i => { g with values := ⟨i, n, n.weight ⟨g.values, 0⟩⟩ :: g.values }
  | none => g

/-- Refuses the next token; one that the text breaks off with tells its own flaw. -/
def fail (g : Grouping) (f : Flaw) : Group α :=
  match g.kind with
  | .broken own => .error (own, g.place)
  | _ => .error (f, g.place)

/-- A reference to the value that has a name now. -/
def refer (g : Grouping) (name : String) : Group Node :=
  match g.names.lookup name with
  | none => g.fail .unknownAnchor
  | some i => .ok (.reference i)

/-- A value that the text leaves out. -/
def omitted (p : Place) : Node := .scalar (scalarOf true none "~") p p

/-- The name and the tag in front of a value, in either order. -/
def properties (g : Grouping) : Option Nat × Option Tag × Grouping :=
  match g.kind with
  | .anchor name =>
    let (i, g) := g.skip.named name
    match g.kind with
    | .tag t => (some i, some t, g.skip)
    | _ => (some i, none, g)
  | .tag t =>
    let g := g.skip
    match g.kind with
    | .anchor name =>
      let (i, g) := g.skip.named name
      (some i, some t, g)
    | _ => (none, some t, g)
  | _ => (none, none, g)

def listNode (items : List Node) (p : Place) : Node := .list items p (.closed p)

/-- Entries of a map are reported at its start. -/
def mapNode (entries : List (Node × Node)) (p : Place) : Node :=
  .map (entries.map fun e => (e.1, p, e.2)) p (.closed p)

mutual

/-- The value that comes next. Lists and maps that only indentation shows may stand
where `block` is on; with `bare`, also a list that is not indented. Every call uses up
a token or hands over to one that does. -/
def value : Nat → Bool → Bool → Grouping → Group (Node × Grouping)
  | 0, _, _, g => g.fail .nodeExpected
  | fuel + 1, block, bare, g => do
    match g.kind with
    | .alias name =>
      let n ← g.refer name
      .ok (n, g.skip)
    | _ =>
      let (number, tag, g) := g.properties
      let p := g.place
      let (n, g) ← match g.kind, block, bare with
        | .item, _, true => do
          let (items, g) ← bareItems fuel g
          .ok (listNode items p, g)
        | .scalar isPlain v, _, _ => .ok (.scalar (scalarOf isPlain tag v) p p, g.skip)
        | .listStart, _, _ => do
          let (items, g) ← bracketItems fuel true g.skip
          .ok (listNode items p, g)
        | .mapStart, _, _ => do
          let (entries, g) ← bracketEntries fuel true g.skip
          .ok (mapNode entries p, g)
        | .blockListStart, true, _ => do
          let (items, g) ← blockItems fuel g.skip
          .ok (listNode items p, g)
        | .blockMapStart, true, _ => do
          let (entries, g) ← blockEntries fuel g.skip
          .ok (mapNode entries p, g)
        | _, _, _ =>
          if number.isSome || tag.isSome then .ok (.scalar (scalarOf true tag "") p p, g)
          else g.fail .nodeExpected
      .ok (n, g.complete number n)

/-- Items of a list that indentation shows, up to where it closes. -/
def blockItems : Nat → Grouping → Group (List Node × Grouping)
  | 0, g => g.fail .itemExpected
  | fuel + 1, g => do
    match g.kind with
    | .blockEnd => .ok ([], g.skip)
    | .item =>
      let g := g.skip
      let (n, g) ← match g.kind with
        | .item | .blockEnd => .ok (omitted g.place, g)
        | _ => value fuel true false g
      let (rest, g) ← blockItems fuel g
      .ok (n :: rest, g)
    | _ => g.fail .itemExpected

/-- Items of a list that is not indented, as long as there are any. -/
def bareItems : Nat → Grouping → Group (List Node × Grouping)
  | 0, g => .ok ([], g)
  | fuel + 1, g => do
    match g.kind with
    | .item =>
      let g := g.skip
      let (n, g) ← match g.kind with
        | .item | .key | .value | .blockEnd => .ok (omitted g.place, g)
        | _ => value fuel true false g
      let (rest, g) ← bareItems fuel g
      .ok (n :: rest, g)
    | _ => .ok ([], g)

/-- Entries of a map that indentation shows, up to where it closes. -/
def blockEntries : Nat → Grouping → Group (List (Node × Node) × Grouping)
  | 0, g => g.fail .mapKeyExpected
  | fuel + 1, g => do
    match g.kind with
    | .blockEnd => .ok ([], g.skip)
    | .key | .value =>
      let (k, g) ← match g.kind with
        | .value => .ok (omitted g.place, g)
        | _ =>
          let g := g.skip
          match g.kind with
          | .key | .value | .blockEnd => .ok (omitted g.place, g)
          | _ => value fuel true true g
      let (v, g) ← match g.kind with
        | .value =>
          let g := g.skip
          match g.kind with
          | .key | .value | .blockEnd => .ok (omitted g.place, g)
          | _ => value fuel true true g
        | _ => .ok (omitted g.place, g)
      let (rest, g) ← blockEntries fuel g
      .ok ((k, v) :: rest, g)
    | _ => g.fail .mapKeyExpected

/-- Items of a list in brackets, from before a comma unless it is the first. An item
with a colon in it is a map of one entry. -/
def bracketItems : Nat → Bool → Grouping → Group (List Node × Grouping)
  | 0, _, g => g.fail .listCommaExpected
  | fuel + 1, isFirst, g => do
    match g.kind, isFirst with
    | .listEnd, _ => .ok ([], g.skip)
    | .comma, false => bracketItem fuel g.skip
    | _, true => bracketItem fuel g
    | _, false => g.fail .listCommaExpected

def bracketItem : Nat → Grouping → Group (List Node × Grouping)
  | 0, g => g.fail .listCommaExpected
  | fuel + 1, g => do
    match g.kind with
    | .listEnd => .ok ([], g.skip)
    | .key =>
      let p := g.place
      let g := g.skip
      let (k, g) ← match g.kind with
        | .value | .comma | .listEnd => .ok (omitted g.place, g.skip)
        | _ => value fuel false false g
      let (v, g) ← match g.kind with
        | .value =>
          let g := g.skip
          match g.kind with
          | .comma | .listEnd => .ok (omitted g.place, g)
          | _ => value fuel false false g
        | _ => .ok (omitted g.place, g)
      let (rest, g) ← bracketItems fuel false g
      .ok (mapNode [(k, v)] p :: rest, g)
    | _ =>
      let (n, g) ← value fuel false false g
      let (rest, g) ← bracketItems fuel false g
      .ok (n :: rest, g)

/-- Entries of a map in braces, from before a comma unless it is the first. A key may
stand without a value, and a value without a key. -/
def bracketEntries : Nat → Bool → Grouping → Group (List (Node × Node) × Grouping)
  | 0, _, g => g.fail .mapCommaExpected
  | fuel + 1, isFirst, g => do
    match g.kind, isFirst with
    | .mapEnd, _ => .ok ([], g.skip)
    | .comma, false => bracketEntry fuel g.skip
    | _, true => bracketEntry fuel g
    | _, false => g.fail .mapCommaExpected

def bracketEntry : Nat → Grouping → Group (List (Node × Node) × Grouping)
  | 0, g => g.fail .mapCommaExpected
  | fuel + 1, g => do
    match g.kind with
    | .mapEnd => .ok ([], g.skip)
    | .key | .value =>
      let (k, g) ← match g.kind with
        | .value => .ok (omitted g.place, g)
        | _ =>
          let g := g.skip
          match g.kind with
          | .value | .comma | .mapEnd => .ok (omitted g.place, g)
          | _ => value fuel false false g
      let (v, g) ← match g.kind with
        | .value =>
          let p := g.place
          let g := g.skip
          match g.kind with
          | .comma | .mapEnd => .ok (omitted p, g)
          | _ => value fuel false false g
        | _ => .ok (omitted g.place, g)
      let (rest, g) ← bracketEntries fuel false g
      .ok ((k, v) :: rest, g)
    | _ =>
      let (k, g) ← value fuel false false g
      let v := omitted g.place
      let (rest, g) ← bracketEntries fuel false g
      .ok ((k, v) :: rest, g)

end

def skipDirectives : Nat → Grouping → Grouping
  | 0, g => g
  | fuel + 1, g =>
    match g.kind with
    | .directive => skipDirectives fuel g.skip
    | _ => g

def skipDocumentEnds : Nat → Grouping → Grouping
  | 0, g => g
  | fuel + 1, g =>
    match g.kind with
    | .documentEnd => skipDocumentEnds fuel g.skip
    | _ => g

/-- The value of a document that begins with a mark. -/
def content (fuel : Nat) (g : Grouping) : Group (Node × Grouping) :=
  match g.kind with
  | .directive | .documentStart | .documentEnd | .streamEnd => .ok (omitted g.place, g)
  | _ => value fuel true false g

/-- The documents of a stream. Only the first may begin without a mark; names do not
reach from one into the next. -/
def documents : Nat → Bool → Grouping → Group (List Node × Grouping)
  | 0, _, g => g.fail .documentStart
  | fuel + 1, isFirst, g => do
    let size := 4 * g.tokens.length + 4
    let g := if isFirst then g else skipDocumentEnds size g
    let g := { g with names := [] }
    let further (n : Node) (g : Grouping) : Group (List Node × Grouping) := do
      let (rest, g) ← documents fuel false (if g.kind = .documentEnd then g.skip else g)
      .ok (n :: rest, g)
    match g.kind, isFirst with
    | .streamEnd, _ => .ok ([], g)
    | .directive, _ | .documentStart, _ | _, false =>
      let g := skipDirectives size g
      if g.kind = .documentStart then
        let (n, g) ← content size g.skip
        further n g
      else g.fail .documentStart
    | _, true =>
      let (n, g) ← value size true false g
      further n g

end Grouping

/-- Why a text gives no value. A text that says something else than its reader wants may
be data all the same, or neither. -/
inductive ReadError where
  | flawed (cause : Flaw) (place : Place)
  | noDocument
  | severalDocuments
  | content (cause : Data.ReadError) (isData : Bool)
  deriving DecidableEq, Repr

/-- What is wrong, in words. A mismatch names the way to its value, unless that is the
whole document. -/
def ReadError.message : ReadError → String
  | flawed f p => f.message ++ p.suffix
  | noDocument => "EOF while parsing a value"
  | severalDocuments => "deserializing from YAML containing more than one document is not supported"
  | content (.fault f _) _ => f.message
  | content (.mismatch m none) _ => m.message .yaml
  | content (.mismatch m (some l)) _ =>
    let lead := if l.path.isEmpty then "" else l.path.render ++ ": "
    lead ++ m.message .yaml ++ l.place.suffix

/-- Whether the text is one document that can be read as data and only says something
else than its reader wants. -/
def ReadError.isMismatch : ReadError → Bool
  | content _ isData => isData
  | _ => false

/-- The setting for a stream of documents. To read a value whole, a hundred references
may be followed for every part of the stream. -/
def Setting.ofStream (nodes : List Node) (values : List Referent) : Setting :=
  { Data.Setting.ofMedium .yamlText with
    references := ⟨values, 100 * nodes.foldr (fun n parts => n.parts + parts) 0⟩ }

/-- Reads a whole text, which must be one document. -/
def read (r : Reader α) (text : String) : Except ReadError α := do
  let ts := tokens text
  let (nodes, g) ← (Grouping.documents (ts.length + 1) true ⟨ts, [], [], 0⟩).mapError
    fun e => .flawed e.1 e.2
  match nodes with
  | [] => .error .noDocument
  | n :: rest =>
    let s := Setting.ofStream nodes g.values
    match r s n with
    | .ok a => if rest.isEmpty then .ok a else .error .severalDocuments
    | .error e => .error (.content e (rest.isEmpty && (n.toDatum s).isOk))

end FleetJobs.Yaml
