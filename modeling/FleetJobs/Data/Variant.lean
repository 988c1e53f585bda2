import FleetJobs.Data.Fields

/-! Choices among named variants, in the four shapes in which records hold them.

- A bare choice (`Reader.choice`) is a name alone.
- A tagged union (`Reader.tagged`) is a map with the name under a tag and the fields
  of the variant beside it, or a list with the name in front.
- A union inside an open record (`Fields.union`) is a tagged union made of the
  entries that the record does not claim.
- A pair of tag and content (`Fields.tagAndContent`), also inside an open record,
  keeps the fields of the variant in a map of their own. -/
namespace FleetJobs.Data

/-- A bare text among known names. -/
def known (s : Setting) (place : Place) (cases : List (String × α)) (name : String) :
    Except ReadError α :=
  match cases.lookup name with
  | some a => .ok a
  | none => .error (s.refuse place (.unknownVariant name (cases.map (·.1))))

/-- The place at which a value is reported. -/
def Node.reportPlace : Node → Place
  | .scalar _ _ stop => stop
  | .list _ p _ | .map _ p _ => p
  | .broken _ front => front
  | .reference _ => nowhere

/-- The name of a variant, as a tag gives it. In data taken out of a text the variant
may be named by its number. -/
def tagName (s : Setting) (cases : List (String × α)) (n : Node) : Except ReadError α :=
  match s.medium, n with
  | .buffer _, .scalar ⟨.ok (.integer i), none, _, _⟩ _ stop =>
    if i < 0 then .error (wrongKind s n "variant identifier")
    else
      match cases[i.toNat]? with
      | some c => .ok c.2
      | none =>
        .error (s.refuse stop
          (.wrongValue (.integer i) s!"variant index 0 <= i < {cases.length}"))
  | _, n => do
    let name ← Reader.textFor "variant identifier" s n
    known s n.reportPlace cases name

/-- A value that says nothing. In data taken out of a text an empty map is one too. -/
def unit (s : Setting) (n : Node) : Except ReadError Unit :=
  match s.medium, n with
  | _, .scalar ⟨.ok .null, _, _, _⟩ _ _ => .ok ()
  | .buffer _, .map [] _ _ => .ok ()
  | _, n => .error (wrongKind s n "unit")

/-- A choice in a JSON text, as a map from the name to nothing. Behind that entry the
map must end. -/
def choiceInJson (s : Setting) (cases : List (String × α)) (entries : List Entry) (start : Place)
    (ending : Ending) : Except ReadError α := do
  match entries with
  | [] =>
    Reader.closed ending
    .error (.fault .valueExpected start.next)
  | (key, _, value) :: rest =>
    let a ← tagName s cases key
    unit (s.down (keyStep key)) value
    match rest, ending with
    | [], .closed _ => .ok a
    | [], .broken ⟨(.openMap, p), _, _⟩ => .error (.fault .openMap p)
    | [], .broken b => .error (.fault .valueExpected b.reading.2)
    | (next, _) :: _, _ => .error (.fault .valueExpected (next.start?.getD start))

/-- A choice in a YAML text, as a map from the name to nothing. Only what is wrong
within the key or the value is located there. -/
def choiceInYaml (typeName : String) (s : Setting) (cases : List (String × α)) (entries : List Entry) :
    Except ReadError α :=
  let wrongSize : ReadError := .mismatch (.wrongLength entries.length "map containing 1 entry") none
  match entries with
  | [] => .error wrongSize
  | (.scalar ⟨_, some name, _, _⟩ _ _, _, value) :: rest =>
    match cases.lookup name with
    | none => .error (.mismatch (.unknownVariant name (cases.map (·.1))) none)
    | some a => do
      unit (s.down (.key name)) (s.resolve value)
      if rest.isEmpty then .ok a else .error wrongSize
  | (key, _, _) :: _ => .error (wrongKind s (s.resolve key) s!"variant of enum `{typeName}`")

/-- A choice in plain data: the name, or a map from it to nothing. -/
def choiceInData (s : Setting) (cases : List (String × α)) (n : Node) : Except ReadError α :=
  match n with
  | .scalar ⟨.ok (.text name), _, _, _⟩ _ stop => known s stop cases name
  | .map [(key, _, value)] _ _ => do
    let a ← tagName s cases key
    unit s value
    .ok a
  | .map _ start _ => .error (s.refuse start (.wrongValue .map "map with a single key"))
  | n => .error (wrongKind s n "string or map")

namespace Reader

/-- A name alone. -/
def choice (typeName : String) (cases : List (String × α)) : Reader α := fun s n =>
  match s.medium, n with
  | .yamlText, .map entries _ _ => choiceInYaml typeName s cases entries
  | .yamlText, .list _ start _ => .error (s.refuse start (.wrongType .list "string or singleton map"))
  | .yamlText, .scalar ⟨_, some v, _, some label⟩ _ stop =>
    if (cases.lookup label).isSome then
      .error ((s.down (.key label)).refuse stop (.wrongType (.text v) "unit"))
    else known s stop cases v
  | .yamlText, n => textFor "variant identifier" s n >>= known s n.reportPlace cases
  | .jsonText, .map entries start ending => do
    let inner ← s.enter start
    choiceInJson inner cases entries start ending
  | .jsonText, .scalar ⟨.ok (.text v), _, _, _⟩ _ stop => known s stop cases v
  | .jsonText, .scalar ⟨.error (.fault .numberTooLarge _), _, _, _⟩ start _ =>
    .error (.fault .valueExpected start.next)
  | .jsonText, .scalar ⟨.error t, _, _, _⟩ _ stop => .error (s.trouble stop t)
  | .jsonText, .broken b _ => .error (.fault b.naming.1 b.naming.2)
  | .jsonText, n => .error (.fault .valueExpected ((n.start?.getD nowhere).next))
  | _, n => choiceInData s cases n

end Reader

/-- How the fields of a variant are read: there are none, or they form a record. -/
inductive Content (α : Type) where
  | nothing (value : α)
  | fields (fields : Fields α)

/-- A variant: its name in documents, its name in messages, and its fields. -/
structure Case (α : Type) where
  name : String
  label : String
  content : Content α

namespace Case

def options (cases : List (Case α)) : List (String × Case α) := cases.map fun c => (c.name, c)

/-- The rest of a tagged union: the entries beside the tag, or the items after it. -/
def read (c : Case α) (s : Setting) : Node → Except ReadError α
  | .list nodes start ending =>
    match c.content with
    | .nothing a => do
      surplus s start ⟨nodes, 0, ending⟩
      .ok a
    | .fields f => readRow s!"struct variant {c.label}" f s nodes start ending
  | .map entries start ending =>
    match c.content with
    | .nothing a => .ok a
    | .fields f => readMap false f s entries start ending
  | n => .error (wrongKind s n s!"struct variant {c.label}")

end Case

/-- The tag of a union and, as data, the other entries. -/
def splitTag (s : Setting) (tag : String) (cases : List (Case α)) :
    Option (Case α) → List Entry → Except ReadError (Option (Case α) × List (Datum × Datum))
  | found, [] => .ok (found, [])
  | found, (key, colon, value) :: rest => do
    let inner := s.down (keyStep key)
    match s.resolve key, found with
    | .scalar ⟨.ok (.text name), _, _, _⟩ _ _, some c =>
      if name = tag then .error (s.refuse colon (.duplicateField tag))
      else
        let d ← value.toDatum inner
        let (found, ds) ← splitTag s tag cases (some c) rest
        .ok (found, (.text name, d) :: ds)
    | .scalar ⟨.ok (.text name), _, _, _⟩ _ _, none =>
      if name = tag then
        let c ← tagName inner (Case.options cases) (s.resolve value)
        splitTag s tag cases (some c) rest
      else
        let d ← value.toDatum inner
        let (found, ds) ← splitTag s tag cases none rest
        .ok (found, (.text name, d) :: ds)
    | key, found => do
      let k ← key.toDatum s
      let d ← value.toDatum inner
      let (found, ds) ← splitTag s tag cases found rest
      .ok (found, (k, d) :: ds)

/-- The setting for data taken out of a text. -/
def Setting.buffered (s : Setting) : Setting := { s with medium := .buffer s.medium.words }

namespace Reader

/-- A union with the name of the variant under a tag. -/
def tagged (tag typeName : String) (cases : List (Case α)) : Reader α := fun s n =>
  match n with
  | .map entries start ending => do
    let inner ← s.enter start
    let located := fun e : ReadError => e.locatedAt (s.locate (ending.place start))
    let (found, rest) ← (splitTag inner tag cases none entries).mapError located
    closed ending
    match found with
    | none => .error (s.refuse (ending.place start) (.missingField tag))
    | some c => (c.read s.buffered (.ofDatum (.map rest))).mapError located
  | .list nodes start ending => do
    let inner ← s.enter start
    match nodes with
    | [] =>
      closed ending
      .error (s.refuse (ending.place start) (.missingField tag))
    | first :: others =>
      let c ← tagName (inner.down (.item 0)) (Case.options cases) (inner.resolve first)
      let rest ← Node.toItems inner 1 others
      closed ending
      (c.read s.buffered (.ofDatum (.list rest))).mapError
        fun e => e.locatedAt (s.locate (ending.place start))
  | n => .error (wrongKind s n ("internally tagged enum " ++ typeName))

end Reader

namespace Fields

/-- A tagged union made of the entries of an open record that are no fields. -/
def union (tag typeName : String) (cases : List (Case α)) : Fields α :=
  leftover fun s others => Reader.tagged tag typeName cases s.buffered (.ofDatum (.map others))

end Fields

/-- The variant that a tag beside its content names. -/
def outerTag (s : Setting) (cases : List (Case α)) (d : Datum) : Except ReadError (Case α) :=
  choiceInData s (Case.options cases) (.ofDatum d)

/-- The fields of a variant, in a map of their own. -/
def Case.readContent (c : Case α) (s : Setting) (d : Datum) : Except ReadError α :=
  match c.content, d with
  | .nothing a, .null => .ok a
  | .nothing _, d => .error (wrongKind s (.ofDatum d) s!"unit variant {c.label}")
  | .fields f, .map entries => readMap false f s (Node.ofEntries entries) nowhere (.closed nowhere)
  | .fields _, d => .error (wrongKind s (.ofDatum d) s!"struct variant {c.label}")

/-- A variant without content. -/
def Case.withoutContent (c : Case α) (content : String) : Except ReadError α :=
  match c.content with
  | .nothing a => .ok a
  | .fields _ => .error (.mismatch (.missingField content) none)

/-- Tag and content among the entries of an open record, in either order. -/
def readTagAndContent (tag content : String) (cases : List (Case α)) (s : Setting)
    (others : List (Datum × Datum)) : Except ReadError α := do
  let refuse m := ReadError.mismatch m none
  let relevant := others.filterMap fun (k, v) =>
    match k with
    | .text name => if name = tag ∨ name = content then some (name, v) else none
    | _ => none
  let noMore : List (String × Datum) → Except ReadError Unit
    | [] => .ok ()
    | (name, _) :: _ => .error (refuse (.duplicateField name))
  match relevant with
  | [] => .error (refuse (.missingField tag))
  | (name, v) :: rest =>
    if name = tag then
      let c ← outerTag s cases v
      match rest with
      | [] => c.withoutContent content
      | (name', v') :: rest =>
        if name' = tag then .error (refuse (.duplicateField tag))
        else
          let a ← c.readContent s v'
          noMore rest
          .ok a
    else
      match rest with
      | [] => .error (refuse (.missingField tag))
      | (name', v') :: rest =>
        if name' = content then .error (refuse (.duplicateField content))
        else
          let c ← outerTag s cases v'
          let a ← c.readContent s v
          noMore rest
          .ok a

namespace Fields

/-- A tag and its content, as entries of an open record that are no fields. -/
def tagAndContent (tag content : String) (cases : List (Case α)) : Fields α :=
  leftover fun s others => readTagAndContent tag content cases s.buffered others

end Fields

end FleetJobs.Data
