import FleetJobs.Decimal.Double

/-! Plain data: what a text of either notation means once its layout is forgotten.

The library writes its records as data (a `toDatum` beside each kind of record) and the
two notations write data as text (`Json/Write`, `Yaml/Write`). Entries of a map keep their order; a key is
any datum, because one of the notations allows that. -/
namespace FleetJobs.Data

open FleetJobs.Decimal (Double)

inductive Datum where
  | null
  | boolean (value : Bool)
  | integer (value : Int)
  | real (value : Double)
  | text (value : String)
  | list (items : List Datum)
  | map (entries : List (Datum × Datum))
  deriving Inhabited, Repr

namespace Datum

/-- A map with names for keys. -/
def record (entries : List (String × Datum)) : Datum :=
  .map (entries.map fun e => (.text e.1, e.2))

def natural (n : Nat) : Datum := .integer n

/-- The datum of an optional value; absent is null. -/
def optional (f : α → Datum) : Option α → Datum
  | none => .null
  | some a => f a

def strings (xs : List String) : Datum := .list (xs.map .text)

/-- The name that a key is sorted by. -/
def keyName : Datum → String
  | .text s => s
  | _ => ""

/-- Puts an entry into entries sorted by name, in place of one of the same name. -/
def putEntry (key value : Datum) : List (Datum × Datum) → List (Datum × Datum)
  | [] => [(key, value)]
  | (k, v) :: rest =>
    if key.keyName < k.keyName then (key, value) :: (k, v) :: rest
    else if key.keyName = k.keyName then (key, value) :: rest
    else (k, v) :: putEntry key value rest

mutual

/-- The same data with every map sorted by name; of entries under one name the last stays. -/
def sorted : Datum → Datum
  | .list items => .list (sortedItems items)
  | .map entries => .map (sortedEntries [] entries)
  | d => d

def sortedItems : List Datum → List Datum
  | [] => []
  | d :: rest => sorted d :: sortedItems rest

def sortedEntries (soFar : List (Datum × Datum)) : List (Datum × Datum) → List (Datum × Datum)
  | [] => soFar
  | (k, v) :: rest => sortedEntries (putEntry k (sorted v) soFar) rest

end

end Datum

/-- The name and value pairs of an optional entry that is left out when absent. -/
def presentEntry (name : String) (f : α → Datum) : Option α → List (String × Datum)
  | none => []
  | some a => [(name, f a)]

end FleetJobs.Data
