import FleetJobs.Data.Node

/-! References: values that stand in a document once and count in many places.

A reader follows a reference where it meets one, so a value inside itself is read as
deep as its reader looks. A reader of whole values follows all that there are, again
in what they refer to; how many that takes (`Node.weight`) is known beforehand and
has a limit, for a short text can stand for very much data. -/
namespace FleetJobs.Data

/-- A value that may be referred to, and its weight. -/
structure Referent where
  number : Nat
  value : Node
  weight : Nat

/-- The values of a document that may be referred to, and how many references may be
followed to read one value whole. -/
structure References where
  known : List Referent
  limit : Nat

namespace References

def none : References := ⟨[], 0⟩

def find? (r : References) (number : Nat) : Option Referent :=
  r.known.find? fun v => v.number == number

/-- The value that a node stands for. -/
def resolve (r : References) : Node → Node
  | .reference i => ((r.find? i).map (·.value)).getD (.reference i)
  | n => n

@[simp] theorem resolve_scalar (r : References) (v : Scalar) (p q : Place) :
    r.resolve (.scalar v p q) = .scalar v p q := rfl

@[simp] theorem resolve_list (r : References) (items : List Node) (p : Place) (e : Ending) :
    r.resolve (.list items p e) = .list items p e := rfl

@[simp] theorem resolve_map (r : References) (entries : List (Node × Place × Node)) (p : Place)
    (e : Ending) : r.resolve (.map entries p e) = .map entries p e := rfl

end References

namespace Node

mutual

/-- How many references one follows to read the value whole. One to a value that is
not known yet, because it is not complete, leads no further. -/
def weight (r : References) : Node → Nat
  | .scalar .. | .broken .. => 0
  | .list items _ _ => weightItems r items
  | .map entries _ _ => weightEntries r entries
  | .reference i => 1 + ((r.find? i).map (·.weight)).getD 0

def weightItems (r : References) : List Node → Nat
  | [] => 0
  | n :: rest => weight r n + weightItems r rest

def weightEntries (r : References) : List (Node × Place × Node) → Nat
  | [] => 0
  | (k, _, v) :: rest => weight r k + weight r v + weightEntries r rest

end

mutual

/-- How many parts the value has in its text: itself and the parts of its parts, where
a list or map counts twice, for its start and its end. -/
def parts : Node → Nat
  | .scalar .. | .broken .. | .reference _ => 1
  | .list items _ _ => 2 + itemParts items
  | .map entries _ _ => 2 + entryParts entries

def itemParts : List Node → Nat
  | [] => 0
  | n :: rest => parts n + itemParts rest

def entryParts : List (Node × Place × Node) → Nat
  | [] => 0
  | (k, _, v) :: rest => parts k + parts v + entryParts rest

end

end Node

end FleetJobs.Data
