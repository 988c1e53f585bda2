import FleetJobs.Data.Datum
import FleetJobs.Data.Mismatch

/-! A document as it stands in a text: values with their places, up to where the
notation breaks, if it does.

Readers walk a node from front to back and stop at the first thing wrong, be it a
mismatch or a break. So a text that is broken late can still be refused for an
early mismatch, and both notations are read by the same readers. A break may
matter to a reader that wants the value and not to one that passes over it, so it
tells a fault for each.

A value may also stand elsewhere in the document and be referred to by number; then
the reader's setting knows it (`Data/Reader`). -/
namespace FleetJobs.Data

open FleetJobs.Decimal (Double)

/-- A value without parts, as its own kind of thing. -/
inductive Atom where
  | null
  | boolean (value : Bool)
  | integer (value : Int)
  | wideInteger (value : Int)
  | real (value : Double)
  | text (value : String)
  deriving DecidableEq, Repr

def Atom.found : Atom → Found
  | null => .null
  | boolean b => .boolean b
  | integer i => .integer i
  | wideInteger i => .wideInteger i
  | real x => .real x
  | text s => .text s

/-- Anything that keeps a value from being read. -/
inductive Trouble where
  | fault (cause : Fault) (place : Place)
  | mismatch (cause : Mismatch)
  deriving DecidableEq, Repr

/-- A value without parts in a text. A notation in which text needs no quotes gives
its characters as `verbatim`, whatever they would mean on their own. `isAbsent` says
whether they stand for an absent value, unless they claim to and cannot; `label` is a
tag of the document's own. -/
structure Scalar where
  atom : Except Trouble Atom
  verbatim : Option String
  isAbsent : Except Mismatch Bool
  label : Option String

/-- Where a text breaks: for one who reads the value, for one who passes over it, and
for one who takes nothing but a name. -/
structure Break where
  reading : Fault × Place
  passing : Fault × Place
  naming : Fault × Place := reading

/-- A break that troubles all readers alike. -/
def Break.same (f : Fault) (p : Place) : Break := { reading := (f, p), passing := (f, p) }

/-- How a list or map ends. -/
inductive Ending where
  | closed (place : Place)
  | broken (b : Break)

/-- The fault that one meets who passes over an ending. -/
def Ending.passing : Ending → Option (Fault × Place)
  | closed _ => none
  | broken b => some b.passing

/-- `start` is the place before a value, `stop` the one after it. An entry of a map
has its key, the place before its colon, and its value. What is `broken` off has the
place at which one notices what is there. A `reference` stands for the value of that
number, which may be one around it. -/
inductive Node where
  | scalar (value : Scalar) (start stop : Place)
  | list (items : List Node) (start : Place) (ending : Ending)
  | map (entries : List (Node × Place × Node)) (start : Place) (ending : Ending)
  | broken (b : Break) (front : Place)
  | reference (number : Nat)

abbrev Entry := Node × Place × Node

namespace Node

/-- The place before a value; one that is broken or elsewhere has none. -/
def start? : Node → Option Place
  | scalar _ p _ | list _ p _ | map _ p _ => some p
  | broken .. | reference _ => none

mutual

/-- The first fault met by one who passes over the value. -/
def passing : Node → Option (Fault × Place)
  | .scalar .. => none
  | .list items _ ending => passingItems items ending.passing
  | .map entries _ ending => passingEntries entries ending.passing
  | .broken b _ => some b.passing
  | .reference _ => none

def passingItems : List Node → Option (Fault × Place) → Option (Fault × Place)
  | [], last => last
  | n :: rest, last =>
    match passing n with
    | some f => some f
    | none => passingItems rest last

def passingEntries : List (Node × Place × Node) → Option (Fault × Place) → Option (Fault × Place)
  | [], last => last
  | (_, _, n) :: rest, last =>
    match passing n with
    | some f => some f
    | none => passingEntries rest last

end

end Node

/-- The place that stands for a document without one. -/
def nowhere : Place := ⟨0, 0⟩

namespace Node

/-- An atom that stands on its own. -/
def ofAtom (a : Atom) : Node :=
  .scalar ⟨.ok a, none, .ok (a == .null), none⟩ nowhere nowhere

mutual

/-- Plain data as a document without places. -/
def ofDatum : Datum → Node
  | .null => ofAtom .null
  | .boolean b => ofAtom (.boolean b)
  | .integer i => ofAtom (.integer i)
  | .real x => ofAtom (.real x)
  | .text s => ofAtom (.text s)
  | .list items => .list (ofItems items) nowhere (.closed nowhere)
  | .map entries => .map (ofEntries entries) nowhere (.closed nowhere)

def ofItems : List Datum → List Node
  | [] => []
  | d :: rest => ofDatum d :: ofItems rest

def ofEntries : List (Datum × Datum) → List (Node × Place × Node)
  | [] => []
  | (k, v) :: rest => (ofDatum k, nowhere, ofDatum v) :: ofEntries rest

end

end Node

end FleetJobs.Data
