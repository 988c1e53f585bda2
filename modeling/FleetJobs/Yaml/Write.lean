import FleetJobs.Data.Datum
import FleetJobs.Text.Quoted
import FleetJobs.Yaml.Scalar

/-! Data as YAML text.

Lists and maps show by indentation alone, two columns a level; only empty ones have
brackets. A text stands without quotes unless it could then be taken for something
else (`needsQuotes`). -/
namespace FleetJobs.Yaml

open FleetJobs.Data

/-- Characters that no unquoted text may begin with. -/
def isOpener (c : Char) : Bool := "&*?|-<>=!%@.".toList.contains c

/-- Characters that no unquoted text may hold. -/
def isIndicatorChar (c : Char) : Bool :=
  ":\x7b\x7d[],#`\"'\\".toList.contains c ||
    decide (c.toNat ≤ 0x06) || c == '\t' || c == '\n' || c == '\r' ||
    (decide (0x0e ≤ c.toNat) && decide (c.toNat ≤ 0x1a)) ||
    (decide (0x1c ≤ c.toNat) && decide (c.toNat ≤ 0x1f))

/-- Words that stand for truth values or for nothing. -/
def reservedWords : List String :=
  ["yes", "Yes", "YES", "no", "No", "NO", "true", "True", "TRUE", "false", "False", "FALSE",
    "on", "On", "ON", "off", "Off", "OFF", "null", "Null", "NULL", "~"]

/-- Whether a text would be taken for something else without quotes. -/
def needsQuotes (s : String) : Bool :=
  let cs := s.toList
  match cs with
  | [] => true
  | c :: _ =>
    c == ' ' || cs.getLast? == some ' ' || isOpener c || cs.take 2 == ['0', 'x'] ||
      cs.any isIndicatorChar || reservedWords.contains s || (numeral? cs).isSome

/-- One character of a text in quotes. -/
def escaped (c : Char) : List Char :=
  match c with
  | '"' => ['\\', '"']
  | '\\' => ['\\', '\\']
  | '\x08' => ['\\', 'b']
  | '\t' => ['\\', 't']
  | '\n' => ['\\', 'n']
  | '\x0c' => ['\\', 'f']
  | '\r' => ['\\', 'r']
  | c => if c.toNat < 32 ∨ c.toNat = 127 then ['\\', 'u'] ++ Text.hexPadded 4 c.toNat else [c]

def textChars (s : String) : List Char :=
  if needsQuotes s then ['"'] ++ s.toList.flatMap escaped ++ ['"'] else s.toList

/-- A new line, indented. -/
def newline (level : Nat) : List Char := '\n' :: List.replicate (2 * level) ' '

/-- Where a value begins: on the line of a dash or of the document's mark, or after a
key. After a key a list or map moves to lines of its own, one level further in. -/
inductive Seat where
  | here
  | afterKey

namespace Seat

/-- What stands before a value that fits on the line. -/
def gap : Seat → List Char
  | here => []
  | afterKey => [' ']

/-- The level of the lines of a list or map. -/
def inner : Seat → Nat → Nat
  | here, level => level
  | afterKey, level => level + 1

/-- What stands before the first line of a list or map. -/
def opening : Seat → Nat → List Char
  | here, _ => []
  | afterKey, level => newline (level + 1)

end Seat

mutual

/-- A value; `level` is that of the line it begins on. -/
def chars (seat : Seat) (level : Nat) : Datum → List Char
  | .null => seat.gap ++ ['~']
  | .boolean b => seat.gap ++ (if b then "true" else "false").toList
  | .integer i => seat.gap ++ (toString i).toList
  | .real x => seat.gap ++ (x.write ⟨fun _ => false⟩).toList
  | .text s => seat.gap ++ textChars s
  | .list [] => seat.gap ++ ['[', ']']
  | .list (d :: rest) =>
    seat.opening level ++ ['-', ' '] ++ chars .here (seat.inner level + 1) d ++
      itemsChars (seat.inner level) rest
  | .map [] => seat.gap ++ ['\x7b', '\x7d']
  | .map ((k, v) :: rest) =>
    seat.opening level ++ chars .here (seat.inner level) k ++ [':'] ++
      chars .afterKey (seat.inner level) v ++ entriesChars (seat.inner level) rest

def itemsChars (level : Nat) : List Datum → List Char
  | [] => []
  | d :: rest =>
    newline level ++ ['-', ' '] ++ chars .here (level + 1) d ++ itemsChars level rest

def entriesChars (level : Nat) : List (Datum × Datum) → List Char
  | [] => []
  | (k, v) :: rest =>
    newline level ++ chars .here level k ++ [':'] ++ chars .afterKey level v ++
      entriesChars level rest

end

/-- The text of a document. -/
def write (d : Datum) : String := String.ofList ("---\n".toList ++ chars .here 0 d ++ ['\n'])

end FleetJobs.Yaml
