import FleetJobs.Data.Datum
import FleetJobs.Text.Quoted

/-! Data as JSON text on one line, without blanks between the parts. -/
namespace FleetJobs.Json

open FleetJobs.Data

/-- One character of a text between quotes: quotes, backslashes and controls are escaped. -/
def escaped (c : Char) : List Char :=
  match c with
  | '"' => ['\\', '"']
  | '\\' => ['\\', '\\']
  | '\n' => ['\\', 'n']
  | '\r' => ['\\', 'r']
  | '\t' => ['\\', 't']
  | '\x08' => ['\\', 'b']
  | '\x0c' => ['\\', 'f']
  | c => if c.toNat < 32 then ['\\', 'u'] ++ Text.hexPadded 4 c.toNat else [c]

def quotedChars (s : String) : List Char := ['"'] ++ s.toList.flatMap escaped ++ ['"']

/-- Real numbers are written like integers are, in their fewest digits. -/
def realChars (x : Decimal.Double) : List Char :=
  (x.write ⟨fun point => decide (16 < point) || decide (point ≤ -5)⟩).toList

mutual

def chars : Datum → List Char
  | .null => "null".toList
  | .boolean b => (if b then "true" else "false").toList
  | .integer i => (toString i).toList
  | .real x => realChars x
  | .text s => quotedChars s
  | .list items => '[' :: (itemChars items ++ [']'])
  | .map entries => '\x7b' :: (entryChars entries ++ ['\x7d'])

/-- Items with commas between them. -/
def itemChars : List Datum → List Char
  | [] => []
  | [d] => chars d
  | d :: rest => chars d ++ ',' :: itemChars rest

def entryChars : List (Datum × Datum) → List Char
  | [] => []
  | [(k, v)] => chars k ++ ':' :: chars v
  | (k, v) :: rest => chars k ++ ':' :: (chars v ++ ',' :: entryChars rest)

end

def write (d : Datum) : String := String.ofList (chars d)

end FleetJobs.Json
