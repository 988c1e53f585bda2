import FleetJobs.Calendar.Instant
import FleetJobs.Decimal.Double
import FleetJobs.Text.Quoted

/-! What can be wrong with a document.

A *fault* breaks its notation: the text stops making sense at a place. A
*mismatch* is a well-formed value that is not what its reader wants. The words of
a mismatch depend on the notation in two points only (`Wording`): what a missing
value is called, and when a real number is written with an exponent. -/
namespace FleetJobs.Data

open FleetJobs.Decimal (Double)

/-- A place between two characters: lines count from one, columns from zero. -/
structure Place where
  line : Nat
  column : Nat
  deriving DecidableEq, Repr, Inhabited

namespace Place

def start : Place := ⟨1, 0⟩

def next (p : Place) : Place := ⟨p.line, p.column + 1⟩

/-- How a message ends that tells a place. -/
def suffix (p : Place) : String := s!" at line {p.line} column {p.column}"

end Place

/-- How a text breaks its notation. -/
inductive Fault where
  | openList
  | openMap
  | openText
  | noValue
  | colonExpected
  | listCommaExpected
  | mapCommaExpected
  | wordExpected
  | valueExpected
  | badEscape
  | badNumber
  | numberTooLarge
  | controlCharacter
  | keyNotText
  | loneSurrogate
  | trailingComma
  | trailingCharacters
  | brokenSurrogate
  | tooDeep
  | tooManyReferences
  deriving DecidableEq, Repr

def Fault.message : Fault → String
  | openList => "EOF while parsing a list"
  | openMap => "EOF while parsing an object"
  | openText => "EOF while parsing a string"
  | noValue => "EOF while parsing a value"
  | colonExpected => "expected `:`"
  | listCommaExpected => "expected `,` or `]`"
  | mapCommaExpected => "expected `,` or `\x7d`"
  | wordExpected => "expected ident"
  | valueExpected => "expected value"
  | badEscape => "invalid escape"
  | badNumber => "invalid number"
  | numberTooLarge => "number out of range"
  | controlCharacter => "control character (\\u0000-\\u001F) found while parsing a string"
  | keyNotText => "key must be a string"
  | loneSurrogate => "lone leading surrogate in hex escape"
  | trailingComma => "trailing comma"
  | trailingCharacters => "trailing characters"
  | brokenSurrogate => "unexpected end of hex escape"
  | tooDeep => "recursion limit exceeded"
  | tooManyReferences => "repetition limit exceeded"

/-- What a reader found in place of what it wanted. A wide integer lies outside the
64-bit types. -/
inductive Found where
  | null
  | boolean (value : Bool)
  | integer (value : Int)
  | wideInteger (value : Int)
  | real (value : Double)
  | text (value : String)
  | list
  | map
  deriving DecidableEq, Repr

/-- The words in which the notations differ. -/
structure Wording where
  null : String
  real : Decimal.Layout

/-- The words for texts of JSON. -/
def Wording.json : Wording := ⟨"null", ⟨fun point => decide (16 < point) || decide (point ≤ -5)⟩⟩

/-- The words for texts of YAML. -/
def Wording.yaml : Wording := ⟨"unit value", ⟨fun _ => false⟩⟩

def Found.describe (w : Wording) : Found → String
  | null => w.null
  | boolean b => s!"boolean `{b}`"
  | integer i => s!"integer `{i}`"
  | wideInteger i => s!"integer `{i}` as " ++ if i < 0 then "i128" else "u128"
  | real x => s!"floating point `{x.write w.real}`"
  | text s => s!"string {Text.quoted s}"
  | list => "sequence"
  | map => "map"

/-- Why a well-formed value is not the one its reader wants. -/
inductive Mismatch where
  | wrongType (found : Found) (expected : String)
  | wrongValue (found : Found) (expected : String)
  | wrongLength (length : Nat) (expected : String)
  | missingField (name : String)
  | duplicateField (name : String)
  | unknownVariant (name : String) (known : List String)
  | badInstant (cause : Calendar.Instant.ReadError)
  deriving DecidableEq, Repr

/-- Names in backticks, as a message offers them for choice. -/
def offer : List String → String
  | [a, b] => s!"`{a}` or `{b}`"
  | names => "one of " ++ ", ".intercalate (names.map fun n => s!"`{n}`")

def Mismatch.message (w : Wording) : Mismatch → String
  | wrongType found expected => s!"invalid type: {found.describe w}, expected {expected}"
  | wrongValue found expected => s!"invalid value: {found.describe w}, expected {expected}"
  | wrongLength n expected => s!"invalid length {n}, expected {expected}"
  | missingField name => s!"missing field `{name}`"
  | duplicateField name => s!"duplicate field `{name}`"
  | unknownVariant name known => s!"unknown variant `{name}`, expected {offer known}"
  | badInstant e => e.message

end FleetJobs.Data
