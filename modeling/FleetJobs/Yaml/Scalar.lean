import FleetJobs.Data.Node

/-! What an unquoted text of YAML means on its own: nothing, a truth value, an
integer, a real number, or itself. -/
namespace FleetJobs.Yaml

open FleetJobs.Data
open FleetJobs.Decimal (Double)

def digitValue? (base : Nat) (c : Char) : Option Nat :=
  let v? : Option Nat :=
    if '0' ≤ c ∧ c ≤ '9' then some (c.toNat - 48)
    else if 'a' ≤ c ∧ c ≤ 'z' then some (c.toNat - 87)
    else if 'A' ≤ c ∧ c ≤ 'Z' then some (c.toNat - 55)
    else none
  v?.filter (· < base)

/-- A natural in some base: digits only, at least one. -/
def natural? (base : Nat) (cs : List Char) : Option Nat :=
  match cs with
  | [] => none
  | cs => cs.foldlM (fun n c => (digitValue? base c).map (n * base + ·)) 0

/-- The text without a plus in front. -/
def unsigned (cs : List Char) : List Char :=
  match cs with
  | '+' :: rest => rest
  | cs => cs

/-- An integer of a base with a prefix, if a 64-bit type holds it. -/
def prefixed? (base : Nat) (mark : Char) (cs : List Char) : Option Int :=
  match cs with
  | '-' :: '0' :: m :: rest =>
    if m = mark then
      (natural? base rest).bind fun n =>
        if n ≤ Nat.pow 2 63 then some (-(n : Int)) else none
    else none
  | cs =>
    match unsigned cs with
    | '0' :: m :: rest =>
      if m = mark then
        (natural? base (unsigned rest)).bind fun n =>
          if n < Nat.pow 2 64 then some (n : Int) else none
      else none
    | _ => none

/-- A decimal integer with an optional sign, if a 128-bit type holds it. -/
def decimal? (cs : List Char) : Option Int :=
  match cs with
  | '-' :: rest =>
    (natural? 10 rest).bind fun n => if n ≤ Nat.pow 2 127 then some (-(n : Int)) else none
  | cs =>
    (natural? 10 (unsigned cs)).bind fun n => if n < Nat.pow 2 128 then some (n : Int) else none

/-- A real number as its text tells it. -/
inductive Numeral where
  | finite (negative : Bool) (coefficient : Nat) (exponent : Int)
  | infinite (negative : Bool)
  | undefined
  deriving DecidableEq, Repr

/-- Digits with a point somewhere, or without one; and the exponent, if there is one. -/
def magnitude? (cs : List Char) : Option (Nat × Int) :=
  let whole := cs.takeWhile Char.isDigit
  let rest := cs.drop whole.length
  let (fraction, rest) := match rest with
    | '.' :: more => (more.takeWhile Char.isDigit, more.dropWhile Char.isDigit)
    | rest => ([], rest)
  if whole.isEmpty && fraction.isEmpty then none
  else
    let coefficient := ((whole ++ fraction).foldl (fun n c => n * 10 + (c.toNat - 48)) 0 : Nat)
    let own : Int := -(fraction.length : Int)
    match rest with
    | [] => some (coefficient, own)
    | e :: power =>
      if e = 'e' ∨ e = 'E' then
        match power with
        | '-' :: ds => (natural? 10 ds).map fun n => (coefficient, own - n)
        | ds => (natural? 10 (unsigned ds)).map fun n => (coefficient, own + n)
      else none

/-- A real number with an optional sign; `inf`, `infinity` and `nan` count, in any case. -/
def numeral? (cs : List Char) : Option Numeral :=
  let (negative, cs) := match cs with
    | '-' :: rest => (true, rest)
    | cs => (false, unsigned cs)
  let lower := String.ofList (cs.map Char.toLower)
  if lower = "inf" ∨ lower = "infinity" then some (.infinite negative)
  else if lower = "nan" then some .undefined
  else (magnitude? cs).map fun (n, e) => .finite negative n e

def Numeral.value : Numeral → Double
  | finite negative n e => .ofDecimal negative n e
  | infinite negative => .ofFloat (if negative then -1.0 / 0.0 else 1.0 / 0.0)
  | undefined => .ofFloat (0.0 / 0.0)

/-- A real number whose text names a finite one. -/
def finite? (cs : List Char) : Option Double :=
  match numeral? cs with
  | some (.finite negative n e) =>
    let x := Double.ofDecimal negative n e
    if x.isFinite then some x else none
  | _ => none

/-- The words for numbers that are not finite. -/
def special? (v : String) : Option Double :=
  let bare := String.ofList (v.toList.dropWhile (· == '+'))
  if [".inf", ".Inf", ".INF"].contains bare then some (Numeral.infinite false).value
  else if ["-.inf", "-.Inf", "-.INF"].contains v then some (Numeral.infinite true).value
  else if [".nan", ".NaN", ".NAN"].contains v then some Numeral.undefined.value
  else none

/-- Several digits of which the first is zero, perhaps with a sign: no number, for it
could be one of two. -/
def isPadded (cs : List Char) : Bool :=
  let digits := match cs with
    | '-' :: rest => rest
    | cs => unsigned cs
  match digits with
  | '0' :: d :: rest => (d :: rest).all Char.isDigit
  | _ => false

/-- An integer of any width, as an atom. -/
def integerAtom (i : Int) : Atom :=
  if -Int.pow 2 63 ≤ i ∧ i < Int.pow 2 64 then .integer i else .wideInteger i

/-- The words for a value that is absent. -/
def isNothing (v : String) : Bool := v == "~" || v == "null"

/-- What an unquoted text means. -/
def plainAtom (v : String) : Atom :=
  let cs := v.toList
  if isNothing v then .null
  else if v = "true" then .boolean true
  else if v = "false" then .boolean false
  else
    match [(16, 'x'), (8, 'o'), (2, 'b')].findSome? fun (base, mark) => prefixed? base mark cs with
    | some i => .integer i
    | none =>
      if isPadded cs then .text v
      else
        match decimal? cs, special? v, finite? cs with
        | some i, _, _ => integerAtom i
        | none, some x, _ => .real x
        | none, none, some x => .real x
        | none, none, none => .text v

/-- What a text means under one of the tags that every document has. -/
def taggedAtom (suffix v : String) : Except Trouble Atom :=
  let refuse (expected : String) : Except Trouble Atom :=
    .error (.mismatch (.wrongValue (.text v) expected))
  match suffix with
  | "bool" => if v = "true" then .ok (.boolean true) else if v = "false" then .ok (.boolean false)
    else refuse "a boolean"
  | "int" =>
    match decimal? v.toList with
    | some i =>
      if -Int.pow 2 63 ≤ i ∧ i < Int.pow 2 63 then .ok (.integer i) else refuse "an integer"
    | none => refuse "an integer"
  | "float" =>
    match numeral? v.toList with
    | some n => .ok (.real n.value)
    | none => refuse "a float"
  | "null" => if isNothing v then .ok .null else refuse "null"
  | _ => .ok (.text v)

/-- A tag: the handle that says whose it is, and the name it has there. -/
structure Tag where
  handle : String
  suffix : String
  deriving DecidableEq, Repr

/-- Whether a text stands for an absent value. Only an unquoted one can; one with the
tag of nothing must be a word for it. -/
def absence (isPlain : Bool) (tag : Option Tag) (v : String) : Except Mismatch Bool :=
  match isPlain, tag with
  | false, _ => .ok false
  | true, none => .ok (isNothing v)
  | true, some t =>
    if t ≠ ⟨"!!", "null"⟩ then .ok false
    else if isNothing v then .ok true
    else .error (.wrongValue (.text v) "null")

/-- A text of the document as a value. Text is always to be had verbatim. -/
def scalarOf (isPlain : Bool) (tag : Option Tag) (v : String) : Scalar where
  atom :=
    match tag with
    | some t => if t.handle = "!!" then taggedAtom t.suffix v else .ok (.text v)
    | none => .ok (if isPlain then plainAtom v else .text v)
  verbatim := some v
  isAbsent := absence isPlain tag v
  label := tag.bind fun t => if t.handle = "!" then some t.suffix else none

end FleetJobs.Yaml
