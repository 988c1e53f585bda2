/-! Numbers of 64-bit binary floating point, known by their bits, and the fewest
decimal digits that still mean the same number.

A finite number is `m · 2^q`. All reals nearer to it than to its neighbours read
back as it, and the ends of that stretch too when `m` is even. `shortest` takes
grids of one digit, two digits and so on, and stops at the first that has a point
in the stretch; all of it is exact arithmetic on naturals. -/
namespace FleetJobs.Decimal

structure Double where
  bits : UInt64
  deriving DecidableEq, Repr, Inhabited

namespace Double

def ofFloat (x : Float) : Double := ⟨x.toBits⟩

def isNegative (x : Double) : Bool := decide (Nat.pow 2 63 ≤ x.bits.toNat)

/-- The eleven bits of the exponent. -/
def exponentBits (x : Double) : Nat := x.bits.toNat / Nat.pow 2 52 % Nat.pow 2 11

/-- The fifty-two bits of the fraction. -/
def fractionBits (x : Double) : Nat := x.bits.toNat % Nat.pow 2 52

def isFinite (x : Double) : Bool := decide (x.exponentBits < 2047)

def isNan (x : Double) : Bool := !x.isFinite && x.fractionBits != 0

/-- The number nearest to `coefficient · 10 ^ exponent`. -/
def ofDecimal (negative : Bool) (coefficient : Nat) (exponent : Int) : Double :=
  let magnitude : Int := (toString coefficient).length + exponent
  let size : Float :=
    if coefficient = 0 ∨ magnitude < -400 then 0.0
    else if 400 < magnitude then 1.0 / 0.0
    else Float.ofScientific coefficient (decide (exponent < 0)) exponent.natAbs
  ofFloat (if negative then -size else size)

end Double

/-- A finite magnitude `significand · 2 ^ power`, and whether its lower neighbour is
only half as far away as its upper one. -/
structure Binary where
  significand : Nat
  power : Int
  closeBelow : Bool

def Double.binary (x : Double) : Binary :=
  if x.exponentBits = 0 then ⟨x.fractionBits, -1074, false⟩
  else ⟨Nat.pow 2 52 + x.fractionBits, (x.exponentBits : Int) - 1075,
    x.fractionBits == 0 && decide (1 < x.exponentBits)⟩

/-- Digits read as one natural, times a power of ten. -/
structure Digits where
  coefficient : Nat
  exponent : Int
  deriving DecidableEq, Repr

/-- Sides of a comparison of `d · 10 ^ k` with `t · 2 ^ p`, brought to naturals. -/
def sides (d : Nat) (k : Int) (t : Nat) (p : Int) : Nat × Nat :=
  (d * Nat.pow 10 k.toNat * Nat.pow 2 (-p).toNat,
    t * Nat.pow 2 p.toNat * Nat.pow 10 (-k).toNat)

namespace Binary

/-- Whether the decimal reads back as this number. In quarters of the last place the
stretch runs from two below (one, if the neighbour there is close) to two above. -/
def owns (b : Binary) (d : Nat) (k : Int) : Bool :=
  let low := sides d k (4 * b.significand - (if b.closeBelow then 1 else 2)) (b.power - 2)
  let high := sides d k (4 * b.significand + 2) (b.power - 2)
  if b.significand % 2 = 0 then decide (low.2 ≤ low.1) && decide (high.1 ≤ high.2)
  else decide (low.2 < low.1) && decide (high.1 < high.2)

/-- The largest point of the grid of step `10 ^ k` that is not above the number, in steps. -/
def floorOn (b : Binary) (k : Int) : Nat :=
  (b.significand * Nat.pow 2 b.power.toNat * Nat.pow 10 (-k).toNat) /
    (Nat.pow 2 (-b.power).toNat * Nat.pow 10 k.toNat)

/-- Whether the grid point above is nearer than the one below; an even point wins a tie. -/
def upperNearer (b : Binary) (k : Int) (d : Nat) : Bool :=
  let s := sides (2 * d + 1) k (2 * b.significand) b.power
  decide (s.1 < s.2) || (s.1 == s.2 && d % 2 == 1)

/-- The better grid point of the two around the number, if one of them reads back. -/
def onGrid (b : Binary) (k : Int) : Option Nat :=
  let d := b.floorOn k
  match b.owns d k, b.owns (d + 1) k with
  | true, true => some (if b.upperNearer k d then d + 1 else d)
  | true, false => some d
  | false, true => some (d + 1)
  | false, false => none

/-- Grids from coarse to fine, each ten times finer than the one before. -/
def firstGrid (b : Binary) : Nat → Int → Digits
  | 0, k => ⟨b.floorOn k, k⟩
  | fuel + 1, k =>
    match b.onGrid k with
    | some d => ⟨d, k⟩
    | none => b.firstGrid fuel (k - 1)

end Binary

/-- The same digits without zeros at the end. -/
def Digits.trim : Nat → Digits → Digits
  | 0, d => d
  | fuel + 1, d =>
    if d.coefficient ≠ 0 ∧ d.coefficient % 10 = 0 then
      Digits.trim fuel ⟨d.coefficient / 10, d.exponent + 1⟩
    else d

/-- The fewest digits that read back as a finite number; of several choices the
nearest. Magnitudes lie below `10 ^ 309` and above `10 ^ -325`. -/
def Double.shortest (x : Double) : Digits :=
  if x.binary.significand = 0 then ⟨0, 0⟩ else (x.binary.firstGrid 640 309).trim 640

/-- How a number is laid out: which positions of the decimal point call for an exponent. -/
structure Layout where
  exponential : Int → Bool

/-- The digits with a point, or with an exponent where the layout asks for one. The
point stands after the first `point` digits. -/
def Digits.write (l : Layout) (d : Digits) : String :=
  let ds := (toString d.coefficient).toList
  let point : Int := ds.length + d.exponent
  let text : List Char :=
    if l.exponential point then
      let tail := match ds.drop 1 with
        | [] => []
        | rest => '.' :: rest
      let e := point - 1
      ds.take 1 ++ tail ++ ['e', if e < 0 then '-' else '+'] ++ (toString e.natAbs).toList
    else if 0 ≤ d.exponent then ds ++ List.replicate d.exponent.toNat '0' ++ ['.', '0']
    else if 0 < point then ds.take point.toNat ++ ['.'] ++ ds.drop point.toNat
    else ['0', '.'] ++ List.replicate (-point).toNat '0' ++ ds
  String.ofList text

/-- The number in its fewest digits; always with a point or an exponent if it is finite. -/
def Double.write (l : Layout) (x : Double) : String :=
  if x.isNan then "NaN"
  else
    let size := if !x.isFinite then "inf"
      else if x.binary.significand = 0 then "0.0"
      else x.shortest.write l
    if x.isNegative then "-" ++ size else size

end FleetJobs.Decimal
