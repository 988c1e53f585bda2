/-! Numbers written in digits, as a command line or an address gives them. -/
namespace FleetJobs.Text

/-- A text without a plus sign in front. -/
def withoutPlus : List Char → List Char
  | '+' :: rest => rest
  | cs => cs

/-- What digits stand for. -/
def digitsValue (ds : List Char) : Nat := ds.foldl (fun n d => n * 10 + (d.toNat - 48)) 0

/-- A number below a limit: digits only, at least one; a plus sign may lead. -/
def numberBelow? (limit : Nat) (cs : List Char) : Option Nat :=
  let ds := withoutPlus cs
  if !ds.isEmpty && ds.all Char.isDigit && decide (digitsValue ds < limit) then some (digitsValue ds)
  else none

end FleetJobs.Text
