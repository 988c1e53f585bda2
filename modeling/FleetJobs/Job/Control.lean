/-! Pause and abort flags of a job.

Whoever watches over a job raises the flags; the job looks at them between its steps
and nowhere else. A control is shared by its clones, so a board keeps the flags in
cells and every control names its cell. -/
namespace FleetJobs.Job

structure Control where
  paused : Bool := false
  aborted : Bool := false
  deriving DecidableEq, Repr, Inhabited

/-- What can be done to a control. An abort cannot be taken back. -/
inductive Signal where
  | pause
  | unpause
  | abort
  deriving DecidableEq, Repr

namespace Control

/-- No flag is raised. -/
def unset : Control := {}

def apply (c : Control) : Signal → Control
  | .pause => { c with paused := true }
  | .unpause => { c with paused := false }
  | .abort => { c with aborted := true }

/-- Signals one after another. -/
def applyAll (c : Control) (ss : List Signal) : Control := ss.foldl apply c

theorem aborted_apply {c : Control} (h : c.aborted = true) (s : Signal) :
    (c.apply s).aborted = true := by
  cases s <;> simp [apply, h]

end Control

/-- Controls and the cells that they share. -/
structure Board where
  cells : List Control
  controls : List Nat

namespace Board

/-- One control that shares its flags with none. -/
def single : Board := ⟨[.unset], [0]⟩

/-- One more control with flags of its own. -/
def fresh (b : Board) : Board := ⟨b.cells ++ [.unset], b.controls ++ [b.cells.length]⟩

/-- One more control on the cell of another. -/
def clone (b : Board) (i : Nat) : Board :=
  match b.controls[i]? with
  | some cell => { b with controls := b.controls ++ [cell] }
  | none => b

def signal (b : Board) (i : Nat) (s : Signal) : Board :=
  match b.controls[i]? with
  | some cell => { b with cells := b.cells.modify cell fun c => c.apply s }
  | none => b

/-- What every control shows. -/
def flags (b : Board) : List Control := b.controls.map fun cell => (b.cells[cell]?).getD .unset

end Board

end FleetJobs.Job
