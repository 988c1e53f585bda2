import FleetJobs.Program.Basic

/-! Programs run alone.

A `World` is what a program meets: the store, and an outside that answers commands and
shows the control flags (`Outside`). The outside has a state of its own, so an answer
may depend on all that went before, and flags may change at any time. The world keeps
a log of the commands that were sent, and a note of the last one. -/
namespace FleetJobs

open FleetJobs.Fleet
open FleetJobs.Gateway

/-- What lies beyond the store, with a state of type `σ`. -/
structure Outside (σ : Type) where
  send : σ → Host → String → Reply × σ
  look : σ → Job.Control × σ

/-- A command that was sent and its reply. -/
structure Sent where
  host : Host
  line : String
  reply : Reply

def Sent.record (s : Sent) : CommandRecord := .ofReply s.host.display s.line s.reply

structure World (σ : Type) where
  store : Store
  outside : σ
  /-- The last command since the note was last cleared. -/
  lastCommand : Option CommandRecord
  /-- All commands, first to last. -/
  sent : List Sent

namespace World

variable {σ : Type}

/-- A world in which nothing was sent yet. -/
def start (store : Store) (outside : σ) : World σ := ⟨store, outside, none, []⟩

def clearNote (w : World σ) : World σ := { w with lastCommand := none }

/-- The reply to a command, and the world after it. -/
def send (w : World σ) (o : Outside σ) (host : Host) (line : String) : Reply × World σ :=
  let (reply, outside) := o.send w.outside host line
  let s : Sent := ⟨host, line, reply⟩
  (reply, { w with outside := outside, lastCommand := some s.record, sent := w.sent ++ [s] })

/-- The flags that show now, and the world after the look. -/
def look (w : World σ) (o : Outside σ) : Job.Control × World σ :=
  let (flags, outside) := o.look w.outside
  (flags, { w with outside := outside })

end World

/-- How a program ends. -/
inductive Ending (ε α : Type) where
  | done (result : α)
  | failed (failure : ε)
  /-- The store had no number left for a new record. -/
  | exhausted
  deriving DecidableEq, Repr

namespace Program

variable {ε ε' α β σ : Type}

/-- Runs a program to its end. -/
def run (o : Outside σ) : Program ε α → World σ → Ending ε α × World σ
  | done a, w => (.done a, w)
  | fail e, w => (.failed e, w)
  | ask c next, w =>
    match w.store.handle c with
    | .ok (a, store) => run o (next (.ok a)) { w with store := store }
    | .error (.refused r) => run o (next (.error r)) w
    | .error .exhausted => (.exhausted, w)
  | send h l next, w => run o (next (w.send o h l).1) (w.send o h l).2
  | look next, w => run o (next (w.look o).1) (w.look o).2

/-- **A program followed by another runs as the first and then, if that has a result,
as the second.** -/
theorem run_bind (o : Outside σ) (p : Program ε α) (f : α → Program ε β) (w : World σ) :
    (p.bind f).run o w =
      match p.run o w with
      | (.done a, w') => (f a).run o w'
      | (.failed e, w') => (.failed e, w')
      | (.exhausted, w') => (.exhausted, w') := by
  induction p generalizing w with
  | done | fail => rfl
  | ask c next ih =>
    simp only [bind, run]
    split
    · exact ih _ _
    · exact ih _ _
    · rfl
  | send h l next ih => exact ih _ _
  | look next ih => exact ih _ _

/-- A failure that is caught leaves the same world behind. -/
theorem run_attempt (o : Outside σ) (p : Program ε α) (w : World σ) :
    (p.attempt : Program ε' (Except ε α)).run o w =
      match p.run o w with
      | (.done a, w') => (.done (.ok a), w')
      | (.failed e, w') => (.done (.error e), w')
      | (.exhausted, w') => (.exhausted, w') := by
  induction p generalizing w with
  | done | fail => rfl
  | ask c next ih =>
    simp only [attempt, run]
    split
    · exact ih _ _
    · exact ih _ _
    · rfl
  | send h l next ih => exact ih _ _
  | look next ih => exact ih _ _

end Program

end FleetJobs
