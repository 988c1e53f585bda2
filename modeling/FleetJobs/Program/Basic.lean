import FleetJobs.Job.Control
import FleetJobs.Gateway.Reply
import FleetJobs.Store.Basic

/-! Programs: what a step or a job does, as a tree of the questions that it asks.

A program is either over, with a result or a failure, or wants something next: a call
carried out by the store, a command sent to a host, or a look at the job's control
flags. How it goes on depends on the answer. Since a program is a value, the same one
can be run alone (`Program/Run`) or take turns with others on one store, and what
holds of its tree holds of either.

A store that has no number left for a new record does not answer; then the program
ends where it stands. -/
namespace FleetJobs

open FleetJobs.Fleet
open FleetJobs.Gateway

inductive Program (ε α : Type) where
  | done (result : α)
  | fail (failure : ε)
  | ask (call : Store.Call) (next : Except Store.Refusal call.Answer → Program ε α)
  | send (host : Host) (line : String) (next : Reply → Program ε α)
  | look (next : Job.Control → Program ε α)

namespace Program

variable {ε ε' α β : Type}

/-- One program, and after its result another. -/
def bind (p : Program ε α) (f : α → Program ε β) : Program ε β :=
  match p with
  | done a => f a
  | fail e => fail e
  | ask c next => ask c fun r => (next r).bind f
  | send h l next => send h l fun r => (next r).bind f
  | look next => look fun c => (next c).bind f

instance : Monad (Program ε) where
  pure := done
  bind := bind

theorem bind_done (p : Program ε α) : p.bind done = p := by
  induction p with
  | done | fail => rfl
  | ask c next ih => exact congrArg (ask c) (funext ih)
  | send h l next ih => exact congrArg (send h l) (funext ih)
  | look next ih => exact congrArg look (funext ih)

theorem bind_bind {γ : Type} (p : Program ε α) (f : α → Program ε β) (g : β → Program ε γ) :
    (p.bind f).bind g = p.bind fun a => (f a).bind g := by
  induction p with
  | done | fail => rfl
  | ask c next ih => exact congrArg (ask c) (funext ih)
  | send h l next ih => exact congrArg (send h l) (funext ih)
  | look next ih => exact congrArg look (funext ih)

instance : LawfulMonad (Program ε) := .mk' _ bind_done (fun _ _ => rfl) bind_bind

/-- The program with its failure as a result, so that one can go on after it. -/
def attempt : Program ε α → Program ε' (Except ε α)
  | done a => done (.ok a)
  | fail e => done (.error e)
  | ask c next => ask c fun r => (next r).attempt
  | send h l next => send h l fun r => (next r).attempt
  | look next => look fun c => (next c).attempt

end Program

end FleetJobs
