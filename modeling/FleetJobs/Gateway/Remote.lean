import FleetJobs.Program.Run

/-! Remote hosts, as far as jobs meet them: they answer commands, and while they do a
job's flags may change. -/
namespace FleetJobs.Gateway

open FleetJobs.Fleet
open FleetJobs.Job (Control Signal)

/-- What one command brings. -/
structure Answer (σ : Type) where
  reply : Reply
  /-- What happens to the job's flags meanwhile. -/
  signals : List Signal
  state : σ

/-- Remote hosts with a state of their own. -/
structure Remote (σ : Type) where
  answer : σ → Host → String → Answer σ

/-- The hosts together with the flags of one job. -/
def Remote.outside (r : Remote σ) : Outside (σ × Control) where
  send state host line :=
    let a := r.answer state.1 host line
    (a.reply, a.state, state.2.applyAll a.signals)
  look state := (state.2, state)

/-- Hosts whose reply hangs on the host and the command alone. -/
def Remote.ofReplies (f : Host → String → Reply) : Remote Unit := ⟨fun _ h l => ⟨f h l, [], ()⟩⟩

end FleetJobs.Gateway
