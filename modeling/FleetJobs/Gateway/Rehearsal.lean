import FleetJobs.Gateway.Remote

/-! Rehearsals: hosts that answer from a list of rules.

The first rule that fits a command answers it. A rule may be limited to a host, to
lines that hold a certain text, and to a number of uses; once used up it is passed
over. A command that no rule fits succeeds without output. -/
namespace FleetJobs.Gateway

open FleetJobs.Fleet
open FleetJobs.Job (Signal)

/-- What a rule answers. A failure of the transport gets the name of the host. -/
inductive ScriptedReply where
  | output (o : CommandOutput)
  | failure (f : String → TransportError)

structure Rule where
  address : Option String
  contains : Option String
  /-- How often the rule may still be used, if that is limited. -/
  uses : Option Nat
  signals : List Signal
  reply : ScriptedReply

/-- Whether one text is part of another. -/
def isPart (part : List Char) : List Char → Bool
  | [] => part.isEmpty
  | c :: rest => part.isPrefixOf (c :: rest) || isPart part rest

namespace Rule

def fits (r : Rule) (host : Host) (line : String) : Bool :=
  r.uses != some 0 &&
    (match r.address with
      | some a => a == host.address
      | none => true) &&
    match r.contains with
      | some part => isPart part.toList line.toList
      | none => true

/-- The rule after one more use. -/
def used (r : Rule) : Rule := { r with uses := r.uses.map fun n => n - 1 }

def answer (r : Rule) (host : Host) : Reply :=
  match r.reply with
  | .output o => .ok o
  | .failure f => .error (f host.display)

end Rule

/-- What the rules answer, and the rules after it. -/
def rehearse (host : Host) (line : String) : List Rule → Answer (List Rule)
  | [] => ⟨.ok ⟨0, "", ""⟩, [], []⟩
  | r :: rest =>
    if r.fits host line then ⟨r.answer host, r.signals, r.used :: rest⟩
    else
      let a := rehearse host line rest
      ⟨a.reply, a.signals, r :: a.state⟩

def rehearsal : Remote (List Rule) := ⟨fun rules host line => rehearse host line rules⟩

end FleetJobs.Gateway
