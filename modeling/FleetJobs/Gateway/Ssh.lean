import FleetJobs.Gateway.Remote
import FleetJobs.Text.Digits

/-! Commands over ssh, up to the moment when a session is open.

Every command opens a session of its own. The login is the one that the host names,
or else the one for all hosts; the port is passed only if the host names one. An
address that is a URL may name both, and then counts before all else. What comes of
opening is known only by trying, so it is given as a `Reachability`. -/
namespace FleetJobs.Gateway

open FleetJobs.Fleet

structure SshSettings where
  /-- Seconds for opening a session. -/
  connectTimeout : UInt64 := 3600
  /-- Seconds for a command once its session is open. -/
  readTimeout : UInt64 := 3600
  /-- The login on hosts that name none. -/
  user : Option String := none
  deriving DecidableEq, Repr

/-- Where an address leads, and what it says of port and login. -/
structure Destination where
  host : String
  port : Option UInt16
  user : Option String
  deriving DecidableEq, Repr

namespace Destination

/-- What stands before and after the last `c`. -/
def splitLast? (c : Char) (cs : List Char) : Option (List Char × List Char) :=
  let after := (cs.reverse.takeWhile (· != c)).length
  if after = cs.length then none
  else some (cs.take (cs.length - after - 1), cs.drop (cs.length - after))

/-- What an address in front of which a URL's scheme stood leads to. What follows its
last colon counts as a port only if it is one. -/
def ofAuthority (cs : List Char) : Destination :=
  let (user, cs) := match splitLast? '@' cs with
    | some (user, rest) => (some (String.ofList user), rest)
    | none => (none, cs)
  let portOf (cs : List Char) : Option UInt16 :=
    (Text.numberBelow? UInt16.size cs).map UInt16.ofNat
  match splitLast? ':' cs with
  | some (host, digits) =>
    match portOf digits with
    | some port => ⟨String.ofList host, some port, user⟩
    | none => ⟨String.ofList cs, none, user⟩
  | none => ⟨String.ofList cs, none, user⟩

/-- An address is a name, or a URL that may tell the login and the port. -/
def ofAddress (address : String) : Destination :=
  let scheme := "ssh://".toList
  if scheme.isPrefixOf address.toList then ofAuthority (address.toList.drop scheme.length)
  else ⟨address, none, none⟩

end Destination

/-- One attempt to open a session. Unknown host keys are always accepted. -/
structure Invocation where
  destination : String
  port : Option UInt16
  user : Option String
  connectTimeout : UInt64
  deriving DecidableEq, Repr

/-- How host keys are checked. -/
def Invocation.hostKeyCheck : String := "accept-new"

def SshSettings.invocation (s : SshSettings) (host : Host) : Invocation :=
  let d := Destination.ofAddress host.address
  { destination := d.host
    port := d.port <|> host.port
    user := d.user <|> host.user <|> s.user
    connectTimeout := s.connectTimeout }

/-- No program can be called with a word that holds a zero character. -/
def Invocation.isPossible (i : Invocation) : Bool :=
  !i.destination.toList.contains '\x00' && !(i.user.getD "").toList.contains '\x00'

/-- What comes of opening a session. -/
inductive Reachability where
  /-- There is no program to open sessions with. -/
  | missing
  /-- The connection is refused. -/
  | refuse
  /-- The connection is made, but there is no session behind it. -/
  | accept
  /-- Nothing comes until the time is up. -/
  | hang
  deriving DecidableEq, Repr

/-- What the sender of a command learns. A command with a zero character is refused as
soon as there is a session. -/
def Reachability.reply (r : Reachability) (s : SshSettings) (host : Host) (line : String) : Reply :=
  .error <| match r with
  | missing | refuse => .connect host.display .unreachable
  | accept =>
    .session host.display (if line.toList.contains '\x00' then .invalidCommand else .disconnected)
  | hang => .connectTimeout host.display s.connectTimeout

/-- Hosts behind ssh; the state is the attempts so far. -/
def ssh (s : SshSettings) (r : Reachability) : Remote (List Invocation) where
  answer attempts host line :=
    let i := s.invocation host
    match r with
    | .missing => ⟨r.reply s host line, [], attempts⟩
    | r =>
      if i.isPossible then ⟨r.reply s host line, [], attempts ++ [i]⟩
      else ⟨Reachability.missing.reply s host line, [], attempts⟩

end FleetJobs.Gateway
