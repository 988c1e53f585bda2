import FleetJobs.Text.ShellWord

/-! Command lines for hosts.

A line is a list of words, each quoted for the shell, so that a host's shell takes
the same words out of it again, whatever characters they hold. Most lines go to the
agent that is installed on the hosts; the transport layer and configuration
parameters have tools of their own. -/
namespace FleetJobs.Command

open FleetJobs.Text

/-- Words as one line. -/
def lineOf (words : List String) : String := " ".intercalate (words.map ShellWord.quote)

/-- What the agent is asked to do. -/
inductive AgentRequest where
  | locateDevice (uuid : String)
  | formatTarget (args : String)
  | startTarget (label : String)
  | stopTarget (label : String)
  | registerTarget (device mountPoint : String)
  | configureHa (device label : String) (primary : Bool) (mountPoint : String)
  deriving DecidableEq, Repr

namespace AgentRequest

/-- The words after the agent's name. -/
def words : AgentRequest → List String
  | locateDevice uuid => ["locate-device", "--uuid", uuid]
  | formatTarget args => ["format-target", "--args", args]
  | startTarget label => ["start-target", "--label", label]
  | stopTarget label => ["stop-target", "--label", label]
  | registerTarget device mountPoint =>
    ["register-target", "--device", device, "--mountpoint", mountPoint]
  | configureHa device label primary mountPoint =>
    ["configure-ha", "--device", device, "--label", label] ++
      (if primary then ["--primary"] else []) ++ ["--mountpoint", mountPoint]

/-- The line for an agent. The agent's name stands as it is: it may be several words. -/
def line (agent : String) (r : AgentRequest) : String := agent ++ " " ++ lineOf r.words

end AgentRequest

/-- What the transport layer is told to do. -/
inductive LnetAction where
  | start
  | stop
  | load
  | unload
  deriving DecidableEq, Repr

def LnetAction.words : LnetAction → List String
  | start => ["lctl", "network", "up"]
  | stop => ["lctl", "network", "down"]
  | load => ["modprobe", "lnet"]
  | unload => ["lustre_rmmod"]

def LnetAction.line (a : LnetAction) : String := lineOf a.words

/-- The words that set a parameter, or delete it if there is no value. -/
def directiveWords (key : String) : Option String → List String
  | some value => ["lctl", "conf_param", key ++ "=" ++ value]
  | none => ["lctl", "conf_param", "-d", key]

def directive (key : String) (value : Option String) : String := lineOf (directiveWords key value)

end FleetJobs.Command
