import FleetJobs.Data.Variant

/-! What comes back from a host: what a command did, or why nothing is known of it.

A command that ran is never judged here, whatever its exit code; that is for the one
who sent it. A `TransportError` tells whether the command may have started. -/
namespace FleetJobs.Gateway

open FleetJobs.Data

/-- Everything that a command produced. -/
structure CommandOutput where
  exitCode : Int32
  stdout : String
  stderr : String
  deriving DecidableEq, Repr

def CommandOutput.success (o : CommandOutput) : Bool := o.exitCode == 0

/-- What broke a session with a host. -/
inductive SessionFault where
  | disconnected
  | terminated
  | invalidCommand
  | unreachable
  /-- A fault that is known by its words only. -/
  | told (text : String)
  deriving DecidableEq, Repr

def SessionFault.message : SessionFault → String
  | disconnected => "the connection was terminated"
  | terminated => "the remote process has terminated"
  | invalidCommand => "invalid command: Command contains null byte."
  | unreachable => "failed to connect to the remote host"
  | told text => text

/-- Why nothing is known of a command. The host goes by the name that messages give it. -/
inductive TransportError where
  | connect (host : String) (fault : SessionFault)
  | connectTimeout (host : String) (seconds : UInt64)
  | timeout (host : String) (seconds : UInt64)
  | session (host : String) (fault : SessionFault)
  deriving DecidableEq, Repr

namespace TransportError

/-- Whether the command may have started before the failure. -/
def started : TransportError → Bool
  | connect .. | connectTimeout .. => false
  | timeout .. | session .. => true

def message : TransportError → String
  | connect host fault => s!"Failed to connect to {host}: {fault.message}"
  | connectTimeout host seconds => s!"Timed out connecting to {host} after {seconds}s"
  | timeout host seconds => s!"Command on {host} did not complete within {seconds}s"
  | session host fault => s!"SSH session to {host} failed while running a command: {fault.message}"

end TransportError

/-- The answer to a command that was sent. -/
abbrev Reply := Except TransportError CommandOutput

/-- A command and what came of it, as reports show it. -/
structure CommandRecord where
  host : String
  command : String
  /-- None if the command has no exit code because the transport failed. -/
  exitCode : Option Int32
  stdout : String
  stderr : String
  deriving DecidableEq, Repr

namespace CommandRecord

def ofReply (host command : String) : Reply → CommandRecord
  | .ok o => ⟨host, command, some o.exitCode, o.stdout, o.stderr⟩
  | .error e => ⟨host, command, none, "", e.message⟩

def toDatum (r : CommandRecord) : Datum := .record
  [("host", .text r.host), ("command", .text r.command),
    ("exit_code", .optional (fun c : Int32 => .integer c.toInt) r.exitCode),
    ("stdout", .text r.stdout), ("stderr", .text r.stderr)]

def reader : Reader CommandRecord := Reader.record "struct CommandRecord" <|
  (Fields.pure CommandRecord.mk).and (.required "host" Reader.text)
    |>.and (.required "command" Reader.text)
    |>.and (.nullable "exit_code" Reader.int32)
    |>.and (.required "stdout" Reader.text)
    |>.and (.required "stderr" Reader.text)

end CommandRecord

end FleetJobs.Gateway
