import FleetJobs.Gateway.Ssh

/-! The words of a command line, read as options.

Words are taken one by one. A word in place of a value is checked only when the next
word that means something else arrives, or none is left; so of two mistakes the
earlier one is not always the one that is told (`Reading.settle`). A word that names
no option is told at once. -/
namespace FleetJobs.CommandLine

open FleetJobs.Gateway (SshSettings)

inductive Mode where
  | run
  | validate
  deriving DecidableEq, Repr

/-- The word for the mode. -/
def Mode.ofWord? : String → Option Mode
  | "r" => some .run
  | "v" => some .validate
  | _ => none

structure Options where
  mode : Mode
  jobFiles : List String
  inventory : String
  ssh : SshSettings
  agent : String
  /-- The step that passes start from. -/
  resumeFrom : Nat
  deriving DecidableEq, Repr

/-- Why there are no options: the words are wrong, or ask for something to read. -/
inductive Stop where
  | missingMode
  | invalidValue
  | badNumber
  | unneededValue
  | unknownArgument
  | repeated
  | help
  | version
  deriving DecidableEq, Repr

/-- Options that want a value, by the names that follow two dashes. -/
inductive Setting where
  | inventory
  | connectTimeout
  | readTimeout
  | sshUser
  | agent
  | resumeFrom
  deriving DecidableEq, Repr

namespace Setting

def name : Setting → String
  | inventory => "inventory"
  | connectTimeout => "connect-timeout"
  | readTimeout => "read-timeout"
  | sshUser => "ssh-user"
  | agent => "agent"
  | resumeFrom => "resume-from"

def all : List Setting := [inventory, connectTimeout, readTimeout, sshUser, agent, resumeFrom]

def ofName? (name : String) : Option Setting := all.find? fun s => s.name == name

/-- Whether the value is a number. -/
def isNumber : Setting → Bool
  | connectTimeout | readTimeout | resumeFrom => true
  | _ => false

end Setting

/-- A number of 64 bits. -/
def number? (word : String) : Option UInt64 :=
  (Text.numberBelow? UInt64.size word.toList).map UInt64.ofNat

/-- Words that stand for something but are not checked yet. -/
inductive Pending where
  | nothing
  | mode (word : String)
  | jobFiles (words : List String)
  | setting (s : Setting) (value : Option String)

/-- What is known after some of the words. -/
structure Reading where
  mode : Option Mode := none
  jobFiles : List String := []
  settings : List (Setting × String) := []
  pending : Pending := .nothing
  /-- Whether two dashes alone have ended the options. -/
  optionsEnded : Bool := false

namespace Reading

/-- A setting with its value; no setting comes twice. -/
def assign (r : Reading) (s : Setting) (value : String) : Except Stop Reading :=
  if (r.settings.lookup s).isSome then .error .repeated
  else if s.isNumber && (number? value).isNone then .error .badNumber
  else .ok { r with settings := (s, value) :: r.settings }

/-- Checks what is pending. -/
def settle (r : Reading) : Except Stop Reading :=
  let clear : Reading := { r with pending := .nothing }
  match r.pending with
  | .nothing => .ok clear
  | .mode word =>
    match Mode.ofWord? word with
    | some m => .ok { clear with mode := some m }
    | none => .error .invalidValue
  | .jobFiles words => .ok { clear with jobFiles := r.jobFiles ++ words }
  | .setting _ none => .error .invalidValue
  | .setting s (some value) => clear.assign s value

/-- A word that stands by itself: the mode if there is none yet, else a job file. -/
def standalone (r : Reading) (word : String) : Except Stop Reading :=
  match r.pending with
  | .jobFiles words => .ok { r with pending := .jobFiles (words ++ [word]) }
  | _ => do
    let r ← r.settle
    return { r with pending := if r.mode.isNone then .mode word else .jobFiles [word] }

/-- A word that is no option: the value that one waits for, or a word by itself. -/
def plain (r : Reading) (word : String) : Except Stop Reading :=
  match r.pending with
  | .setting s none => .ok { r with pending := .setting s (some word) }
  | _ => r.standalone word

/-- A request for something to read, which counts once what came before is right. -/
def ask (r : Reading) (what : Stop) : Except Stop Reading := do
  let _ ← r.settle
  throw what

/-- An option by its name, with the value that is attached to it, if one is. -/
def option (r : Reading) (name : String) (attached : Option String) : Except Stop Reading :=
  match name, attached with
  | "help", none => r.ask .help
  | "version", none => r.ask .version
  | "help", some _ | "version", some _ => .error .unneededValue
  | name, attached =>
    match Setting.ofName? name with
    | none => .error .unknownArgument
    | some s => do
      let r ← r.settle
      match attached with
      | some value => r.assign s value
      | none => return { r with pending := .setting s none }

/-- A text before its first equality sign, and the text after it. -/
def splitValue (cs : List Char) : String × Option String :=
  (String.ofList (cs.takeWhile (· != '=')),
    match cs.dropWhile (· != '=') with
    | [] => none
    | _ :: value => some (String.ofList value))

/-- One more word. -/
def word (r : Reading) (w : String) : Except Stop Reading :=
  if r.optionsEnded then r.standalone w
  else
    match w.toList with
    | ['-', '-'] => .ok { r with optionsEnded := true }
    | '-' :: '-' :: rest => r.option (splitValue rest).1 (splitValue rest).2
    | '-' :: 'h' :: _ => r.ask .help
    | '-' :: 'V' :: _ => r.ask .version
    | '-' :: _ :: _ => .error .unknownArgument
    | _ => r.plain w

def text (r : Reading) (s : Setting) (otherwise : String) : String :=
  (r.settings.lookup s).getD otherwise

def number (r : Reading) (s : Setting) (otherwise : UInt64) : UInt64 :=
  ((r.settings.lookup s).bind number?).getD otherwise

end Reading

/-- The options that the words of a command line give. -/
def Options.ofWords (words : List String) : Except Stop Options := do
  let r ← words.foldlM Reading.word {}
  let r ← r.settle
  match r.mode with
  | none => throw .missingMode
  | some mode =>
    return {
      mode
      jobFiles := if r.jobFiles.isEmpty then ["job.yaml"] else r.jobFiles
      inventory := r.text .inventory "inventory.yaml"
      ssh := {
        connectTimeout := r.number .connectTimeout 3600
        readTimeout := r.number .readTimeout 3600
        user := r.settings.lookup .sshUser }
      agent := r.text .agent "hydra-agent"
      resumeFrom := (r.number .resumeFrom 0).toNat }

namespace Stop

/-- What is shown instead of running. -/
def output : Stop → String
  | version => "lustre-jobs 0.1.0\n"
  | help => "Usage: lustre-jobs [OPTIONS] <MODE> [JOB_FILES]...

Arguments:
  <MODE>          Run (r) the job files, or only Validate (v) them [possible values: r, v]
  [JOB_FILES]...  Job files to run. Jobs run concurrently; steps within a job run in order " ++
    "[default: job.yaml]

Options:
      --inventory <INVENTORY>
          Inventory file holding hosts, targets, devices and conf params [default: inventory.yaml]
      --connect-timeout <CONNECT_TIMEOUT>
          Seconds allowed for establishing an SSH connection [default: 3600]
      --read-timeout <READ_TIMEOUT>
          Seconds allowed for a remote command to complete [default: 3600]
      --ssh-user <SSH_USER>
          SSH login for hosts that don't name one in the inventory
      --agent <AGENT>
          Agent executable on the storage servers [default: hydra-agent]
      --resume-from <RESUME_FROM>
          Step index to resume from (for a job that was paused) [default: 0]
  -h, --help
          Print help
  -V, --version
          Print version
"
  | _ => ""

/-- Only wrong words make a command fail. -/
def exitCode : Stop → UInt32
  | help | version => 0
  | _ => 2

end Stop

end FleetJobs.CommandLine
