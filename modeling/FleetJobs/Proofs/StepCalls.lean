import FleetJobs.Proofs.Calls
import FleetJobs.Step.Execute

/-! What each kind of step writes.

`Program.Asks` speaks of all calls that a program may make, whatever it is told; it is
read off the program's tree and composes as programs do. Most steps only look things up.
The kinds that write make a few kinds of call each, on the record that the step names or
on what they have looked up from there (`StepKind.Writes`), and `asks_program` says so
of all kinds. -/
namespace FleetJobs

open FleetJobs.Fleet
open FleetJobs.Gateway

namespace Program

variable {ε α β : Type}

/-- Every call that the program may make is as `P` says. -/
def Asks (P : Store.Call → Prop) : Program ε α → Prop
  | done _ | fail _ => True
  | ask c next => P c ∧ ∀ r, (next r).Asks P
  | send _ _ next => ∀ reply, (next reply).Asks P
  | look next => ∀ flags, (next flags).Asks P

theorem Asks.mono {P P' : Store.Call → Prop} (hP : ∀ c, P c → P' c) {p : Program ε α}
    (h : p.Asks P) : p.Asks P' := by
  induction p with
  | done | fail => trivial
  | ask c next ih => exact ⟨hP c h.1, fun r => ih r (h.2 r)⟩
  | send host line next ih => exact fun reply => ih reply (h reply)
  | look next ih => exact fun flags => ih flags (h flags)

theorem Asks.bind {P : Store.Call → Prop} {p : Program ε α} {f : α → Program ε β}
    (hp : p.Asks P) (hf : ∀ a, (f a).Asks P) : (p >>= f).Asks P := by
  induction p with
  | done a => exact hf a
  | fail => trivial
  | ask c next ih => exact ⟨hp.1, fun r => ih r (hp.2 r)⟩
  | send host line next ih => exact fun reply => ih reply (hp reply)
  | look next ih => exact fun flags => ih flags (hp flags)

end Program

namespace Step

open FleetJobs.Program (Asks)

variable {α : Type} {P : Store.Call → Prop}

/-! ### The moves that steps are made of -/

theorem asks_call {c : Store.Call} (hc : P c) : (call c).Asks P :=
  ⟨hc, fun r => by cases r <;> trivial⟩

theorem asks_command {idempotent : Bool} {host : Host} {line : String} :
    (command idempotent host line).Asks P := fun reply => by cases reply <;> trivial

theorem asks_harmless {action : String} {host : Host} {line : String} :
    (harmless action host line).Asks P :=
  asks_command.bind fun output => by split <;> trivial

theorem asks_risky {action : String} {host : Host} {line : String} :
    (risky action host line).Asks P :=
  asks_command.bind fun output => by split <;> trivial

theorem asks_decode {r : Except Data.ReadError α} : (decode r).Asks P := by
  cases r <;> trivial

theorem asks_primaryAmong {mounts : List TargetMount} {target : TargetId} :
    (primaryAmong mounts target).Asks P := by
  unfold primaryAmong
  split <;> trivial

theorem asks_tryEach {line : String} (cs : List Candidate) : (tryEach line cs).Asks P := by
  induction cs with
  | nil => trivial
  | cons c cs ih =>
    intro reply
    rcases reply with e | output
    · exact ih
    · dsimp only
      split
      · trivial
      · exact ih

/-! ### Steps -/

section Steps

variable (lookups : ∀ c, c.isWrite = false → P c)
include lookups

theorem asks_lookup {c : Store.Call} (hc : c.isWrite = false) : (call c).Asks P :=
  asks_call (lookups c hc)

theorem asks_primaryServer (target : TargetId) : (primaryServer target).Asks P :=
  (asks_lookup lookups rfl).bind fun _ => asks_primaryAmong.bind fun _ => asks_lookup lookups rfl

theorem asks_nidsOf (mounts : List TargetMount) : (nidsOf mounts).Asks P := by
  induction mounts with
  | nil => trivial
  | cons m rest ih => exact (asks_lookup lookups rfl).bind fun _ => ih.bind fun _ => trivial

theorem asks_pairUp (mounts : List TargetMount) : (pairUp mounts).Asks P := by
  induction mounts with
  | nil => trivial
  | cons m rest ih => exact (asks_lookup lookups rfl).bind fun _ => ih.bind fun _ => trivial

theorem asks_volumeOf (target : TargetId) : (volumeOf target).Asks P := by
  refine (asks_lookup lookups rfl).bind fun _ => asks_primaryAmong.bind fun primary => ?_
  split
  · trivial
  · refine (asks_lookup lookups rfl).bind fun node => ?_
    split
    · trivial
    · exact asks_lookup lookups rfl

theorem asks_recordDevice (host : Host) (location : Command.DeviceLocation) (lun : Lun)
    (create : ∀ device lun, P (.createLunNode device lun))
    (attach : ∀ node lun, P (.attachLun node lun)) : (recordDevice host location lun).Asks P := by
  refine (asks_lookup lookups rfl).bind fun found => ?_
  split
  · exact (asks_call (attach _ _)).bind fun _ => trivial
  · exact (asks_call (create _ _)).bind fun _ => trivial

theorem asks_findDevice (agent : String) (id : TargetMountId)
    (set : ∀ node, P (.setBlockDevice id node))
    (create : ∀ device lun, P (.createLunNode device lun))
    (attach : ∀ node lun, P (.attachLun node lun)) : (findDevice agent id).Asks P := by
  refine (asks_lookup lookups rfl).bind fun mount => ?_
  split
  · trivial
  · trivial
  · refine (asks_volumeOf lookups _).bind fun lun => ?_
    split
    · trivial
    · refine (asks_lookup lookups rfl).bind fun host => asks_harmless.bind fun output =>
        asks_decode.bind fun found => ?_
      split
      · trivial
      · exact (asks_recordDevice lookups host _ lun create attach).bind fun node =>
          asks_call (set node)

theorem asks_managementNids (mgs : TargetId) : (managementNids mgs).Asks P :=
  (asks_lookup lookups rfl).bind fun _ => asks_nidsOf lookups _

theorem asks_formatArgs (target : Target) (mounts : List TargetMount) (device : LunNode) :
    (formatArgs target mounts device).Asks P := by
  unfold formatArgs
  dsimp only
  split
  · exact (asks_nidsOf lookups _).bind fun _ => trivial
  · exact (asks_lookup lookups rfl).bind fun fs =>
      (asks_managementNids lookups fs.mgs).bind fun _ =>
        (asks_nidsOf lookups _).bind fun _ => trivial

theorem asks_formatTarget (agent : String) (id : TargetId)
    (set : ∀ lun uuid, P (.setLunUuid lun uuid)) (create : ∀ uuid, P (.createLun uuid))
    (attach : ∀ node lun, P (.attachLun node lun)) : (formatTarget agent id).Asks P := by
  refine (asks_lookup lookups rfl).bind fun target => (asks_lookup lookups rfl).bind fun mounts =>
    asks_primaryAmong.bind fun primary => ?_
  dsimp only
  split
  · refine (asks_lookup lookups rfl).bind fun node => (asks_lookup lookups rfl).bind fun host =>
      (asks_formatArgs lookups target mounts node).bind fun args => asks_risky.bind fun output =>
        asks_decode.bind fun result => ?_
    unfold recordUuid
    split
    · exact asks_call (set _ _)
    · exact (asks_call (create _)).bind fun lun => asks_call (attach _ _)
  · trivial

theorem asks_requestByLabel (agent : String) (id : TargetId)
    (request : String → Command.AgentRequest) : (requestByLabel agent id request).Asks P := by
  refine (asks_lookup lookups rfl).bind fun target => ?_
  split
  · trivial
  · refine (asks_lookup lookups rfl).bind fun mounts =>
      (asks_pairUp lookups mounts).bind fun pairs => (asks_tryEach _).bind fun succeeded => ?_
    split <;> trivial

theorem asks_registerTarget (agent : String) (id : TargetMountId)
    (set : ∀ target name, P (.setTargetName target name)) : (registerTarget agent id).Asks P := by
  refine (asks_lookup lookups rfl).bind fun mount => ?_
  split
  · trivial
  · exact (asks_lookup lookups rfl).bind fun node => (asks_lookup lookups rfl).bind fun host =>
      asks_harmless.bind fun output => asks_decode.bind fun result => asks_call (set _ _)

theorem asks_configurePacemaker (agent : String) (id : TargetMountId) :
    (configurePacemaker agent id).Asks P := by
  refine (asks_lookup lookups rfl).bind fun mount => (asks_lookup lookups rfl).bind fun target => ?_
  split
  · trivial
  · trivial
  · exact (asks_lookup lookups rfl).bind fun node => (asks_lookup lookups rfl).bind fun host =>
      asks_harmless.bind fun _ => trivial

theorem asks_controlLnet (host : HostId) (action : Command.LnetAction) :
    (controlLnet host action).Asks P :=
  (asks_lookup lookups rfl).bind fun _ => asks_harmless.bind fun _ => trivial

theorem asks_applyConfParam (id : ConfParamId) : (applyConfParam id).Asks P := by
  refine (asks_lookup lookups rfl).bind fun p => Asks.bind ?_ fun key =>
    (asks_primaryServer lookups _).bind fun server => asks_risky.bind fun _ => trivial
  unfold fullKey
  split
  · exact (asks_lookup lookups rfl).bind fun _ => trivial
  · refine (asks_lookup lookups rfl).bind fun target => ?_
    split <;> trivial

theorem asks_recordVersion (mgs : TargetId) (version : UInt64)
    (set : P (.setVersionApplied mgs version)) : (recordVersion mgs version).Asks P := by
  refine (asks_lookup lookups rfl).bind fun record => ?_
  split
  · trivial
  · exact asks_call set

end Steps

/-- The writes that a step of the kind may make. -/
def StepKind.Writes : StepKind → Store.Call → Prop
  | findDevice m, .setBlockDevice m' _ => m' = m
  | findDevice _, .createLunNode .. | findDevice _, .attachLun .. => True
  | mkfs _, .setLunUuid .. | mkfs _, .createLun _ | mkfs _, .attachLun .. => True
  | registerTarget _, .setTargetName .. => True
  | confParamVersion m v, .setVersionApplied m' v' => m' = m ∧ v' = v
  | _, _ => False

/-- **Every call of a step is a lookup or one of the writes of its kind.** -/
theorem asks_program (agent : String) (k : StepKind) :
    (k.program agent).Asks fun c => c.isWrite = false ∨ k.Writes c := by
  have lookups : ∀ c, Store.Call.isWrite c = false → c.isWrite = false ∨ k.Writes c :=
    fun c hc => .inl hc
  cases k with
  | null => trivial
  | findDevice m =>
    exact asks_findDevice lookups agent m (fun _ => .inr rfl) (fun _ _ => .inr trivial)
      fun _ _ => .inr trivial
  | mkfs t =>
    exact asks_formatTarget lookups agent t (fun _ _ => .inr trivial) (fun _ => .inr trivial)
      fun _ _ => .inr trivial
  | mount t => exact asks_requestByLabel lookups agent t .startTarget
  | unmount t => exact asks_requestByLabel lookups agent t .stopTarget
  | registerTarget m => exact asks_registerTarget lookups agent m fun _ _ => .inr trivial
  | configurePacemaker m => exact asks_configurePacemaker lookups agent m
  | startLnet h => exact asks_controlLnet lookups h .start
  | stopLnet h => exact asks_controlLnet lookups h .stop
  | loadLnet h => exact asks_controlLnet lookups h .load
  | unloadLnet h => exact asks_controlLnet lookups h .unload
  | confParam p => exact asks_applyConfParam lookups p
  | confParamVersion m v => exact asks_recordVersion lookups m v (.inr ⟨rfl, rfl⟩)

end Step

end FleetJobs
