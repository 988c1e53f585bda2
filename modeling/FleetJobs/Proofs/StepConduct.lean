import FleetJobs.Proofs.StepRules
import FleetJobs.Step.Execute

/-! How every step behaves, whatever the store and the hosts answer.

`Classified` says how a step may end, given the commands that it sent: dirty exactly if a
command that may not be run twice may have been left half done, clean only if nothing was
done that may not be done again, failed only if no command went wrong. `Settled` adds that
a step that does not succeed has written nothing. One lemma a step reads this off its
program, and `upholds_program` says it of all of them. -/
namespace FleetJobs

namespace Sent

/-- The command exited zero. -/
def succeeded (c : Sent) : Bool :=
  match c.reply with
  | .ok output => output.exitCode == 0
  | .error _ => false

/-- The command may have been left half done: it exited nonzero, or was lost after it
was started. -/
def halfDone (c : Sent) : Bool :=
  match c.reply with
  | .ok output => output.exitCode != 0
  | .error (.timeout ..) | .error (.session ..) => true
  | .error (.connect ..) | .error (.connectTimeout ..) => false

/-- The host was not reached. -/
def unreached (c : Sent) : Bool :=
  match c.reply with
  | .ok _ | .error (.timeout ..) | .error (.session ..) => false
  | .error (.connect ..) | .error (.connectTimeout ..) => true

theorem succeeded_eq_false_of_halfDone {c : Sent} (h : c.halfDone = true) : c.succeeded = false := by
  unfold halfDone at h
  unfold succeeded
  split at h <;> simp_all

theorem halfDone_eq_false_of_succeeded {c : Sent} (h : c.succeeded = true) : c.halfDone = false := by
  cases hc : c.halfDone
  · rfl
  · rw [succeeded_eq_false_of_halfDone hc] at h
    cases h

theorem halfDone_eq_false_of_unreached {c : Sent} (h : c.unreached = true) : c.halfDone = false := by
  unfold unreached at h
  unfold halfDone
  split at h <;> simp_all

theorem halfDone_of_nonzero {host : Fleet.Host} {line : String} {output : Gateway.CommandOutput}
    (h : output.success = false) : halfDone ⟨host, line, .ok output⟩ = true := by
  simpa [halfDone, Gateway.CommandOutput.success] using h

theorem halfDone_of_started {host : Fleet.Host} {line : String} {e : Gateway.TransportError}
    (h : e.started = true) : halfDone ⟨host, line, .error e⟩ = true := by
  cases e <;> first | rfl | cases h

theorem unreached_of_unstarted {host : Fleet.Host} {line : String} {e : Gateway.TransportError}
    (h : e.started = false) : unreached ⟨host, line, .error e⟩ = true := by
  cases e <;> first | rfl | cases h

end Sent

namespace Step

open FleetJobs.Fleet
open FleetJobs.Gateway
open FleetJobs.Program (Upholds)

/-- Whether the step tries several hosts. -/
def StepKind.fansOut : StepKind → Bool
  | mount _ | unmount _ => true
  | _ => false

/-- How a step of the kind may end, having sent these commands. -/
structure Classified (k : StepKind) (sent : List Sent) (e : Ending Failure Unit) : Prop where
  dirty : (∃ r, e = .failed (.dirty r)) ↔
    k.isIdempotent = false ∧ ∃ c, sent = [c] ∧ c.halfDone = true
  clean : ∀ r, e = .failed (.clean r) → k.isIdempotent = false →
    ∃ c, sent = [c] ∧ c.unreached = true
  failed : ∀ cause, e = .failed (.failed cause) →
    sent = [] ∨ ∃ c, sent = [c] ∧ c.succeeded = true
  single : k.fansOut = false → sent.length ≤ 1 ∧
    ∀ c ∈ sent, c.succeeded = false → ∃ r, e = .failed (.clean r) ∨ e = .failed (.dirty r)

namespace Classified

variable {k : StepKind} {e : Ending Failure Unit} {c : Sent} {r : Reason}

/-- Without a command, a step that may not be run twice does not end clean. -/
theorem unsent (hd : ∀ r, e ≠ .failed (.dirty r))
    (hc : ∀ r, e = .failed (.clean r) → k.isIdempotent = true) : Classified k [] e where
  dirty := by simpa using hd
  clean r he hk := by simp [hc r he] at hk
  failed _ _ := .inl rfl
  single _ := by simp

/-- After its command succeeded a step does not end clean or dirty. -/
theorem succeeded (h : c.succeeded = true) (hd : ∀ r, e ≠ .failed (.dirty r))
    (hc : ∀ r, e ≠ .failed (.clean r)) : Classified k [c] e where
  dirty := by simpa [Sent.halfDone_eq_false_of_succeeded h] using hd
  clean r he := absurd he (hc r)
  failed _ _ := .inr ⟨c, rfl, h⟩
  single _ := by simp [h]

theorem harmless (hk : k.isIdempotent = true) : Classified k [c] (.failed (.clean r)) where
  dirty := by simp [hk]
  clean := by simp [hk]
  failed := by simp
  single _ := by simp

theorem halfDone (hk : k.isIdempotent = false) (h : c.halfDone = true) :
    Classified k [c] (.failed (.dirty r)) where
  dirty := by simp [hk, h]
  clean := by simp
  failed := by simp
  single _ := by simp

theorem unreached (h : c.unreached = true) : Classified k [c] (.failed (.clean r)) where
  dirty := by simp [Sent.halfDone_eq_false_of_unreached h]
  clean := by simp [h]
  failed := by simp
  single _ := by simp

/-- A step that tries several hosts fails outright only before the first. -/
theorem fannedOut {sent : List Sent} (hk : k.isIdempotent = true) (hf : k.fansOut = true)
    (hd : ∀ r, e ≠ .failed (.dirty r)) (hc : ∀ cause, e ≠ .failed (.failed cause)) :
    Classified k sent e where
  dirty := by simpa [hk] using hd
  clean := by simp [hk]
  failed cause he := absurd he (hc cause)
  single := by simp [hf]

end Classified

/-- How a step of the kind may end after a history. -/
structure Settled (k : StepKind) (h : List Event) (e : Ending Failure Unit) : Prop where
  classified : Classified k (commands h) e
  unseen : ∀ event ∈ h, event.isLook = false
  unwritten : e ≠ .done () → Unwritten h

/-- What is asked of every step. -/
def settled (k : StepKind) : Post Failure Unit := fun h e _ => Settled k h e

section Endings

variable {k : StepKind} {sent : List Sent} {h : List Event} {e : Ending Failure Unit} {c : Sent}

theorem Before.settled (hb : Before sent h) (hc : Classified k sent e) : Settled k h e where
  classified := hb.commands ▸ hc
  unseen := hb.unseen
  unwritten _ := hb.unwritten

theorem Quiet.settled (hq : Quiet sent h) (hc : Classified k sent (.done ())) :
    Settled k h (.done ()) where
  classified := hq.commands ▸ hc
  unseen := hq.unseen
  unwritten hne := absurd rfl hne

/-- A lookup before any command ends the step outright. -/
theorem Before.lookup_failed (hb : Before [] h) (cause : Cause) :
    Settled k h (.failed (.failed cause)) :=
  hb.settled (.unsent (by simp) (by simp))

theorem Before.refused_early (hb : Before [] h) (hk : k.isIdempotent = true) (r : Reason) :
    Settled k h (.failed (.clean r)) :=
  hb.settled (.unsent (by simp) fun _ _ => hk)

/-- So does an answer that makes no sense, after a command that succeeded. -/
theorem Before.answer_failed (hb : Before [c] h) (hc : c.succeeded = true) (cause : Cause) :
    Settled k h (.failed (.failed cause)) :=
  hb.settled (.succeeded hc (by simp) (by simp))

end Endings

/-! ### How the parts of a step settle it -/

section Parts

variable {α β : Type} {k : StepKind} {h : List Event} {s : Store} {K : α → Store → Prop}

/-- Lookups before any command: if one finds nothing, the step is over. -/
theorem Reads.first {p : StepProgram α} (hp : Reads s K p) (hb : Before [] h)
    {f : α → StepProgram Unit}
    (next : ∀ a h' s', Before [] h' → s.Grows s' → K a s' →
      (f a).Upholds terms (settled k) h' s') :
    (p >>= f).Upholds terms (settled k) h s :=
  hp.followed hb next fun cause _ _ hb _ => hb.lookup_failed cause

/-- An answer that is read after its command succeeded. -/
theorem Reads.answering {p : StepProgram α} (hp : Reads s K p) {c : Sent} (hb : Before [c] h)
    (hc : c.succeeded = true) {f : α → StepProgram Unit}
    (next : ∀ a h' s', Before [c] h' → s.Grows s' → K a s' →
      (f a).Upholds terms (settled k) h' s') :
    (p >>= f).Upholds terms (settled k) h s :=
  hp.followed hb next fun cause _ _ hb _ => hb.answer_failed hc cause

variable {action line : String} {host : Host} {f : CommandOutput → StepProgram Unit}

/-- The one command of a step that may be run twice. -/
theorem upholds_harmless_only (hb : Before [] h) (hk : k.isIdempotent = true)
    (success : ∀ output h', output.success = true → Before [⟨host, line, .ok output⟩] h' →
      (f output).Upholds terms (settled k) h' s) :
    (harmless action host line >>= f).Upholds terms (settled k) h s :=
  upholds_harmless (fun output ho => success output _ ho (hb.replied _))
    fun _ _ => (hb.replied _).settled (.harmless hk)

/-- The one command of a step that may not be run twice. -/
theorem upholds_risky_only (hb : Before [] h) (hk : k.isIdempotent = false)
    (success : ∀ output h', output.success = true → Before [⟨host, line, .ok output⟩] h' →
      (f output).Upholds terms (settled k) h' s) :
    (risky action host line >>= f).Upholds terms (settled k) h s := by
  refine upholds_risky (fun output ho => ?_) (fun output r ho => ?_) (fun e r he => ?_) fun e r he => ?_
  · exact success output _ ho (hb.replied _)
  · exact (hb.replied _).settled (.halfDone hk (Sent.halfDone_of_nonzero ho))
  · exact (hb.replied _).settled (.halfDone hk (Sent.halfDone_of_started he))
  · exact (hb.replied _).settled (.unreached (Sent.unreached_of_unstarted he))

/-- The one write of a step, and the last that it does. -/
theorem upholds_last_call {sent : List Sent} (hb : Before sent h) {c : Store.Call}
    {f : c.Answer → StepProgram Unit}
    (done : ∀ a h s, Quiet sent h → (f a).Upholds terms (settled k) h s)
    (failed : ∀ cause h, Before sent h → Settled k h (.failed (.failed cause)))
    (exhausted : ∀ h, Before sent h → Settled k h .exhausted) :
    (call c >>= f).Upholds terms (settled k) h s := by
  refine upholds_call hb.unwritten (fun a _ s' _ _ => ?_) (fun r _ _ _ => ?_) fun _ _ _ => ?_
  · exact done a _ s' (hb.answered c)
  · exact failed _ _ (hb.call rfl rfl rfl)
  · exact exhausted _ (hb.call rfl rfl rfl)

end Parts

/-! ### Every kind of step -/

section Steps

variable {k : StepKind} {h : List Event} {s : Store}

theorem upholds_controlLnet (hb : Before [] h) (hk : k.isIdempotent = true) (id : HostId)
    (action : Command.LnetAction) : (controlLnet id action).Upholds terms (settled k) h s := by
  refine (reads_lookup rfl).first hb fun host h s hb _ _ => ?_
  refine upholds_harmless_only hb hk fun output h ho hb => ?_
  exact hb.settled (.succeeded ho (by simp) (by simp))

theorem upholds_registerTarget (hb : Before [] h) (hk : k.isIdempotent = true) (agent : String)
    (id : TargetMountId) : (Step.registerTarget agent id).Upholds terms (settled k) h s := by
  refine (reads_lookup rfl).first hb fun mount h s hb _ _ => ?_
  split
  · exact hb.refused_early hk _
  · refine (reads_lookup rfl).first hb fun node h s hb _ _ => ?_
    refine (reads_lookup rfl).first hb fun host h s hb _ _ => ?_
    refine upholds_harmless_only hb hk fun output h ho hb => ?_
    refine reads_decode.answering hb ho fun result h s hb _ _ => ?_
    rw [call_eq_bind]
    refine upholds_last_call hb (fun _ h s hq => ?_) (fun cause h hb => hb.answer_failed ho cause)
      fun h hb => ?_
    · exact hq.settled (.succeeded ho (by simp) (by simp))
    · exact hb.settled (.succeeded ho (by simp) (by simp))

theorem upholds_configurePacemaker (hb : Before [] h) (hk : k.isIdempotent = true)
    (agent : String) (id : TargetMountId) :
    (Step.configurePacemaker agent id).Upholds terms (settled k) h s := by
  refine (reads_lookup rfl).first hb fun mount h s hb _ _ => ?_
  refine (reads_lookup rfl).first hb fun target h s hb _ _ => ?_
  split
  · exact hb.refused_early hk _
  · exact hb.refused_early hk _
  · refine (reads_lookup rfl).first hb fun node h s hb _ _ => ?_
    refine (reads_lookup rfl).first hb fun host h s hb _ _ => ?_
    refine upholds_harmless_only hb hk fun output h ho hb => ?_
    exact hb.settled (.succeeded ho (by simp) (by simp))

theorem reads_fullKey (p : ConfParam) : Reads s anything (fullKey p) := by
  unfold fullKey
  split
  · exact (reads_lookup rfl).bind fun fs s _ _ => Reads.done trivial
  · refine (reads_lookup rfl).bind fun target s _ _ => ?_
    split
    · exact Reads.done trivial
    · exact reads_inconsistent

theorem upholds_applyConfParam (hb : Before [] h) (hk : k.isIdempotent = false)
    (id : ConfParamId) : (applyConfParam id).Upholds terms (settled k) h s := by
  refine (reads_lookup rfl).first hb fun p h s hb _ _ => ?_
  refine (reads_fullKey p).first hb fun key h s hb _ _ => ?_
  refine (reads_primaryServer _).first hb fun server h s hb _ _ => ?_
  refine upholds_risky_only hb hk fun output h ho hb => ?_
  exact hb.settled (.succeeded ho (by simp) (by simp))

theorem upholds_recordVersion (hb : Before [] h) (mgs : TargetId) (version : UInt64) :
    (recordVersion mgs version).Upholds terms (settled k) h s := by
  refine (reads_lookup rfl).first hb fun record h s hb _ _ => ?_
  split
  · exact hb.settled (.unsent (by simp) (by simp))
  · rw [call_eq_bind]
    refine upholds_last_call hb (fun _ h s hq => ?_) (fun cause h hb => hb.lookup_failed cause)
      fun h hb => ?_
    · exact hq.settled (.unsent (by simp) (by simp))
    · exact hb.settled (.unsent (by simp) (by simp))

theorem reads_pairUp (mounts : List TargetMount) : Reads s anything (pairUp mounts) := by
  induction mounts generalizing s with
  | nil => exact Reads.done trivial
  | cons m rest ih =>
    refine (reads_lookup rfl).bind fun host s _ _ => ?_
    exact ih.bind fun others s _ _ => Reads.done trivial

/-- Trying one host after another comes to a result whatever they reply. -/
theorem upholds_tryEach {line : String} {f : Bool → StepProgram Unit} {Q : Post Failure Unit}
    (next : ∀ b sent h, Before sent h → (f b).Upholds terms Q h s) (cs : List Candidate)
    {sent : List Sent} {h : List Event} (hb : Before sent h) :
    (tryEach line cs >>= f).Upholds terms Q h s := by
  induction cs generalizing sent h with
  | nil => exact next false sent h hb
  | cons c rest ih =>
    intro reply
    have hb' := hb.replied ⟨c.host, line, reply⟩
    rcases reply with e | output
    · exact ih hb'
    · show Upholds terms Q _ s ((if output.success then .done true else tryEach line rest) >>= f)
      split
      · exact next true _ _ hb'
      · exact ih hb'

theorem upholds_requestByLabel (hb : Before [] h) (hk : k.isIdempotent = true)
    (hf : k.fansOut = true) (agent : String) (id : TargetId)
    (request : String → Command.AgentRequest) :
    (requestByLabel agent id request).Upholds terms (settled k) h s := by
  refine (reads_lookup rfl).first hb fun target h s hb _ _ => ?_
  split
  · exact hb.refused_early hk _
  · refine (reads_lookup rfl).first hb fun mounts h s hb _ _ => ?_
    refine (reads_pairUp mounts).first hb fun pairs h s hb _ _ => ?_
    refine upholds_tryEach (fun b sent h hb => ?_) (candidates pairs) hb
    cases b
    · exact hb.settled (.fannedOut hk hf (by simp) (by simp))
    · exact hb.settled (.fannedOut hk hf (by simp) (by simp))

theorem reads_managementNids (mgs : TargetId) : Reads s anything (managementNids mgs) :=
  (reads_lookup rfl).bind fun _ _ _ _ => reads_nidsOf _

theorem reads_formatArgs (target : Target) (mounts : List TargetMount) (device : LunNode) :
    Reads s anything (formatArgs target mounts device) := by
  unfold formatArgs
  dsimp only
  split
  · exact (reads_nidsOf _).bind fun failnode s _ _ => Reads.done trivial
  · refine (reads_lookup rfl).bind fun fs s _ _ => ?_
    refine (reads_managementNids fs.mgs).bind fun nids s _ _ => ?_
    exact (reads_nidsOf _).bind fun failnode s _ _ => Reads.done trivial

/-- The uuid of a formatted device is recorded in one write, or in two of which the second
comes upon records that are there. -/
theorem upholds_recordUuid {sent : List Sent} (hb : Before sent h) {node : LunNode}
    (hn : s.lunNodes.contains node.id.key = true) (uuid : String)
    (done : ∀ h, Quiet sent h → Settled k h (.done ()))
    (failed : ∀ cause h, Before sent h → Settled k h (.failed (.failed cause)))
    (exhausted : ∀ h, Before sent h → Settled k h .exhausted) :
    (recordUuid node uuid).Upholds terms (settled k) h s := by
  unfold recordUuid
  split
  · rw [call_eq_bind]
    exact upholds_last_call hb (fun _ h s hq => done h hq) failed exhausted
  · refine upholds_call hb.unwritten (fun l s' s'' hs hl => ?_) (fun r _ _ _ => ?_) fun _ _ _ => ?_
    · have hn' := (hs.trans (Store.grows_handle hl)).lunNodes _ hn
      have hl' := Store.contains_of_createLun hl
      rw [call_eq_bind]
      refine upholds_sure (fun s hs => ?_) fun _ _ _ _ _ => ?_
      · obtain ⟨s', hs'⟩ := Store.handle_attachLun (hs.luns _ hl') (hs.lunNodes _ hn')
        exact ⟨(), s', hs'⟩
      · exact done _ ((hb.answered _).answered _)
    · exact failed _ _ (hb.call rfl rfl rfl)
    · exact exhausted _ (hb.call rfl rfl rfl)

theorem upholds_formatTarget (hb : Before [] h) (hk : k.isIdempotent = false) (agent : String)
    (id : TargetId) : (formatTarget agent id).Upholds terms (settled k) h s := by
  refine (reads_lookup rfl).first hb fun target h s hb _ _ => ?_
  refine (reads_lookup rfl).first hb fun mounts h s hb _ _ => ?_
  refine (reads_primaryAmong mounts id).first hb fun primary h s hb _ _ => ?_
  dsimp only
  split
  · refine (reads_call rfl).first hb fun node h s hb _ hn => ?_
    have hn := Store.contains_of_lunNode hn
    refine (reads_lookup rfl).first hb fun host h s' hb hs _ => ?_
    have hn := hs.lunNodes _ hn
    refine (reads_formatArgs target mounts node).first hb fun args h s'' hb hs _ => ?_
    have hn := hs.lunNodes _ hn
    refine upholds_risky_only hb hk fun output h ho hb => ?_
    refine reads_decode.answering hb ho fun result h s hb hs _ => ?_
    refine upholds_recordUuid hb (hs.lunNodes _ hn) result.uuid (fun h hq => ?_)
      (fun cause h hb => hb.answer_failed ho cause) fun h hb => ?_
    · exact hq.settled (.succeeded ho (by simp) (by simp))
    · exact hb.settled (.succeeded ho (by simp) (by simp))
  · exact hb.lookup_failed _

theorem reads_volumeOf (target : TargetId) :
    Reads s (fun l s => s.luns.contains l.id.key = true) (volumeOf target) := by
  refine (reads_lookup rfl).bind fun mounts s _ _ => ?_
  refine (reads_primaryAmong mounts target).bind fun primary s _ _ => ?_
  split
  · exact reads_inconsistent
  · refine (reads_lookup rfl).bind fun node s _ _ => ?_
    split
    · exact reads_inconsistent
    · exact (reads_call rfl).weaken fun l s hl => Store.contains_of_lun hl

/-- The record of a located device is changed or made in one write; from then on it is there. -/
theorem upholds_recordDevice {sent : List Sent} (hb : Before sent h) (host : Host)
    (location : Command.DeviceLocation) {lun : Lun} (hl : s.luns.contains lun.id.key = true)
    {f : LunNodeId → StepProgram Unit} {Q : Post Failure Unit}
    (next : ∀ node h s', Quiet sent h → s.Grows s' → s'.lunNodes.contains node.key = true →
      (f node).Upholds terms Q h s')
    (failed : ∀ cause h s, Before sent h → Q h (.failed (.failed cause)) s)
    (exhausted : ∀ h s, Before sent h → Q h .exhausted s) :
    (recordDevice host location lun >>= f).Upholds terms Q h s := by
  refine Upholds.bind ((reads_call rfl).followed hb (fun known h s₁ hb h₁ hknown => ?_)
    fun cause h s' hb _ => failed cause h s' hb)
  split
  · rename_i node
    have hn := Store.contains_of_findLunNode hknown
    refine upholds_sure (fun s₂ h₂ => ?_) fun _ s₂ s₃ h₂ hattach => ?_
    · obtain ⟨s₃, h₃⟩ := Store.handle_attachLun ((h₁.trans h₂).luns _ hl) (h₂.lunNodes _ hn)
      exact ⟨(), s₃, h₃⟩
    · have h₃ := h₂.trans (Store.grows_handle hattach)
      exact next node.id _ s₃ (hb.answered _) (h₁.trans h₃) (h₃.lunNodes _ hn)
  · refine upholds_call hb.unwritten (fun node s₂ s₃ h₂ hcreate => ?_) (fun r s₂ _ _ => ?_)
      fun s₂ _ _ => ?_
    · have h₃ := h₂.trans (Store.grows_handle hcreate)
      exact next node.id _ s₃ (hb.answered _) (h₁.trans h₃) (Store.contains_of_createLunNode hcreate)
    · exact failed _ _ s₂ (hb.call rfl rfl rfl)
    · exact exhausted _ s₂ (hb.call rfl rfl rfl)

theorem upholds_findDevice (hb : Before [] h) (hk : k.isIdempotent = true) (agent : String)
    (id : TargetMountId) : (Step.findDevice agent id).Upholds terms (settled k) h s := by
  refine (reads_call rfl).first hb fun mount h s hb _ hm => ?_
  have hm := Store.contains_of_targetMount hm
  split
  · exact hb.lookup_failed _
  · exact hb.settled (.unsent (by simp) (by simp))
  · refine (reads_volumeOf mount.target).first hb fun lun h s hb hs hl => ?_
    have hm := hs.targetMounts _ hm
    split
    · exact hb.lookup_failed _
    · refine (reads_lookup rfl).first hb fun host h s hb hs _ => ?_
      have hm := hs.targetMounts _ hm
      have hl := hs.luns _ hl
      refine upholds_harmless_only hb hk fun output h ho hb => ?_
      refine reads_decode.answering hb ho fun location h s hb hs _ => ?_
      have hm := hs.targetMounts _ hm
      have hl := hs.luns _ hl
      split
      · exact hb.answer_failed ho _
      · refine upholds_recordDevice hb host _ hl (fun node h s hq hs hn => ?_)
          (fun cause _ _ hb => hb.answer_failed ho cause) fun h s hb => ?_
        · have hm := hs.targetMounts _ hm
          rw [call_eq_bind]
          refine upholds_sure (fun s hs => ?_) fun _ _ _ _ _ => ?_
          · obtain ⟨s', hs'⟩ := Store.handle_setBlockDevice (hs.lunNodes _ hn) (hs.targetMounts _ hm)
            exact ⟨(), s', hs'⟩
          · exact (hq.answered _).settled (.succeeded ho (by simp) (by simp))
        · exact hb.settled (.succeeded ho (by simp) (by simp))

end Steps

/-- **However the store and the hosts answer, a step of any kind is settled when it ends,**
and it stays within its terms. -/
theorem upholds_program (agent : String) (k : StepKind) (s : Store) :
    (k.program agent).Upholds terms (settled k) [] s := by
  have hb := Before.nil
  cases k with
  | null => exact hb.settled (.unsent (by simp) (by simp))
  | findDevice m => exact upholds_findDevice hb rfl agent m
  | mkfs t => exact upholds_formatTarget hb rfl agent t
  | mount t => exact upholds_requestByLabel hb rfl rfl agent t _
  | unmount t => exact upholds_requestByLabel hb rfl rfl agent t _
  | registerTarget m => exact upholds_registerTarget hb rfl agent m
  | configurePacemaker m => exact upholds_configurePacemaker hb rfl agent m
  | startLnet host | stopLnet host | loadLnet host | unloadLnet host =>
    exact upholds_controlLnet hb rfl host _
  | confParam p => exact upholds_applyConfParam hb rfl p
  | confParamVersion m v => exact upholds_recordVersion hb m v

end Step

end FleetJobs
