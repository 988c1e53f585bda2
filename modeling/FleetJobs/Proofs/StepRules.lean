import FleetJobs.Proofs.Conduct
import FleetJobs.Step.Program

/-! The rules by which the conduct of steps is read off their programs.

A step's terms are that calls lose no record, and that no call of it comes to nothing
once it has written. There is one rule for each move that steps are made of: a lookup, a
write that may be refused, a write that cannot be, a command. Programs that only look
things up go by `Reads`, which composes, so the lookups that several steps share are
dealt with once. -/
namespace FleetJobs.Step

open FleetJobs.Fleet
open FleetJobs.Gateway
open FleetJobs.Program (Upholds thenUpholds)

variable {α β : Type}

def terms : Terms where
  others := Store.Grows
  allows h e s s' := s.Grows s' ∧ (e.isFailure = true → Unwritten h)
  refl := Store.Grows.refl
  trans := Store.Grows.trans
  tolerated h := h.1

/-- These commands were sent, and the flags were not looked at. -/
structure Quiet (sent : List Sent) (h : List Event) : Prop where
  unseen : ∀ e ∈ h, e.isLook = false
  commands : commands h = sent

/-- These commands were sent, and so far nothing was written. -/
structure Before (sent : List Sent) (h : List Event) : Prop extends Quiet sent h where
  unwritten : Unwritten h

variable {sent : List Sent} {h : List Event}

theorem Quiet.snoc (hq : Quiet sent h) {e : Event} (hl : e.isLook = false) :
    Quiet (sent ++ e.command?.toList) (h ++ [e]) where
  unseen := by simpa [or_imp, forall_and] using ⟨hq.unseen, hl⟩
  commands := by simp [hq.commands]

theorem Quiet.answered (hq : Quiet sent h) (c : Store.Call) : Quiet sent (h ++ [.answered c]) := by
  simpa [Event.command?] using hq.snoc (e := .answered c) rfl

theorem Before.nil : Before [] [] where
  unseen := by simp
  commands := rfl
  unwritten := unwritten_nil

/-- A call that brings no write adds nothing that counts. -/
theorem Before.call (hb : Before sent h) {e : Event} (hw : e.isWrite = false)
    (hl : e.isLook = false) (hc : e.command? = none) : Before sent (h ++ [e]) where
  toQuiet := by simpa [hc] using hb.toQuiet.snoc hl
  unwritten := by simpa using ⟨hb.unwritten, hw⟩

theorem Before.replied (hb : Before sent h) (c : Sent) :
    Before (sent ++ [c]) (h ++ [.replied c]) where
  toQuiet := hb.toQuiet.snoc (e := .replied c) rfl
  unwritten := by simpa [Event.isWrite] using hb.unwritten

/-! ### Calls -/

section Calls

variable {Q : Post Failure β} {h : List Event} {s : Store} {c : Store.Call}
  {f : c.Answer → StepProgram β}

/-- A call of a step that has written nothing: carried out, refused, or out of numbers. -/
theorem upholds_call (hw : Unwritten h)
    (answered : ∀ a s' s'', s.Grows s' → s'.handle c = .ok (a, s'') →
      (f a).Upholds terms Q (h ++ [.answered c]) s'')
    (refused : ∀ r s', s.Grows s' → s'.handle c = .error (.refused r) →
      Q (h ++ [.refused c r]) (.failed (.failed (.store r))) s')
    (exhausted : ∀ s', s.Grows s' → s'.handle c = .error .exhausted →
      Q (h ++ [.exhausted c]) .exhausted s') :
    (call c >>= f).Upholds terms Q h s := by
  refine Upholds.bind fun s' hs => ?_
  rcases hc : s'.handle c with (r | _) | ⟨a, s''⟩
  · exact ⟨⟨Store.Grows.refl _, fun _ => hw⟩, refused r s' hs hc⟩
  · exact ⟨⟨Store.Grows.refl _, fun _ => hw⟩, exhausted s' hs hc⟩
  · exact ⟨⟨Store.grows_handle hc, fun h => absurd h Bool.false_ne_true⟩, answered a s' s'' hs hc⟩

/-- A call that nothing in the way of the store can keep from being carried out. It may
come after a write. -/
theorem upholds_sure
    (sure : ∀ s', s.Grows s' → ∃ a s'', s'.handle c = .ok (a, s''))
    (answered : ∀ a s' s'', s.Grows s' → s'.handle c = .ok (a, s'') →
      (f a).Upholds terms Q (h ++ [.answered c]) s'') :
    (call c >>= f).Upholds terms Q h s := by
  refine Upholds.bind fun s' hs => ?_
  obtain ⟨a, s'', hc⟩ := sure s' hs
  rw [hc]
  exact ⟨⟨Store.grows_handle hc, fun h => absurd h Bool.false_ne_true⟩, answered a s' s'' hs hc⟩

/-- A call at the end of a step, whose answer is the step's result. -/
theorem call_eq_bind : call c = (call c >>= Program.done) := (Program.bind_done _).symm

end Calls

/-! ### Programs that only look things up -/

/-- Where a program stands that has only looked things up: what it has found is as `K`
says, and if it found nothing it has failed outright. -/
def found (sent : List Sent) (s : Store) (K : α → Store → Prop) : Post Failure α
  | h, .done a, s' => Before sent h ∧ s.Grows s' ∧ K a s'
  | h, .failed f, s' => Before sent h ∧ s.Grows s' ∧ ∃ cause, f = .failed cause
  | _, .exhausted, _ => False

/-- The program does nothing but look things up, and what it finds is as `K` says. -/
def Reads (s : Store) (K : α → Store → Prop) (p : StepProgram α) : Prop :=
  ∀ sent h, Before sent h → p.Upholds terms (found sent s K) h s

namespace Reads

variable {s : Store} {K : α → Store → Prop} {L : β → Store → Prop}

theorem done {a : α} (ha : K a s) : Reads s K (.done a) :=
  fun _ _ hb => ⟨hb, Store.Grows.refl s, ha⟩

theorem fail {cause : Cause} : Reads s K (.fail (.failed cause)) :=
  fun _ _ hb => ⟨hb, Store.Grows.refl s, cause, rfl⟩

/-- What comes after lookups may count on what they found. -/
theorem followed {p : StepProgram α} (hp : Reads s K p) {f : α → StepProgram β}
    {Q : Post Failure β} {sent : List Sent} {h : List Event} (hb : Before sent h)
    (next : ∀ a h' s', Before sent h' → s.Grows s' → K a s' → (f a).Upholds terms Q h' s')
    (failed : ∀ cause h' s', Before sent h' → s.Grows s' → Q h' (.failed (.failed cause)) s') :
    (p >>= f).Upholds terms Q h s := by
  refine Upholds.bind ((hp sent h hb).mono fun h' e s' hfound => ?_)
  cases e with
  | done a => exact next a h' s' hfound.1 hfound.2.1 hfound.2.2
  | failed e =>
    obtain ⟨hb', hs, cause, rfl⟩ := hfound
    exact failed cause h' s' hb' hs
  | exhausted => exact hfound.elim

theorem bind {p : StepProgram α} (hp : Reads s K p) {f : α → StepProgram β}
    (hf : ∀ a s', s.Grows s' → K a s' → Reads s' L (f a)) : Reads s L (p >>= f) := by
  intro sent h hb
  refine hp.followed hb (fun a h' s' hb' hs ha => ?_) fun cause h' s' hb' hs => ⟨hb', hs, cause, rfl⟩
  refine (hf a s' hs ha sent h' hb').mono fun h'' e s'' hfound => ?_
  cases e with
  | done b => exact ⟨hfound.1, hs.trans hfound.2.1, hfound.2.2⟩
  | failed e => exact ⟨hfound.1, hs.trans hfound.2.1, hfound.2.2⟩
  | exhausted => exact hfound

theorem weaken {p : StepProgram α} (hp : Reads s K p) {K' : α → Store → Prop}
    (hK : ∀ a s', K a s' → K' a s') : Reads s K' p := by
  intro sent h hb
  refine (hp sent h hb).mono fun h' e s' hfound => ?_
  cases e with
  | done a => exact ⟨hfound.1, hfound.2.1, hK a s' hfound.2.2⟩
  | failed e => exact hfound
  | exhausted => exact hfound

end Reads

/-- Nothing need be known of what is found. -/
abbrev anything : α → Store → Prop := fun _ _ => True

theorem reads_call {s : Store} {c : Store.Call} (hc : c.isWrite = false) :
    Reads s (fun a s' => s'.handle c = .ok (a, s')) (call c) := by
  intro sent h hb s' hs
  rcases Store.handle_read (s := s') hc with ⟨a, ha⟩ | ⟨r, hr⟩
  · rw [ha]
    exact ⟨⟨Store.Grows.refl _, fun h => absurd h Bool.false_ne_true⟩,
      hb.call hc rfl rfl, hs, ha⟩
  · rw [hr]
    exact ⟨⟨Store.Grows.refl _, fun _ => hb.unwritten⟩, hb.call rfl rfl rfl, hs, _, rfl⟩

/-- A lookup whose answer is not gone into. -/
theorem reads_lookup {s : Store} {c : Store.Call} (hc : c.isWrite = false) :
    Reads s anything (call c) := (reads_call hc).weaken fun _ _ _ => trivial

theorem reads_inconsistent {s : Store} {K : α → Store → Prop} {i : Inconsistency} :
    Reads s K (inconsistent i) := Reads.fail

theorem reads_decode {s : Store} {r : Except Data.ReadError α} : Reads s anything (decode r) := by
  cases r with
  | ok a => exact Reads.done trivial
  | error e => exact Reads.fail

theorem reads_primaryAmong {s : Store} (mounts : List TargetMount) (target : TargetId) :
    Reads s anything (primaryAmong mounts target) := by
  unfold primaryAmong
  split
  · exact Reads.done trivial
  · exact reads_inconsistent

theorem reads_primaryServer {s : Store} (target : TargetId) :
    Reads s anything (primaryServer target) := by
  refine (reads_lookup rfl).bind fun mounts s' _ _ => ?_
  exact (reads_primaryAmong mounts target).bind fun primary s'' _ _ => reads_lookup rfl

theorem reads_nidsOf {s : Store} (mounts : List TargetMount) : Reads s anything (nidsOf mounts) := by
  induction mounts generalizing s with
  | nil => exact Reads.done trivial
  | cons m rest ih =>
    refine (reads_lookup rfl).bind fun host s' _ _ => ?_
    exact ih.bind fun others s'' _ _ => Reads.done trivial

/-! ### Commands -/

section Commands

variable {T : Terms} {Q : Post Failure β} {h : List Event} {s : Store} {host : Host} {line action : String}
  {f : CommandOutput → StepProgram β}

theorem upholds_command {idempotent : Bool}
    (ran : ∀ output, (f output).Upholds T Q (h ++ [.replied ⟨host, line, .ok output⟩]) s)
    (broken : ∀ e, Q (h ++ [.replied ⟨host, line, .error e⟩])
      (.failed (.ofTransport idempotent e)) s) :
    (command idempotent host line >>= f).Upholds T Q h s := by
  refine Upholds.bind fun reply => ?_
  rcases reply with e | output
  · exact broken e
  · exact ran output

/-- A command of a step that may be run twice: unless it exits zero, the failure is clean. -/
theorem upholds_harmless
    (success : ∀ output, output.success = true →
      (f output).Upholds T Q (h ++ [.replied ⟨host, line, .ok output⟩]) s)
    (clean : ∀ reply r, Q (h ++ [.replied ⟨host, line, reply⟩]) (.failed (.clean r)) s) :
    (harmless action host line >>= f).Upholds T Q h s := by
  refine Upholds.bind (upholds_command (fun output => ?_) fun e => ?_)
  · by_cases ho : output.success = true
    · rw [if_pos ho]
      exact success output ho
    · rw [if_neg ho]
      exact clean (.ok output) _
  · have he : Failure.ofTransport true e = .clean (.transport e) := by simp [Failure.ofTransport]
    rw [he]
    exact clean (.error e) _

/-- A command of a step that may not be run twice: unless it exits zero, the failure is
dirty, or clean if the command never started. -/
theorem upholds_risky
    (success : ∀ output, output.success = true →
      (f output).Upholds T Q (h ++ [.replied ⟨host, line, .ok output⟩]) s)
    (nonzero : ∀ output r, output.success = false →
      Q (h ++ [.replied ⟨host, line, .ok output⟩]) (.failed (.dirty r)) s)
    (lost : ∀ e r, e.started = true →
      Q (h ++ [.replied ⟨host, line, .error e⟩]) (.failed (.dirty r)) s)
    (unstarted : ∀ e r, e.started = false →
      Q (h ++ [.replied ⟨host, line, .error e⟩]) (.failed (.clean r)) s) :
    (risky action host line >>= f).Upholds T Q h s := by
  refine Upholds.bind (upholds_command (fun output => ?_) fun e => ?_)
  · by_cases ho : output.success = true
    · rw [if_pos ho]
      exact success output ho
    · rw [if_neg ho]
      exact nonzero output _ (by simpa using ho)
  · cases he : e.started
    · have hf : Failure.ofTransport false e = .clean (.transport e) := by
        simp [Failure.ofTransport, he]
      rw [hf]
      exact unstarted e _ he
    · have hf : Failure.ofTransport false e = .dirty (.transport e) := by
        simp [Failure.ofTransport, he]
      rw [hf]
      exact lost e _ he

end Commands

end FleetJobs.Step
