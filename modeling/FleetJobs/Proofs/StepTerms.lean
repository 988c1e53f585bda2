import FleetJobs.Pass.Batch
import FleetJobs.Proofs.PassTrace
import FleetJobs.Proofs.StepRules

/-! Steps and passes that keep to terms of any kind.

A step program abides by terms (`Abides`) if it keeps to them from any history on, if what
it ends with is as a given `K` has it, and if it fails for a refused call only where `R`
has it. The rules follow the moves that steps are made of; a call is the only one of them
that the terms have a say in. A pass keeps to the terms if its steps do
(`upholds_stepsProgram`). -/
namespace FleetJobs.Step

open FleetJobs.Fleet
open FleetJobs.Gateway
open FleetJobs.Program (Upholds)

variable {α β : Type}

/-- How a program may end that abides by terms from the store `s` on. -/
def abiding (T : Terms) (R : Store.Refusal → Prop) (K : α → Store → Prop) (s : Store) : Post Failure α
  | _, .done a, s' => T.others s s' ∧ K a s'
  | _, .failed f, _ => ∀ r, f = .failed (.store r) → R r
  | _, .exhausted, _ => True

/-- The program keeps to the terms. It ends as `K` says, and fails for a refused call only if
`R` holds of the refusal. -/
def Abides (T : Terms) (R : Store.Refusal → Prop) (K : α → Store → Prop) (s : Store)
    (p : StepProgram α) : Prop :=
  ∀ h, p.Upholds T (abiding T R K s) h s

namespace Abides

variable {T : Terms} {R : Store.Refusal → Prop} {K : α → Store → Prop} {L : β → Store → Prop} {s : Store}

theorem done {a : α} (ha : K a s) : Abides T R K s (.done a) := fun _ => ⟨T.refl s, ha⟩

/-- A failure that no call has brought about. -/
theorem fail {f : Failure} (hf : ∀ r, f ≠ .failed (.store r)) : Abides T R K s (.fail f) :=
  fun _ r hr => absurd hr (hf r)

theorem bind {p : StepProgram α} (hp : Abides T R K s p) {f : α → StepProgram β}
    (hf : ∀ a s', T.others s s' → K a s' → Abides T R L s' (f a)) : Abides T R L s (p >>= f) := by
  refine fun h => Upholds.bind ((hp h).mono fun h' e s' hend => ?_)
  cases e with
  | done a =>
    obtain ⟨hs, ha⟩ := hend
    refine (hf a s' hs ha h').mono fun h'' e s'' hend => ?_
    cases e with
    | done b => exact ⟨T.trans hs hend.1, hend.2⟩
    | failed | exhausted => exact hend
  | failed | exhausted => exact hend

theorem weaken {p : StepProgram α} (hp : Abides T R K s p) {K' : α → Store → Prop}
    (hK : ∀ a s', K a s' → K' a s') : Abides T R K' s p := by
  refine fun h => (hp h).mono fun h' e s' hend => ?_
  cases e with
  | done a => exact ⟨hend.1, hK a s' hend.2⟩
  | failed | exhausted => exact hend

/-- A call, in any store that the others may have left. -/
theorem call {c : Store.Call} {K : c.Answer → Store → Prop}
    (answered : ∀ h s' a s'', T.others s s' → s'.handle c = .ok (a, s'') →
      T.allows h (.answered c) s' s'' ∧ K a s'')
    (refused : ∀ h s' r, T.others s s' → s'.handle c = .error (.refused r) →
      T.allows h (.refused c r) s' s' ∧ R r)
    (exhausted : ∀ h s', T.others s s' → s'.handle c = .error .exhausted →
      T.allows h (.exhausted c) s' s') :
    Abides T R K s (call c) := by
  intro h s' hs
  rcases hc : s'.handle c with (r | _) | ⟨a, s''⟩
  · obtain ⟨hallows, hr⟩ := refused h s' r hs hc
    refine ⟨hallows, fun r' hr' => ?_⟩
    cases hr'
    exact hr
  · exact ⟨exhausted h s' hs hc, trivial⟩
  · obtain ⟨hallows, ha⟩ := answered h s' a s'' hs hc
    exact ⟨hallows, T.trans hs (T.tolerated hallows), ha⟩

theorem harmless (action : String) (host : Host) (line : String) :
    Abides T R anything s (harmless action host line) := by
  intro h
  rw [← Program.bind_done (Step.harmless action host line)]
  exact upholds_harmless (fun _ _ => ⟨T.refl s, trivial⟩) fun _ _ => nofun

theorem risky (action : String) (host : Host) (line : String) :
    Abides T R anything s (risky action host line) := by
  intro h
  rw [← Program.bind_done (Step.risky action host line)]
  exact upholds_risky (fun _ _ => ⟨T.refl s, trivial⟩) (fun _ _ _ => nofun) (fun _ _ _ => nofun)
    fun _ _ _ => nofun

theorem tryEach (line : String) (cs : List Candidate) :
    Abides T R anything s (tryEach line cs) := by
  induction cs with
  | nil => exact done trivial
  | cons c rest ih =>
    rintro h (e | output)
    · exact ih _
    · dsimp only
      split
      · exact done trivial _
      · exact ih _

theorem decode {r : Except Data.ReadError α} : Abides T R anything s (decode r) := by
  cases r with
  | ok a => exact done trivial
  | error e => exact fail nofun

theorem inconsistent {i : Inconsistency} : Abides T R K s (inconsistent i) := fail nofun

theorem failClean {r : Reason} : Abides T R K s (failClean r) := fail nofun

theorem primaryAmong (mounts : List TargetMount) (target : TargetId) :
    Abides T R (fun m _ => m ∈ mounts) s (primaryAmong mounts target) := by
  unfold Step.primaryAmong
  split
  · rename_i m hm
    exact done (List.mem_of_find?_eq_some hm)
  · exact inconsistent

end Abides

end FleetJobs.Step

namespace FleetJobs.Pass

open FleetJobs.Program (Upholds)
open FleetJobs.Step (Abides Failure Outcome anything)

/-- No step on record has failed for a refused call but where `R` has it. -/
def Verdict.RefusedOnly (R : Store.Refusal → Prop) (v : Verdict) : Prop :=
  ∀ r ∈ v.steps, r.outcome.isFailure = true →
    ∃ f, r.outcome = .ofFailure f ∧ ∀ refusal, f = .failed (.store refusal) → R refusal

/-- How a pass may end. -/
def ended (R : Store.Refusal → Prop) : Post Empty Verdict
  | _, .done v, _ => v.RefusedOnly R
  | _, .failed _, _ => False
  | _, .exhausted, _ => True

namespace Verdict

variable {R : Store.Refusal → Prop} {i : Nat} {s : Step} {rest : List Step}

theorem refusedOnly_stopped {state : State} {outcome : Outcome} (h : outcome.isFailure = false) :
    (stopped state outcome i rest).RefusedOnly R := by
  intro r hr hfailure
  have hr : r ∈ records outcome i rest := hr
  rw [outcome_of_mem_records hr, h] at hfailure
  cases hfailure

theorem refusedOnly_failedAt {f : Failure} (h : ∀ refusal, f = .failed (.store refusal) → R refusal) :
    (failedAt i s (.ofFailure f) rest).RefusedOnly R := by
  intro r hr hfailure
  rcases List.mem_cons.mp hr with rfl | hr
  · exact ⟨f, rfl, h⟩
  · exact refusedOnly_stopped rfl r hr hfailure

theorem RefusedOnly.after {v : Verdict} (h : v.RefusedOnly R) (transition : Option Job.Transition) :
    (v.after i s transition).RefusedOnly R := by
  intro r hr hfailure
  rcases List.mem_cons.mp hr with rfl | hr
  · cases hfailure
  · exact h r hr hfailure

end Verdict

variable {T : Terms} {R : Store.Refusal → Prop} {agent : String} {s : Store} {h : List Event}

/-- **A pass keeps to the terms that its steps abide by.** -/
theorem upholds_stepsProgram {transition : Option Job.Transition} {i : Nat} {steps : List Step}
    (abides : ∀ st ∈ steps, ∀ s', T.others s s' → Abides T R anything s' (st.program agent)) :
    (stepsProgram agent transition i steps).Upholds T (ended R) h s := by
  induction steps generalizing i s h with
  | nil => exact fun r hr => absurd hr List.not_mem_nil
  | cons st rest ih =>
    obtain ⟨first, others⟩ := List.forall_mem_cons.mp abides
    intro flags
    dsimp only
    split
    · exact Verdict.refusedOnly_stopped rfl
    · split
      · exact Verdict.refusedOnly_stopped rfl
      · refine Upholds.bind (Upholds.attempt ((first s (T.refl s) _).mono fun h' e s' hend => ?_))
        cases e with
        | done =>
          refine Upholds.bind ((ih fun st hst s'' hs => others st hst s'' (T.trans hend.1 hs)).mono
            fun h'' e s'' hend => ?_)
          cases e with
          | done v => exact hend.after transition
          | failed => exact hend
          | exhausted => trivial
        | failed f => exact Verdict.refusedOnly_failedAt hend
        | exhausted => trivial

theorem upholds_program {job : Job} {start : Nat}
    (abides : ∀ st ∈ job.steps.drop start, ∀ s', T.others s s' →
      Abides T R anything s' (st.program agent)) :
    (program agent job start).Upholds T (ended R) h s := by
  unfold program
  split
  · exact fun r hr => absurd hr List.not_mem_nil
  · exact upholds_stepsProgram abides

/-- Others do not change how a pass has ended. -/
theorem ended_stable : (ended R).Stable T := fun _ e _ _ _ hend => by cases e <;> exact hend

/-! ### Passes that take turns -/

/-- The passes of some assignments before their first turn, on one store. -/
def pool (s : Store) (agent : String) (assigned : List Assignment) : Pool Empty Verdict :=
  .start s (assigned.map fun a => program agent a.job a.start)

theorem threads_pool {assigned : List Assignment} {j : Nat} {t : Thread Empty Verdict}
    (h : (pool s agent assigned).threads[j]? = some t) :
    ∃ a, assigned[j]? = some a ∧ t = .start (program agent a.job a.start) := by
  simp only [pool, Pool.start, List.getElem?_map, Option.map_eq_some_iff] at h
  obtain ⟨_, ⟨a, ha, rfl⟩, rfl⟩ := h
  exact ⟨a, ha, rfl⟩

end FleetJobs.Pass
