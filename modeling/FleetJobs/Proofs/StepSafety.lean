import FleetJobs.Proofs.StepConduct

/-! What may be relied on once a step has ended.

`step_ending_tells_commands`: how a step ends tells how far its commands can have come,
so a clean failure may be tried again without a second thought and a dirty one never is
taken for it. `unsuccessful_steps_write_nothing`: whatever other steps do meanwhile, a
step that does not succeed has written nothing. -/
namespace FleetJobs

open FleetJobs.Fleet
open FleetJobs.Step (Classified Failure Settled StepKind StepProgram)

variable {σ : Type}

/-! ### A step alone -/

/-- A step run alone is settled after some history, whose commands the log has taken up. -/
theorem Step.run_settled (s : Step) (agent : String) (o : Outside σ) (w : World σ) :
    ∃ h, Settled s.kind h ((s.program agent).run o w).1 ∧
      ((s.program agent).run o w).2.sent = w.sent ++ commands h ∧
      (Unwritten h → ((s.program agent).run o w).2.store = w.store) :=
  (Step.upholds_program agent s.kind w.store).run o

/-- **A step that does not succeed leaves every record as it was.** -/
theorem Step.store_of_run_ne_done {s : Step} {agent : String} {o : Outside σ} {w : World σ}
    (h : ((s.program agent).run o w).1 ≠ .done ()) :
    ((s.program agent).run o w).2.store = w.store := by
  obtain ⟨history, hsettled, _, hstore⟩ := s.run_settled agent o w
  exact hstore (hsettled.unwritten h)

/-- **How a step ends tells how far its commands can have come.** Dirty: it formats or sets
a parameter, and its one command may have been left half done. Clean: the store is as
before, and if the command may not be sent twice, its host was never reached. Failed
outright: no command was sent, or the one that was did its work. A step that does not try
several hosts sends one command at most, and is clean or dirty if that goes wrong. -/
theorem step_ending_tells_commands (s : Step) (agent : String) (o : Outside σ) (w : World σ) :
    (s.isIdempotent = false ↔ (∃ t, s.kind = .mkfs t) ∨ ∃ p, s.kind = .confParam p) ∧
    ∃ sent, ((s.program agent).run o w).2.sent = w.sent ++ sent ∧
      ((∃ r, ((s.program agent).run o w).1 = .failed (.dirty r)) ↔
        s.isIdempotent = false ∧ ∃ c, sent = [c] ∧ c.halfDone = true) ∧
      (∀ r, ((s.program agent).run o w).1 = .failed (.clean r) →
        ((s.program agent).run o w).2.store = w.store ∧
          (s.isIdempotent = false → ∃ c, sent = [c] ∧ c.unreached = true)) ∧
      (∀ cause, ((s.program agent).run o w).1 = .failed (.failed cause) →
        sent = [] ∨ ∃ c, sent = [c] ∧ c.succeeded = true) ∧
      ((∀ t, s.kind ≠ .mount t) → (∀ t, s.kind ≠ .unmount t) → sent.length ≤ 1 ∧
        ∀ c ∈ sent, c.succeeded = false →
          ∃ r, ((s.program agent).run o w).1 = .failed (.clean r) ∨
            ((s.program agent).run o w).1 = .failed (.dirty r)) := by
  obtain ⟨history, hsettled, hsent, _⟩ := s.run_settled agent o w
  have hc := hsettled.classified
  refine ⟨?_, commands history, hsent, hc.dirty, fun r hr => ⟨?_, hc.clean r hr⟩, hc.failed,
    fun hmount hunmount => hc.single ?_⟩
  · unfold Step.isIdempotent
    cases s.kind <;> simp [StepKind.isIdempotent]
  · refine Step.store_of_run_ne_done ?_
    rw [hr]
    simp
  · cases hk : s.kind with
    | mount t => exact absurd hk (hmount t)
    | unmount t => exact absurd hk (hunmount t)
    | _ => rfl

/-! ### Steps that take turns -/

/-- In no history does a call come to nothing after a write. -/
def Orderly (h : List Event) : Prop :=
  h.Pairwise fun a b => a.isWrite = true → b.isFailure = false

theorem Orderly.snoc {h : List Event} (hh : Orderly h) {e : Event}
    (he : e.isFailure = true → Unwritten h) : Orderly (h ++ [e]) := by
  refine List.pairwise_append.mpr ⟨hh, List.pairwise_singleton _ _, fun a ha b hb hw => ?_⟩
  obtain rfl := List.mem_singleton.mp hb
  cases hf : b.isFailure
  · rfl
  · rw [he hf a ha] at hw
    cases hw

/-- **A step that does not succeed has written nothing**, whatever number of other steps
take turns with it on the store, in whatever order and whatever the hosts reply: in no
step does a call come to nothing after one of its writes was carried out. Alone, such a
step leaves every table as it was. -/
theorem unsuccessful_steps_write_nothing (i : Inventory) (agent : String) (steps : List Step)
    (q : Pool Failure Unit)
    (h : (Pool.start (Store.ofInventory i) (steps.map fun s => s.program agent)).Reaches q) :
    (∀ t ∈ q.threads,
      (∀ e, t.ending? = some e → e ≠ .done () → ∀ event ∈ t.history, event.isWrite = false) ∧
      t.history.Pairwise fun a b => a.isWrite = true → b.isFailure = false) ∧
    ∀ (s : Step) (σ : Type) (o : Outside σ) (w : World σ),
      ((s.program agent).run o w).1 ≠ .done () → ((s.program agent).run o w).2.store = w.store := by
  have upheld : ∀ p ∈ steps.map fun s => s.program agent,
      p.Upholds Step.terms (fun h e _ => e ≠ .done () → Unwritten h) [] (Store.ofInventory i) := by
    intro p hp
    obtain ⟨s, _, rfl⟩ := List.mem_map.mp hp
    exact (Step.upholds_program agent s.kind _).mono fun h e _ hsettled => hsettled.unwritten
  have kept := h.upholds (T := Step.terms) (H := Orderly) .nil (fun hh hallows => hh.snoc hallows.2)
    (fun hh => hh.snoc fun hf => absurd hf Bool.false_ne_true)
    (fun hh => hh.snoc fun hf => absurd hf Bool.false_ne_true) (fun _ _ _ _ _ hQ => hQ) upheld
  refine ⟨fun t ht => ⟨fun e he hne => ?_, (kept t ht).1⟩, fun s σ o w => Step.store_of_run_ne_done⟩
  exact (kept t ht).2.ending he hne

/-- One step finds no host while another records a version. -/
theorem unsuccessful_beside_a_write :
    let i : Inventory := { mgs := [⟨⟨1⟩, 2⟩] }
    let steps : List Step := [⟨.confParamVersion ⟨1⟩ 5, true⟩, ⟨.startLnet ⟨9⟩, true⟩]
    ∃ q : Pool Failure Unit,
      (Pool.start (Store.ofInventory i) (steps.map fun s => s.program "agent")).Reaches q ∧
      (∃ t ∈ q.threads, ∃ event ∈ t.history, event.isWrite = true) ∧
      ∃ t ∈ q.threads, (∃ cause, t.ending? = some (.failed (.failed cause))) ∧
        ∀ event ∈ t.history, event.isWrite = false := by
  intro i steps
  have reached : (Pool.start (Store.ofInventory i) (steps.map fun s => s.program "agent")).Reaches
      ⟨Store.ofInventory { mgs := [⟨⟨1⟩, 5⟩] },
        [⟨[.answered (.mgs ⟨1⟩), .answered (.setVersionApplied ⟨1⟩ 5)], .going (.done ())⟩,
          ⟨[.refused (.host ⟨9⟩) (.notFound .host "9")],
            .going (.fail (.failed (.store (.notFound .host "9"))))⟩]⟩ :=
    .tail (.tail (.tail .refl (.turn [] [_] (.answered rfl))) (.turn [_] [] (.refused rfl)))
      (.turn [] [_] (.answered rfl))
  have nothing := (unsuccessful_steps_write_nothing i "agent" steps _ reached).1
  refine ⟨_, reached, ⟨_, .head _, _, .tail _ (.head _), rfl⟩, _, .tail _ (.head _), ⟨_, rfl⟩, ?_⟩
  exact (nothing _ (.tail _ (.head _))).1 _ rfl (by simp)

end FleetJobs
