import FleetJobs.Proofs.StepTerms

/-! Programs whose turns come all in a row.

A program that is run alone makes moves that a thread of a pool may make one after another
while the others wait (`Program.run_turns`). So jobs that are run one after the other are one
of the runs of their pool, which ends in the states that their reports tell
(`Pass.reaches_runAll`), and whatever has happened in a pool, its threads can still come to an
end (`Pool.finish`). Here the hosts reply as a function of host and command has it and no flag
is ever raised; a history that tells of nothing else fits the function (`Thread.Fits`). -/
namespace FleetJobs

open FleetJobs.Fleet (Host)
open FleetJobs.Gateway (Remote Reply)
open FleetJobs.Job (Control)

/-- The replies of hosts, by host and command. -/
abbrev Replies := Host → String → Reply

def Event.Fits (f : Replies) : Event → Prop
  | replied c => c.reply = f c.host c.line
  | shown flags => flags = .unset
  | _ => True

/-- The thread was told of no other replies and of no flags. -/
def Thread.Fits {ε α : Type} (f : Replies) (t : Thread ε α) : Prop := ∀ e ∈ t.history, e.Fits f

def Pool.Fits {ε α : Type} (f : Replies) (p : Pool ε α) : Prop := ∀ t ∈ p.threads, t.Fits f

/-- The state on the report of a thread, if it comes to have one. -/
def Thread.state? (t : Thread Empty Pass.Verdict) : Option Pass.State :=
  match t.ending? with
  | some (.done v) => some v.state
  | _ => none

/-- Every thread is over. -/
def Pool.Ended {ε α : Type} (p : Pool ε α) : Prop := ∀ t ∈ p.threads, t.ending?.isSome = true

variable {ε α : Type} {f : Replies}

theorem Event.fits_snoc {h : List Event} {e : Event} (hh : ∀ e ∈ h, e.Fits f) (he : e.Fits f) :
    ∀ e' ∈ h ++ [e], e'.Fits f :=
  List.forall_mem_append.mpr ⟨hh, List.forall_mem_singleton.mpr he⟩

/-- What a turn adds to a history does not make it fit. -/
theorem Thread.Move.fits {s s' : Store} {t t' : Thread ε α} (hmove : Thread.Move s t s' t')
    (h : t'.Fits f) : t.Fits f := by
  cases hmove with
  | _ => exact (List.forall_mem_append.mp h).1

/-- **A program that is run alone is a thread that takes all its turns in a row.** -/
theorem Program.run_turns (p : Program ε α) {h : List Event} {w : World (Unit × Control)}
    (unset : w.outside.2 = .unset) (before after : List (Thread ε α)) :
    ∃ t : Thread ε α, Pool.Reaches ⟨w.store, before ++ ⟨h, .going p⟩ :: after⟩
        ⟨(p.run (Remote.ofReplies f).outside w).2.store, before ++ t :: after⟩ ∧
      t.ending? = some (p.run (Remote.ofReplies f).outside w).1 ∧
      ((∀ e ∈ h, e.Fits f) → t.Fits f) ∧
      (p.run (Remote.ofReplies f).outside w).2.outside.2 = .unset := by
  induction p generalizing h w with
  | done a => exact ⟨⟨h, .going (.done a)⟩, .refl, rfl, fun hh => hh, unset⟩
  | fail e => exact ⟨⟨h, .going (.fail e)⟩, .refl, rfl, fun hh => hh, unset⟩
  | ask c next ih =>
    rcases hc : w.store.handle c with (r | _) | ⟨a, s⟩
    · rw [run_ask_refused _ hc]
      obtain ⟨t, hreach, hend, hfits, hflags⟩ := ih (.error r) (h := h ++ [.refused c r]) unset
      exact ⟨t, .head (.turn before after (.refused hc)) hreach, hend,
        fun hh => hfits (Event.fits_snoc hh trivial), hflags⟩
    · rw [run_ask_exhausted _ hc]
      have hmove : Thread.Move w.store ⟨h, .going (ask c next)⟩ w.store _ := .exhausted hc
      exact ⟨_, .single (.turn before after hmove), rfl,
        fun hh => Event.fits_snoc (e := .exhausted c) hh trivial, unset⟩
    · rw [run_ask_answered _ hc]
      obtain ⟨t, hreach, hend, hfits, hflags⟩ :=
        ih (.ok a) (h := h ++ [.answered c]) (w := { w with store := s }) unset
      exact ⟨t, .head (.turn before after (.answered hc)) hreach, hend,
        fun hh => hfits (Event.fits_snoc hh trivial), hflags⟩
  | send host line next ih =>
    obtain ⟨t, hreach, hend, hfits, hflags⟩ := ih (f host line)
      (h := h ++ [.replied ⟨host, line, f host line⟩])
      (w := (w.send (Remote.ofReplies f).outside host line).2) unset
    exact ⟨t, .head (.turn before after (.replied _)) hreach, hend,
      fun hh => hfits (Event.fits_snoc hh rfl), hflags⟩
  | look next ih =>
    obtain ⟨t, hreach, hend, hfits, hflags⟩ := ih w.outside.2 (h := h ++ [.shown w.outside.2])
      (w := (w.look (Remote.ofReplies f).outside).2) unset
    exact ⟨t, .head (.turn before after (.shown _)) hreach, hend,
      fun hh => hfits (Event.fits_snoc hh unset), hflags⟩

/-- Threads behind others that wait can be brought to an end one by one. -/
theorem Pool.finish_behind {todo : List (Thread ε α)} (fits : ∀ t ∈ todo, t.Fits f)
    (s : Store) (before : List (Thread ε α)) :
    ∃ s' finished, Pool.Reaches ⟨s, before ++ todo⟩ ⟨s', before ++ finished⟩ ∧
      ∀ t ∈ finished, t.Fits f ∧ t.ending?.isSome = true := by
  induction todo generalizing s before with
  | nil => exact ⟨s, [], .refl, by simp⟩
  | cons t rest ih =>
    obtain ⟨ht, hrest⟩ := List.forall_mem_cons.mp fits
    obtain ⟨s₁, t₁, hturns, ht₁⟩ : ∃ s₁ t₁, Pool.Reaches ⟨s, before ++ t :: rest⟩
        ⟨s₁, before ++ t₁ :: rest⟩ ∧ t₁.Fits f ∧ t₁.ending?.isSome = true := by
      obtain ⟨h, p | _⟩ := t
      · obtain ⟨t₁, hturns, hend, hfits, _⟩ :=
          p.run_turns (f := f) (h := h) (w := .start s ((), .unset)) rfl before rest
        exact ⟨_, t₁, hturns, hfits ht, by rw [hend]; rfl⟩
      · exact ⟨s, _, .refl, ht, rfl⟩
    obtain ⟨s', finished, hothers, hfinished⟩ := ih hrest s₁ (before ++ [t₁])
    rw [List.append_assoc, List.append_assoc] at hothers
    exact ⟨s', t₁ :: finished, hturns.trans hothers, List.forall_mem_cons.mpr ⟨ht₁, hfinished⟩⟩

/-- **Whatever has happened in a pool, its threads can still come to an end.** -/
theorem Pool.finish {q : Pool ε α} (fits : q.Fits f) : ∃ q', q.Reaches q' ∧ q'.Fits f ∧ q'.Ended := by
  obtain ⟨s', finished, hreach, hfinished⟩ := Pool.finish_behind fits q.store []
  exact ⟨⟨s', finished⟩, hreach, fun t ht => (hfinished t ht).1, fun t ht => (hfinished t ht).2⟩

namespace Pass

theorem run_snd {σ : Type} (o : Outside σ) (agent : String) (job : Job) (start : Nat) (w : World σ) :
    (run o agent job start w).2 = ((program agent job start).run o w.clearNote).2 := by
  rw [run_eq]

/-- A thread that ends as the program of a pass has the state of its report. -/
theorem state?_of_ending {σ : Type} {o : Outside σ} {agent : String} {job : Job} {start : Nat}
    {w : World σ} {t : Thread Empty Verdict}
    (h : t.ending? = some ((program agent job start).run o w.clearNote).1) :
    t.state? = (run o agent job start w).1.map Report.state := by
  rw [run_eq, Thread.state?, h]
  rcases (program agent job start).run o w.clearNote with ⟨v | e | _, w'⟩
  · rfl
  · exact e.elim
  · rfl

theorem reaches_runAll_behind (agent : String) {assigned : List Assignment}
    (unset : ∀ a ∈ assigned, a.control = .unset) (w : World (Unit × Control))
    (before : List (Thread Empty Verdict)) :
    ∃ finished, Pool.Reaches
        ⟨w.store, before ++ assigned.map fun a => .start (program agent a.job a.start)⟩
        ⟨(runAll (Remote.ofReplies f) agent assigned w).2.store, before ++ finished⟩ ∧
      (∀ t ∈ finished, t.Fits f ∧ t.ending?.isSome = true) ∧
      finished.filterMap Thread.state? =
        (runAll (Remote.ofReplies f) agent assigned w).1.map Report.state := by
  induction assigned generalizing w before with
  | nil => exact ⟨[], .refl, by simp, rfl⟩
  | cons a rest ih =>
    obtain ⟨ha, hrest⟩ := List.forall_mem_cons.mp unset
    obtain ⟨t, hturns, hend, hfits, _⟩ := (program agent a.job a.start).run_turns (f := f) (h := [])
      (w := World.clearNote { w with outside := (w.outside.1, a.control) }) ha before
      (rest.map fun a => .start (program agent a.job a.start))
    rw [← run_snd] at hturns
    obtain ⟨finished, hothers, hfinished, hstates⟩ := ih hrest
      (run (Remote.ofReplies f).outside agent a.job a.start
        { w with outside := (w.outside.1, a.control) }).2 (before ++ [t])
    rw [List.append_assoc, List.append_assoc] at hothers
    have ht : t.Fits f := hfits fun e he => absurd he List.not_mem_nil
    refine ⟨t :: finished, hturns.trans hothers,
      List.forall_mem_cons.mpr ⟨⟨ht, by rw [hend]; rfl⟩, hfinished⟩, ?_⟩
    rw [List.filterMap_cons, state?_of_ending hend, hstates, runAll, List.map_append]
    cases (run (Remote.ofReplies f).outside agent a.job a.start
      { w with outside := (w.outside.1, a.control) }).1 <;> rfl

/-- **Jobs that are run one after the other are one of the runs of their pool.** -/
theorem reaches_runAll (f : Replies) (s : Store) (agent : String) {assigned : List Assignment}
    (unset : ∀ a ∈ assigned, a.control = .unset) :
    let r := runAll (Remote.ofReplies f) agent assigned (.start s ((), .unset))
    ∃ q, (pool s agent assigned).Reaches q ∧ q.Fits f ∧ q.Ended ∧ q.store = r.2.store ∧
      q.threads.filterMap Thread.state? = r.1.map Report.state := by
  obtain ⟨finished, hreach, hfinished, hstates⟩ :=
    reaches_runAll_behind agent unset (.start s ((), .unset)) []
  refine ⟨⟨_, finished⟩, ?_, fun t ht => (hfinished t ht).1, fun t ht => (hfinished t ht).2, rfl,
    hstates⟩
  unfold pool Pool.start
  rw [List.map_map]
  exact hreach

end Pass

end FleetJobs
