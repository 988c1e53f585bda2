import FleetJobs.Gateway.Remote
import FleetJobs.Proofs.StepSafety

/-! Hosts, told apart from those who watch over a job.

Hosts answer commands (`Hosts`); a watch hears of every command and shows the flags
(`Watch`). Both have states of their own, so a reply may depend on all commands before
it, and the flags may change at any time, for any reason. A step never looks at the
flags, so what it does is what it does with its hosts alone: `Step.run_watched`. Nor
does it matter to a program which command was noted last: `Program.run_noted`. -/
namespace FleetJobs

open FleetJobs.Fleet
open FleetJobs.Gateway

/-- What replies to commands, with a state of type `κ`. -/
structure Hosts (κ : Type) where
  reply : κ → Host → String → Reply × κ

/-- Who decides on a job's flags, next to hosts with a state of type `κ`. -/
structure Watch (κ τ : Type) where
  /-- What becomes of the watch when a command is sent. -/
  heard : κ → τ → Host → String → τ
  flags : τ → Job.Control × τ

namespace Hosts

variable {κ τ : Type}

def watched (x : Hosts κ) (v : Watch κ τ) : Outside (κ × τ) where
  send s host line := ((x.reply s.1 host line).1, (x.reply s.1 host line).2, v.heard s.1 s.2 host line)
  look s := ((v.flags s.2).1, s.1, (v.flags s.2).2)

/-- Nobody ever raises a flag. -/
def alone (x : Hosts κ) : Outside κ where
  send := x.reply
  look s := (.unset, s)

end Hosts

/-- Nobody ever raises a flag. -/
def Watch.idle : Watch κ Unit := ⟨fun _ _ _ _ => (), fun _ => (.unset, ())⟩

/-! ### Worlds with and without a watch -/

attribute [ext] World

namespace World

variable {κ τ σ : Type}

/-- The world with a watch over its job. -/
def beside (w : World κ) (t : τ) : World (κ × τ) := { w with outside := (w.outside, t) }

/-- The world without the watch. -/
def hosts (w : World (κ × τ)) : World κ := { w with outside := w.outside.1 }

/-- The world with a note from earlier, if it has none of its own. -/
def noted (w : World σ) (note : Option CommandRecord) : World σ :=
  { w with lastCommand := w.lastCommand <|> note }

theorem noted_noted (w : World σ) (a b : Option CommandRecord) :
    (w.noted a).noted b = w.noted (a <|> b) := by
  unfold noted
  cases w.lastCommand <;> rfl

@[simp] theorem clearNote_noted (w : World σ) : w.clearNote.noted w.lastCommand = w := rfl

end World

namespace Gateway.Remote

variable {κ : Type}

/-- The replies of remote hosts, without the signals that come with them. -/
def hosts (r : Remote κ) : Hosts κ :=
  ⟨fun s host line => ((r.answer s host line).reply, (r.answer s host line).state)⟩

/-- The signals, as they reach the flags of a job. -/
def signals (r : Remote κ) : Watch κ Job.Control :=
  ⟨fun s c host line => c.applyAll (r.answer s host line).signals, fun c => (c, c)⟩

/-- Remote hosts that signal while they answer are hosts with a watch over the job. -/
theorem outside_eq_watched (r : Remote κ) : r.outside = r.hosts.watched r.signals := rfl

end Gateway.Remote

/-! ### Programs that need no watch -/

/-- A relation of worlds that calls and commands keep, so that neither tells the worlds
apart. -/
structure Outside.Matches {σ σ' : Type} (o : Outside σ) (o' : Outside σ')
    (W : World σ → World σ' → Prop) : Prop where
  store : ∀ {w v}, W w v → w.store = v.store
  written : ∀ {w v} s, W w v → W { w with store := s } { v with store := s }
  sent : ∀ {w v} host line, W w v → (w.send o host line).1 = (v.send o' host line).1 ∧
    W (w.send o host line).2 (v.send o' host line).2

/-- A program that never looks at the flags does not tell apart worlds that match. -/
theorem Program.Upholds.run_matches {σ σ' ε α : Type} {T : Terms} {Q : Post ε α}
    (unseen : ∀ h e s, Q h e s → ∀ event ∈ h, event.isLook = false)
    {o : Outside σ} {o' : Outside σ'} {W : World σ → World σ' → Prop} (hW : o.Matches o' W)
    {p : Program ε α} {h : List Event} {w : World σ} {v : World σ'}
    (hp : p.Upholds T Q h w.store) (hw : W w v) :
    (p.run o w).1 = (p.run o' v).1 ∧ W (p.run o w).2 (p.run o' v).2 := by
  induction p generalizing h w v with
  | done | fail => exact ⟨rfl, hw⟩
  | ask c next ih =>
    have hcall := hp w.store (T.refl _)
    have hstore := hW.store hw
    rcases hc : w.store.handle c with (r | _) | ⟨a, s⟩
    · rw [hc] at hcall
      rw [run_ask_refused o hc, run_ask_refused o' (hstore ▸ hc)]
      exact ih _ hcall.2 hw
    · rw [run_ask_exhausted o hc, run_ask_exhausted o' (hstore ▸ hc)]
      exact ⟨rfl, hw⟩
    · rw [hc] at hcall
      rw [run_ask_answered o hc, run_ask_answered o' (hstore ▸ hc)]
      exact ih _ (w := { w with store := s }) (v := { v with store := s }) hcall.2 (hW.written s hw)
  | send host line next ih =>
    obtain ⟨hreply, hsent⟩ := hW.sent host line hw
    have hrest := ih _ (w := (w.send o host line).2) (hp (w.send o host line).1) hsent
    rw [Program.run, Program.run, ← hreply]
    exact hrest
  | look next ih =>
    -- to look would put a look into the history, and `Q` allows none
    obtain ⟨new, hQ, _⟩ := (hp .unset).run o (w := w)
    exact absurd (unseen _ _ _ hQ (.shown .unset) (by simp)) (by simp [Event.isLook])

/-- Two worlds are alike but for the outside, and `R` holds of that. -/
structure World.Alike {σ σ' : Type} (R : σ → σ' → Prop) (w : World σ) (w' : World σ') : Prop where
  store : w.store = w'.store
  outside : R w.outside w'.outside
  lastCommand : w.lastCommand = w'.lastCommand
  sent : w.sent = w'.sent

/-- Outsides that reply alike match. -/
theorem World.Alike.matches {σ σ' : Type} (o : Outside σ) (o' : Outside σ') {R : σ → σ' → Prop}
    (send : ∀ s s' host line, R s s' → (o.send s host line).1 = (o'.send s' host line).1 ∧
      R (o.send s host line).2 (o'.send s' host line).2) :
    o.Matches o' (World.Alike R) where
  store hw := hw.store
  written s hw := ⟨rfl, hw.outside, hw.lastCommand, hw.sent⟩
  sent {w v} host line hw := by
    obtain ⟨hreply, houtside⟩ := send _ _ host line hw.outside
    have hreply : (w.send o host line).1 = (v.send o' host line).1 := hreply
    refine ⟨hreply, hw.store, houtside, ?_, ?_⟩
    · show some (Sent.record ⟨host, line, (w.send o host line).1⟩) = some _
      rw [hreply]
      rfl
    · show w.sent ++ [⟨host, line, (w.send o host line).1⟩] = _
      rw [hreply, hw.sent]
      rfl

/-- A step does not tell apart worlds that match. -/
theorem Step.run_matches {σ σ' : Type} (s : Step) (agent : String) {o : Outside σ} {o' : Outside σ'}
    {W : World σ → World σ' → Prop} (hW : o.Matches o' W) {w : World σ} {v : World σ'} (hw : W w v) :
    ((s.program agent).run o w).1 = ((s.program agent).run o' v).1 ∧
      W ((s.program agent).run o w).2 ((s.program agent).run o' v).2 :=
  (Step.upholds_program agent s.kind w.store).run_matches (fun _ _ _ hsettled => hsettled.unseen) hW hw

/-- **What a step does hangs on its hosts alone**, not on the flags of its job. -/
theorem Step.run_watched {κ τ : Type} (s : Step) (agent : String) (x : Hosts κ) (v : Watch κ τ)
    (w : World (κ × τ)) :
    (s.program agent).run x.alone w.hosts =
      (((s.program agent).run (x.watched v) w).1, ((s.program agent).run (x.watched v) w).2.hosts) := by
  have alike := World.Alike.matches x.alone (x.watched v) (R := fun k s => k = s.1)
    fun _ s _ _ hk => by rw [hk]; exact ⟨rfl, rfl⟩
  obtain ⟨hending, hworld⟩ := s.run_matches agent alike (w := w.hosts) (v := w) ⟨rfl, rfl, rfl, rfl⟩
  exact Prod.ext hending (World.ext hworld.store hworld.outside hworld.lastCommand hworld.sent)

/-- A watch that hears nothing is as it was after a step. -/
theorem Step.run_unheard {κ τ : Type} (s : Step) (agent : String) (x : Hosts κ) {v : Watch κ τ}
    (unheard : ∀ k t host line, v.heard k t host line = t) (w : World κ) (t : τ) :
    (s.program agent).run (x.watched v) (w.beside t) =
      (((s.program agent).run x.alone w).1, ((s.program agent).run x.alone w).2.beside t) := by
  have alike := World.Alike.matches x.alone (x.watched v) (R := fun k s => (k, t) = s)
    fun k s host line hk => by
      rw [← hk]
      exact ⟨rfl, congrArg (Prod.mk (x.reply k host line).2) (unheard k t host line).symm⟩
  obtain ⟨hending, hworld⟩ := s.run_matches agent alike (w := w) (v := w.beside t) ⟨rfl, rfl, rfl, rfl⟩
  exact Prod.ext hending.symm
    (World.ext hworld.store hworld.outside hworld.lastCommand hworld.sent).symm

/-- No program reads the note of the last command. -/
theorem Program.run_noted {ε α σ : Type} (o : Outside σ) (p : Program ε α) (w : World σ)
    (note : Option CommandRecord) :
    p.run o (w.noted note) = ((p.run o w).1, (p.run o w).2.noted note) := by
  induction p generalizing w with
  | done | fail => rfl
  | ask c next ih =>
    have hstore : (w.noted note).store = w.store := rfl
    rcases hc : w.store.handle c with (r | _) | ⟨a, s'⟩
    · rw [run_ask_refused o hc, run_ask_refused o (hstore ▸ hc)]
      exact ih _ w
    · rw [run_ask_exhausted o hc, run_ask_exhausted o (hstore ▸ hc)]
    · rw [run_ask_answered o hc, run_ask_answered o (hstore ▸ hc)]
      exact ih _ { w with store := s' }
  | send host line next ih => exact ih _ (w.send o host line).2
  | look next ih => exact ih _ (w.look o).2

end FleetJobs
