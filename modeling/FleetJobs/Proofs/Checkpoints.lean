import FleetJobs.Proofs.PassCourse

/-! When the flags of a job count.

Hosts may raise and lower the flags of a job with any reply, so the flags change while steps
run. A step takes no notice: it does what it does with its hosts alone, and the signals that came
with the replies are applied to the flags behind it (`Step.run_signalled`). A pass looks at the
flags at its checkpoints, before every step that it arrives at (`Pass.Arrives`), and what
shows there is all that counts of the signals so far. The first flag that shows ends the pass, and
what does not show at a checkpoint has never been. An abort shows for ever, on all controls that
share the flags. -/
namespace FleetJobs

open FleetJobs.Gateway
open FleetJobs.Job (Board Control Signal)
open FleetJobs.Pass (Verdict records)
open FleetJobs.Step (Outcome)

variable {κ : Type}

/-! ### Signals -/

namespace Gateway.Remote

variable (r : Remote κ) (k : κ)

/-- The signals that come with the replies to these commands, sent one after another. -/
def signalsOf (k : κ) : List Sent → List Signal
  | [] => []
  | c :: rest =>
    (r.answer k c.host c.line).signals ++ signalsOf (r.answer k c.host c.line).state rest

/-- The state that these commands leave. -/
def stateAfter (k : κ) : List Sent → κ
  | [] => k
  | c :: rest => stateAfter (r.answer k c.host c.line).state rest

theorem signalsOf_append_singleton (sent : List Sent) (c : Sent) :
    r.signalsOf k (sent ++ [c]) =
      r.signalsOf k sent ++ (r.answer (r.stateAfter k sent) c.host c.line).signals := by
  induction sent generalizing k with
  | nil => exact List.append_nil _
  | cons first rest ih => simp only [List.cons_append, signalsOf, stateAfter, ih, List.append_assoc]

theorem stateAfter_append_singleton (sent : List Sent) (c : Sent) :
    r.stateAfter k (sent ++ [c]) = (r.answer (r.stateAfter k sent) c.host c.line).state := by
  induction sent generalizing k with
  | nil => rfl
  | cons first rest ih => exact ih _

/-- The signals that come while these steps run, one after another. -/
def signalsDuring (agent : String) : List Step → World κ → List Signal
  | [], _ => []
  | s :: rest, w =>
    let w' := ((s.program agent).run r.hosts.alone w).2
    r.signalsOf w.outside (w'.sent.drop w.sent.length) ++ signalsDuring agent rest w'

end Gateway.Remote

namespace Job

theorem Control.applyAll_append (c : Control) (a b : List Signal) :
    c.applyAll (a ++ b) = (c.applyAll a).applyAll b := List.foldl_append

theorem Control.applyAll_cons (c : Control) (s : Signal) (a : List Signal) :
    c.applyAll (s :: a) = (c.apply s).applyAll a := rfl

end Job

/-! ### A step -/

/-- What signals do to the world of a job: the flags are those from before with the signals
of all replies since, and nothing else tells it from the world of the hosts alone. -/
structure Signalled (r : Remote κ) (start : World κ) (flags : Control) (new : List Sent)
    (w : World κ) (v : World (κ × Control)) : Prop where
  sent : w.sent = start.sent ++ new
  state : w.outside = r.stateAfter start.outside new
  world : v = w.beside (flags.applyAll (r.signalsOf start.outside new))

theorem Signalled.matches (r : Remote κ) (start : World κ) (flags : Control) :
    r.hosts.alone.Matches r.outside fun w v => ∃ new, Signalled r start flags new w v where
  store := by
    rintro w _ ⟨new, _, _, rfl⟩
    rfl
  written := by
    rintro w _ s ⟨new, hsent, hstate, rfl⟩
    exact ⟨new, hsent, hstate, rfl⟩
  sent := by
    rintro w _ host line ⟨new, hsent, hstate, rfl⟩
    refine ⟨rfl, new ++ [⟨host, line, (w.send r.hosts.alone host line).1⟩], ?_, ?_, ?_⟩
    · show w.sent ++ [_] = _
      rw [hsent, List.append_assoc]
      rfl
    · rw [Remote.stateAfter_append_singleton, ← hstate]
      rfl
    · rw [Remote.signalsOf_append_singleton, Control.applyAll_append, ← hstate]
      rfl

/-- **A step takes no notice of signals.** It ends as it does without them, in the same world, and
the flags are those from before with the signals applied. -/
theorem Step.run_signalled (r : Remote κ) (agent : String) (s : Step) (w : World κ) (flags : Control) :
    (s.program agent).run r.outside (w.beside flags) =
      (((s.program agent).run r.hosts.alone w).1,
        ((s.program agent).run r.hosts.alone w).2.beside
          (flags.applyAll (r.signalsDuring agent [s] w))) := by
  have hstart : Signalled r w flags [] w (w.beside flags) := ⟨(List.append_nil _).symm, rfl, rfl⟩
  obtain ⟨hending, new, hsent, _, hworld⟩ :=
    s.run_matches agent (Signalled.matches r w flags) ⟨[], hstart⟩
  have hnew : r.signalsDuring agent [s] w = r.signalsOf w.outside new := by
    simp only [Remote.signalsDuring, hsent, List.drop_left, List.append_nil]
  rw [hnew]
  exact Prod.ext hending.symm hworld

/-! ### Checkpoints -/

namespace Pass

/-- The pass arrives at the checkpoint before the step `n` of these, in the world `w'`: the steps
before it have succeeded, and no flag has shown at the checkpoints before. -/
structure Arrives (r : Remote κ) (agent : String) (flags : Control) (steps : List Step) (w : World κ)
    (n : Nat) (w' : World κ) : Prop where
  inside : n < steps.length
  succeeded : Step.AllSucceed r.hosts agent (steps.take n) w w'
  unset : ∀ m < n, flags.applyAll (r.signalsDuring agent (steps.take m) w) = .unset

variable {r : Remote κ} {agent : String} {flags : Control} {s : Step} {steps rest : List Step}
  {w w₁ w' : World κ} {n : Nat}

theorem signalsDuring_cons (hs : (s.program agent).run r.hosts.alone w = (.done (), w₁)) :
    r.signalsDuring agent (s :: steps) w =
      r.signalsDuring agent [s] w ++ r.signalsDuring agent steps w₁ := by
  simp only [Remote.signalsDuring, hs, List.append_nil]

/-- Behind its first step the pass goes on as one over the others. -/
theorem arrives_succ (hs : (s.program agent).run r.hosts.alone w = (.done (), w₁)) :
    Arrives r agent flags (s :: rest) w (n + 1) w' ↔
      flags = .unset ∧
        Arrives r agent (flags.applyAll (r.signalsDuring agent [s] w)) rest w₁ n w' := by
  have hshown (m : Nat) : flags.applyAll (r.signalsDuring agent ((s :: rest).take (m + 1)) w) =
      (flags.applyAll (r.signalsDuring agent [s] w)).applyAll
        (r.signalsDuring agent (rest.take m) w₁) := by
    rw [List.take_succ_cons, signalsDuring_cons hs, Control.applyAll_append]
  constructor
  · rintro ⟨hinside, hsucceeded, hunset⟩
    obtain ⟨w₂, hs', hrest⟩ := Step.AllSucceed.uncons (List.take_succ_cons ▸ hsucceeded)
    obtain rfl : w₁ = w₂ := congrArg Prod.snd (hs.symm.trans hs')
    exact ⟨hunset 0 (Nat.succ_pos n), Nat.lt_of_succ_lt_succ hinside, hrest,
      fun m hm => (hshown m).symm.trans (hunset (m + 1) (Nat.succ_lt_succ hm))⟩
  · rintro ⟨hflags, hinside, hsucceeded, hunset⟩
    refine ⟨Nat.succ_lt_succ hinside, List.take_succ_cons ▸ hsucceeded.cons hs, fun m hm => ?_⟩
    cases m with
    | zero => exact hflags
    | succ m => exact (hshown m).trans (hunset m (Nat.lt_of_succ_lt_succ hm))

theorem arrives_zero : Arrives r agent flags (s :: rest) w 0 w' ↔ w = w' := by
  constructor
  · exact fun h => congrArg Prod.snd h.succeeded
  · rintro rfl
    exact ⟨Nat.succ_pos _, rfl, fun m hm => absurd hm (Nat.not_lt_zero m)⟩

/-- One turn of a pass that sees no flag. -/
theorem run_stepsProgram_of_unset {σ : Type} {o : Outside σ} {v : World σ}
    (hlook : v.look o = (.unset, v)) (transition : Option Job.Transition) (i : Nat) :
    (stepsProgram agent transition i (s :: rest)).run o v =
      match (s.program agent).run o v with
      | (.failed e, v₁) => (.done (.failedAt i s (.ofFailure e) rest), v₁)
      | (.exhausted, v₁) => (.exhausted, v₁)
      | (.done (), v₁) =>
        match (stepsProgram agent transition (i + 1) rest).run o v₁ with
        | (.done v, v₂) => (.done (v.after i s transition), v₂)
        | (.failed e, v₂) => (.failed e, v₂)
        | (.exhausted, v₂) => (.exhausted, v₂) := by
  rw [run_stepsProgram_cons, hlook]
  rfl

/-- **The first flag that shows ends the pass**, an abort before a pause. -/
theorem run_stopped (transition : Option Job.Transition) (i : Nat)
    (h : Arrives r agent flags steps w n w')
    (shows : flags.applyAll (r.signalsDuring agent (steps.take n) w) ≠ .unset) :
    let shown := flags.applyAll (r.signalsDuring agent (steps.take n) w)
    let stop : Verdict :=
      if shown.aborted then .stopped .aborted .aborted (i + n) (steps.drop n)
      else .stopped (.paused (i + n)) .paused (i + n) (steps.drop n)
    (stepsProgram agent transition i steps).run r.outside (w.beside flags) =
      (.done (stop.afterAll i transition (steps.take n)), w'.beside shown) := by
  induction n generalizing i steps w flags with
  | zero =>
    obtain ⟨s, rest, rfl⟩ := List.exists_cons_of_length_pos h.inside
    obtain rfl := arrives_zero.mp h
    have hlook : (w.beside flags).look r.outside = (flags, w.beside flags) := rfl
    have shows : flags ≠ .unset := shows
    show (stepsProgram agent transition i (s :: rest)).run r.outside (w.beside flags) =
      (.done (if flags.aborted then .stopped .aborted .aborted i (s :: rest)
        else .stopped (.paused i) .paused i (s :: rest)), w.beside flags)
    rw [run_stepsProgram_cons, hlook]
    obtain ⟨_ | _, _ | _⟩ := flags
    · exact absurd rfl shows
    all_goals rfl
  | succ n ih =>
    obtain ⟨s, rest, rfl⟩ := List.exists_cons_of_length_pos (Nat.zero_lt_of_lt h.inside)
    obtain ⟨w₁, hs, _⟩ := Step.AllSucceed.uncons (List.take_succ_cons ▸ h.succeeded)
    obtain ⟨rfl, hrest⟩ := (arrives_succ hs).mp h
    have hshown : Control.unset.applyAll (r.signalsDuring agent ((s :: rest).take (n + 1)) w) =
        (Control.unset.applyAll (r.signalsDuring agent [s] w)).applyAll
          (r.signalsDuring agent (rest.take n) w₁) := by
      rw [List.take_succ_cons, signalsDuring_cons hs, Control.applyAll_append]
    rw [hshown] at shows ⊢
    have hrun := ih (i + 1) hrest shows
    rw [run_stepsProgram_of_unset rfl, Step.run_signalled, hs]
    dsimp only
    rw [hrun, List.take_succ_cons, List.drop_succ_cons, Nat.add_assoc, Nat.add_comm 1 n]
    rfl

/-- **Flags that never show do nothing.** -/
theorem run_unstopped (transition : Option Job.Transition) (i : Nat)
    (unset : ∀ n w', Arrives r agent flags steps w n w' →
      flags.applyAll (r.signalsDuring agent (steps.take n) w) = .unset) :
    let run := (stepsProgram agent transition i steps).run r.outside (w.beside flags)
    (run.1, run.2.hosts) = (stepsProgram agent transition i steps).run r.hosts.alone w := by
  induction steps generalizing i w flags with
  | nil => rfl
  | cons s rest ih =>
    obtain rfl : flags = .unset := unset 0 w (arrives_zero.mpr rfl)
    rw [run_stepsProgram_of_unset rfl, run_stepsProgram_of_unset rfl, Step.run_signalled]
    rcases hs : (s.program agent).run r.hosts.alone w with ⟨⟨⟩ | e | _, w₁⟩
    · have hunset (m : Nat) (w' : World κ)
          (hm : Arrives r agent (Control.unset.applyAll (r.signalsDuring agent [s] w)) rest w₁ m w') :
          (Control.unset.applyAll (r.signalsDuring agent [s] w)).applyAll
            (r.signalsDuring agent (rest.take m) w₁) = .unset := by
        have hshown := unset (m + 1) w' ((arrives_succ hs).mpr ⟨rfl, hm⟩)
        rwa [List.take_succ_cons, signalsDuring_cons hs, Control.applyAll_append] at hshown
      have hrest := ih (i + 1) hunset
      dsimp only at hrest ⊢
      rw [← hrest]
      rcases (stepsProgram agent transition (i + 1) rest).run r.outside _ with ⟨v | e | _, w₂⟩ <;> rfl
    · rfl
    · rfl

/-! ### Passes -/

theorem Verdict.afterAll_eq (i : Nat) (transition : Option Job.Transition) (before : List Step)
    {v : Verdict} (h : v.committed = none) :
    v.afterAll i transition before = ⟨v.state, records .succeeded i before ++ v.steps,
      if before.any Step.isFinal then transition else none⟩ := by
  rw [← committed_afterAll i transition before v h, ← afterAll_steps i transition before v,
    ← afterAll_state i transition before v]

/-- What is said of a pass that these flags have ended before its step `n`. -/
def Verdict.atCheckpoint (job : Job) (start n : Nat) (shown : Control) : Verdict :=
  let steps := job.steps.drop start
  { state := if shown.aborted then .aborted else .paused (start + n)
    steps := records .succeeded start (steps.take n) ++
      records (if shown.aborted then .aborted else .paused) (start + n) (steps.drop n)
    committed := if (steps.take n).any Step.isFinal then job.transition else none }

variable {job : Job} {start : Nat}

theorem run_atCheckpoint (inside : start < job.steps.length)
    (h : Arrives r agent flags (job.steps.drop start) w.clearNote n w')
    (shows : flags.applyAll
      (r.signalsDuring agent ((job.steps.drop start).take n) w.clearNote) ≠ .unset) :
    let shown := flags.applyAll
      (r.signalsDuring agent ((job.steps.drop start).take n) w.clearNote)
    run r.outside agent job start (w.beside flags) =
      (some (report job (.atCheckpoint job start n shown) w'.lastCommand), w'.beside shown) := by
  intro shown
  have hclear : (w.beside flags).clearNote = w.clearNote.beside flags := rfl
  rw [run_of_inside r.outside agent inside, hclear, run_stopped job.transition start h shows]
  have hverdict : (if shown.aborted then
        Verdict.stopped .aborted .aborted (start + n) ((job.steps.drop start).drop n)
      else .stopped (.paused (start + n)) .paused (start + n) ((job.steps.drop start).drop n)).afterAll
        start job.transition ((job.steps.drop start).take n) = .atCheckpoint job start n shown := by
    rw [Verdict.afterAll_eq start job.transition _ (by split <;> rfl)]
    unfold Verdict.atCheckpoint
    split <;> rfl
  dsimp only
  rw [hverdict]
  rfl

theorem run_past_checkpoints (inside : start < job.steps.length)
    (unset : ∀ n w', Arrives r agent flags (job.steps.drop start) w.clearNote n w' →
      flags.applyAll (r.signalsDuring agent ((job.steps.drop start).take n) w.clearNote) = .unset) :
    let pass := run r.outside agent job start (w.beside flags)
    (pass.1, pass.2.hosts) = run r.hosts.alone agent job start w := by
  intro pass
  have hclear : (w.beside flags).clearNote = w.clearNote.beside flags := rfl
  have hrun := run_unstopped job.transition start unset
  have hpass : pass = _ := run_of_inside r.outside agent inside (w.beside flags)
  rw [hpass, run_of_inside r.hosts.alone agent inside w, hclear, ← hrun]
  rfl

/-- An abort that is called before a pass leaves nothing to it. -/
theorem run_aborted (r : Remote κ) (agent : String) (job : Job) (start : Nat) (w : World κ)
    (h : flags.aborted = true) :
    run r.outside agent job start (w.beside flags) =
      (some (report job (if job.steps.length ≤ start then
        ⟨.rejected (rejection start job.steps.length), [], none⟩
      else .stopped .aborted .aborted start (job.steps.drop start)) none), w.clearNote.beside flags) := by
  by_cases hstart : job.steps.length ≤ start
  · unfold run program
    rw [if_pos hstart, if_pos hstart]
    rfl
  · rw [if_neg hstart, run_of_inside r.outside agent (Nat.not_le.mp hstart)]
    obtain ⟨s, rest, hsteps⟩ : ∃ s rest, job.steps.drop start = s :: rest :=
      List.exists_cons_of_length_pos (by rw [List.length_drop]; omega)
    have hlook : (w.clearNote.beside flags).look r.outside = (flags, w.clearNote.beside flags) := rfl
    have hclear : (w.beside flags).clearNote = w.clearNote.beside flags := rfl
    rw [hclear, hsteps, run_stepsProgram_cons, hlook, if_pos h]
    rfl

end Pass

/-! ### Pauses that are undone -/

/-- The second list of signals is the first without pauses that are undone further on: left out
alone, or with the signal that undoes it if there was no other pause for it to undo. -/
inductive Job.Undone : List Signal → List Signal → Prop
  | refl (a : List Signal) : Undone a a
  | pause (a b c : List Signal) :
    Undone (a ++ .pause :: b ++ .unpause :: c) (a ++ b ++ .unpause :: c)
  | both (a b c : List Signal) (down : (Control.unset.applyAll a).paused = false)
    (quiet : .pause ∉ b) : Undone (a ++ .pause :: b ++ .unpause :: c) (a ++ b ++ c)
  | trans {a b c : List Signal} (h : Undone a b) (h' : Undone b c) : Undone a c

namespace Job

theorem Control.eq_of_flags {c d : Control} (paused : c.paused = d.paused)
    (aborted : c.aborted = d.aborted) : c = d := by
  cases c
  cases d
  cases paused
  cases aborted
  rfl

/-- Whether a job is aborted does not hang on pauses. -/
theorem Control.aborted_applyAll_congr {c d : Control} (h : c.aborted = d.aborted) (a : List Signal) :
    (c.applyAll a).aborted = (d.applyAll a).aborted := by
  induction a generalizing c d with
  | nil => exact h
  | cons s rest ih => exact ih (by cases s <;> simp [Control.apply, h])

theorem Control.unpaused_applyAll {c : Control} (h : c.paused = false) {a : List Signal}
    (quiet : .pause ∉ a) : (c.applyAll a).paused = false := by
  induction a generalizing c with
  | nil => exact h
  | cons s rest ih =>
    obtain ⟨hs, hrest⟩ := not_or.mp (mt List.mem_cons.mpr quiet)
    refine ih ?_ hrest
    cases s with
    | pause => exact absurd rfl hs
    | unpause => rfl
    | abort => exact h

/-- **A pause that is undone has never been.** -/
theorem Undone.same {a b : List Signal} (h : Undone a b) :
    Control.unset.applyAll a = Control.unset.applyAll b := by
  induction h with
  | refl => rfl
  | pause a b c =>
    have hundone (d : Control) :
        ((d.apply .pause).applyAll b).apply .unpause = (d.applyAll b).apply .unpause :=
      Control.eq_of_flags rfl (Control.aborted_applyAll_congr (c := d.apply .pause) (d := d) rfl b)
    simp only [Control.applyAll_append, Control.applyAll_cons, List.cons_append, List.append_assoc]
    exact congrArg (Control.applyAll · c) (hundone (Control.unset.applyAll a))
  | both a b c down quiet =>
    have hundone {d : Control} (hd : d.paused = false) :
        ((d.apply .pause).applyAll b).apply .unpause = d.applyAll b :=
      Control.eq_of_flags (Control.unpaused_applyAll hd quiet).symm
        (Control.aborted_applyAll_congr (c := d.apply .pause) (d := d) rfl b)
    simp only [Control.applyAll_append, Control.applyAll_cons, List.cons_append, List.append_assoc]
    exact congrArg (Control.applyAll · c) (hundone down)
  | trans h h' ih ih' => exact ih.trans ih'

end Job

namespace Pass

variable {r r' : Remote κ} {agent : String} {job : Job} {start : Nat} {flags flags' : Control}
  {w : World κ}

variable {steps : List Step} {n : Nat} {w' : World κ}

/-- A pass that arrives at a checkpoint has arrived at those before. -/
theorem exists_succeeded_of_lt {m : Nat} (hm : m ≤ n)
    (h : Step.AllSucceed r.hosts agent (steps.take n) w w') :
    ∃ w₁, Step.AllSucceed r.hosts agent (steps.take m) w w₁ := by
  induction m generalizing n steps w with
  | zero => exact ⟨w, rfl⟩
  | succ m ih =>
    obtain ⟨n, rfl⟩ := Nat.exists_eq_add_one_of_ne_zero (Nat.ne_of_gt (Nat.zero_lt_of_lt hm))
    cases steps with
    | nil => exact ⟨w, rfl⟩
    | cons s rest =>
      obtain ⟨w₁, hs, hrest⟩ := Step.AllSucceed.uncons (List.take_succ_cons ▸ h)
      obtain ⟨w₂, hw₂⟩ := ih (Nat.le_of_succ_le_succ hm) hrest
      exact ⟨w₂, List.take_succ_cons ▸ hw₂.cons hs⟩

theorem Arrives.earlier (h : Arrives r agent flags steps w n w') {m : Nat} (hm : m < n) :
    ∃ w₁, Arrives r agent flags steps w m w₁ := by
  obtain ⟨w₁, hsucceeded⟩ := exists_succeeded_of_lt (Nat.le_of_lt hm) h.succeeded
  exact ⟨w₁, Nat.lt_trans hm h.inside, hsucceeded, fun l hl => h.unset l (Nat.lt_trans hl hm)⟩

/-- If no flag shows where a pass arrives, it arrives wherever its steps succeed. -/
theorem arrives_of_unset (unset : ∀ n w', Arrives r agent flags steps w n w' →
      flags.applyAll (r.signalsDuring agent (steps.take n) w) = .unset)
    (hinside : n < steps.length) (h : Step.AllSucceed r.hosts agent (steps.take n) w w') :
    Arrives r agent flags steps w n w' := by
  induction n using Nat.strongRecOn generalizing w' with
  | ind n ih =>
    refine ⟨hinside, h, fun m hm => ?_⟩
    obtain ⟨w₁, hw₁⟩ := exists_succeeded_of_lt (Nat.le_of_lt hm) h
    exact unset m w₁ (ih m hm (Nat.lt_trans hm hinside) hw₁)

/-- **What shows at its checkpoints is all that a pass knows of signals.** -/
theorem run_of_same_shown (inside : start < job.steps.length) (hosts : r'.hosts = r.hosts)
    (same : ∀ n w', Arrives r agent flags (job.steps.drop start) w.clearNote n w' →
      flags'.applyAll (r'.signalsDuring agent ((job.steps.drop start).take n) w.clearNote) =
        flags.applyAll (r.signalsDuring agent ((job.steps.drop start).take n) w.clearNote)) :
    let pass := run r.outside agent job start (w.beside flags)
    let pass' := run r'.outside agent job start (w.beside flags')
    (pass'.1, pass'.2.hosts) = (pass.1, pass.2.hosts) := by
  intro pass pass'
  by_cases hstop : ∃ n w', Arrives r agent flags (job.steps.drop start) w.clearNote n w' ∧
      flags.applyAll (r.signalsDuring agent ((job.steps.drop start).take n) w.clearNote) ≠ .unset
  · obtain ⟨n, w', h, shows⟩ := hstop
    have h' : Arrives r' agent flags' (job.steps.drop start) w.clearNote n w' := by
      refine ⟨h.inside, hosts ▸ h.succeeded, fun m hm => ?_⟩
      obtain ⟨w₁, hm₁⟩ := h.earlier hm
      rw [same m w₁ hm₁, h.unset m hm]
    have hsame := same n w' h
    have hpass : pass = _ := run_atCheckpoint inside h shows
    have hpass' : pass' = _ := run_atCheckpoint inside h' (hsame ▸ shows)
    rw [hpass, hpass', hsame]
  · have unset : ∀ n w', Arrives r agent flags (job.steps.drop start) w.clearNote n w' →
        flags.applyAll (r.signalsDuring agent ((job.steps.drop start).take n) w.clearNote) =
          .unset :=
      fun n w' h => Decidable.byContradiction fun shows => hstop ⟨n, w', h, shows⟩
    have unset' : ∀ n w', Arrives r' agent flags' (job.steps.drop start) w.clearNote n w' →
        flags'.applyAll (r'.signalsDuring agent ((job.steps.drop start).take n) w.clearNote) =
          .unset := by
      intro n w' h'
      have h := arrives_of_unset unset h'.inside (hosts ▸ h'.succeeded)
      rw [same n w' h, unset n w' h]
    have hpass : (pass.1, pass.2.hosts) = _ := run_past_checkpoints inside unset
    have hpass' : (pass'.1, pass'.2.hosts) = _ := run_past_checkpoints inside unset'
    rw [hpass, hpass', hosts]

end Pass

/-! ### Controls that share their flags -/

/-- What can become of controls: more of them, with flags of their own or with those of another,
and signals to any of them. -/
inductive Job.Board.Leads (b : Board) : Board → Prop
  | refl : Leads b b
  | fresh {b' : Board} (h : Leads b b') : Leads b b'.fresh
  | clone {b' : Board} (h : Leads b b') (i : Nat) : Leads b (b'.clone i)
  | signal {b' : Board} (h : Leads b b') (i : Nat) (s : Signal) : Leads b (b'.signal i s)

namespace Job.Board

variable {b b' : Board} {i j cell : Nat}

/-- Every control names a cell that is there. -/
def Sound (b : Board) : Prop := ∀ cell ∈ b.controls, cell < b.cells.length

theorem Leads.sound (h : b.Leads b') (hb : b.Sound) : b'.Sound := by
  induction h with
  | refl => exact hb
  | fresh h ih =>
    intro cell hcell
    rw [Board.fresh, List.length_append]
    rcases List.mem_append.mp hcell with hcell | hcell
    · exact Nat.lt_add_right 1 (ih cell hcell)
    · rw [List.mem_singleton.mp hcell]
      exact Nat.lt_succ_self _
  | clone h i ih =>
    unfold Board.clone
    split
    · rename_i shared hshared
      intro cell hcell
      rcases List.mem_append.mp hcell with hcell | hcell
      · exact ih cell hcell
      · rw [List.mem_singleton.mp hcell]
        exact ih shared (List.mem_of_getElem? hshared)
    · exact ih
  | signal h i s ih =>
    unfold Board.signal
    split
    · intro cell hcell
      rw [List.length_modify]
      exact ih cell hcell
    · exact ih

/-- An abort is never taken back. -/
theorem Leads.aborted (h : b.Leads b') (hb : ∃ c, b.cells[cell]? = some c ∧ c.aborted = true) :
    ∃ c, b'.cells[cell]? = some c ∧ c.aborted = true := by
  induction h with
  | refl => exact hb
  | fresh h ih =>
    obtain ⟨c, hc, haborted⟩ := ih
    exact ⟨c, List.getElem?_append_left (List.getElem?_eq_some_iff.mp hc).1 ▸ hc, haborted⟩
  | clone h i ih =>
    unfold Board.clone
    split <;> exact ih
  | signal h i s ih =>
    unfold Board.signal
    split
    · rename_i other hother
      obtain ⟨c, hc, haborted⟩ := ih
      rw [List.getElem?_modify, hc]
      split
      · exact ⟨c.apply s, rfl, Control.aborted_apply haborted s⟩
      · exact ⟨c, rfl, haborted⟩
    · exact ih

/-- **Once a control is aborted, so are all that share its flags, for ever.** -/
theorem aborted_for_ever (hb : single.Leads b) (hi : b.controls[i]? = some cell)
    (hb' : (b.signal i .abort).Leads b') (hj : b'.controls[j]? = some cell) :
    ∃ flags, b'.flags[j]? = some flags ∧ flags.aborted = true := by
  have hsound : single.Sound := by
    intro cell hcell
    rw [List.mem_singleton.mp hcell]
    exact Nat.one_pos
  have hcell : cell < b.cells.length := hb.sound hsound cell (List.mem_of_getElem? hi)
  have hnow : ∃ c, (b.signal i .abort).cells[cell]? = some c ∧ c.aborted = true := by
    unfold signal
    rw [hi]
    refine ⟨b.cells[cell].apply .abort, ?_, rfl⟩
    simp [hcell]
  obtain ⟨c, hc, haborted⟩ := hb'.aborted hnow
  refine ⟨c, ?_, haborted⟩
  unfold flags
  rw [List.getElem?_map, hj, Option.map_some, hc]
  rfl

end Job.Board

/-! ### Flags at checkpoints -/

/-- **The flags of a job count at its checkpoints and nowhere else.** Signals came before the
pass (`early`) and come with the replies to any of its commands. A pass ends at the first
checkpoint that it arrives at with a flag showing, aborted if the job is aborted there and
otherwise paused; if there is none, it does what it does when nobody watches. No signal cuts a
step short. Other signals that show the same at these checkpoints, since they differ after the last
of them or by pauses that are undone in time, leave the same report, commands and store. And once
a control is aborted, a pass with any control that shares its flags does nothing. -/
theorem flags_count_at_checkpoints (r : Remote κ) (agent : String) (job : Job) (start : Nat)
    (inside : start < job.steps.length) (w : World κ) (early : List Signal) :
    let steps := job.steps.drop start
    let flags := Control.unset.applyAll early
    let shown := fun n => flags.applyAll (r.signalsDuring agent (steps.take n) w.clearNote)
    let pass := Pass.run r.outside agent job start (w.beside flags)
    (∀ n w', Pass.Arrives r agent flags steps w.clearNote n w' → shown n ≠ .unset →
      pass = (some (Pass.report job (.atCheckpoint job start n (shown n)) w'.lastCommand),
        w'.beside (shown n))) ∧
    ((∀ n w', Pass.Arrives r agent flags steps w.clearNote n w' → shown n = .unset) →
      (pass.1, pass.2.hosts) = Pass.run r.hosts.alone agent job start w) ∧
    (∀ (s : Step) (v : World κ) (c : Control), (s.program agent).run r.outside (v.beside c) =
      (((s.program agent).run r.hosts.alone v).1, ((s.program agent).run r.hosts.alone v).2.beside
        (c.applyAll (r.signalsDuring agent [s] v)))) ∧
    (∀ (r' : Remote κ) (early' : List Signal), r'.hosts = r.hosts →
      (∀ n w', Pass.Arrives r agent flags steps w.clearNote n w' →
        Job.Undone (early ++ r.signalsDuring agent (steps.take n) w.clearNote)
          (early' ++ r'.signalsDuring agent (steps.take n) w.clearNote)) →
      let pass' := Pass.run r'.outside agent job start (w.beside (Control.unset.applyAll early'))
      (pass'.1, pass'.2.hosts) = (pass.1, pass.2.hosts)) ∧
    (∀ (r' : Remote κ), r'.hosts = r.hosts →
      (∀ n < steps.length, r'.signalsDuring agent (steps.take n) w.clearNote =
        r.signalsDuring agent (steps.take n) w.clearNote) →
      let pass' := Pass.run r'.outside agent job start (w.beside flags)
      (pass'.1, pass'.2.hosts) = (pass.1, pass.2.hosts)) ∧
    ∀ (b b' : Board) (i j cell : Nat), Board.single.Leads b → b.controls[i]? = some cell →
      (b.signal i .abort).Leads b' → b'.controls[j]? = some cell →
      ∃ flags', b'.flags[j]? = some flags' ∧ ∀ (job' : Job) (start' : Nat) (w' : World κ),
        Pass.run r.outside agent job' start' (w'.beside flags') =
          (some (Pass.report job' (if job'.steps.length ≤ start' then
              ⟨.rejected (Pass.rejection start' job'.steps.length), [], none⟩
            else ⟨.aborted, records .aborted start' (job'.steps.drop start'), none⟩) none),
          w'.clearNote.beside flags') := by
  intro steps flags shown pass
  refine ⟨fun n w' h shows => Pass.run_atCheckpoint inside h shows,
    fun unset => Pass.run_past_checkpoints inside unset,
    fun s v c => s.run_signalled r agent v c, fun r' early' hosts undone => ?_,
    fun r' hosts same => ?_, fun b b' i j cell hb hi hb' hj => ?_⟩
  · refine Pass.run_of_same_shown inside hosts fun n w' h => ?_
    rw [← Control.applyAll_append, ← Control.applyAll_append]
    exact (undone n w' h).same.symm
  · exact Pass.run_of_same_shown inside hosts fun n w' h =>
      congrArg flags.applyAll (same n h.inside)
  · obtain ⟨flags', hflags, haborted⟩ := Board.aborted_for_ever hb hi hb' hj
    exact ⟨flags', hflags, fun job' start' w' => Pass.run_aborted r agent job' start' w' haborted⟩

/-- Flags that are raised during the first of two steps, and one that is lowered again. -/
theorem raised_or_lowered_again :
    let host : Fleet.Host := ⟨⟨1⟩, "oss1", none, none, .up, none, []⟩
    let job := Job.of 1 "Restart LNet" none [.stopLnet ⟨1⟩, .startLnet ⟨1⟩]
    let w := World.start (Store.ofInventory { hosts := [host] }) ()
    let r : List Signal → Remote Unit := fun signals => ⟨fun _ _ _ => ⟨.ok ⟨0, "", ""⟩, signals, ()⟩⟩
    let pass := fun signals => Pass.run (r signals).outside "agent" job 0 (w.beside .unset)
    0 < job.steps.length ∧
      (∃ w', Pass.Arrives (r [.pause, .abort]) "agent" .unset job.steps w 1 w' ∧
        pass [.pause, .abort] = (some (Pass.report job
          ⟨.aborted, [⟨0, "stop_lnet", .succeeded⟩, ⟨1, "start_lnet", .aborted⟩], none⟩
          w'.lastCommand), w'.beside ⟨true, true⟩)) ∧
      (pass []).1 = (pass [.pause, .unpause]).1 := by
  intro host job w r pass
  have inside : 0 < job.steps.length := by decide
  have shown : Control.unset.applyAll
      ((r [.pause, .abort]).signalsDuring "agent" (job.steps.take 1) w) = ⟨true, true⟩ := by
    decide +kernel
  have hsucceeded : (Step.executeEach (r [.pause, .abort]).hosts "agent" (job.steps.take 1) w).1 =
      [.done ()] := by decide +kernel
  have arrives : Pass.Arrives (r [.pause, .abort]) "agent" .unset job.steps w 1 _ :=
    ⟨by decide, Prod.ext hsucceeded rfl, fun m hm => by obtain rfl := Nat.lt_one_iff.mp hm; rfl⟩
  have hverdict : Pass.Verdict.atCheckpoint job 0 1 ⟨true, true⟩ =
      ⟨.aborted, [⟨0, "stop_lnet", .succeeded⟩, ⟨1, "start_lnet", .aborted⟩], none⟩ := by
    decide +kernel
  have hlowered : ∀ n < 2, Job.Undone ((r [.pause, .unpause]).signalsDuring "agent" (job.steps.take n) w)
      ((r []).signalsDuring "agent" (job.steps.take n) w)
    | 0, _ => .refl []
    | 1, _ => by
      have hboth : (r [.pause, .unpause]).signalsDuring "agent" (job.steps.take 1) w =
          [.pause, .unpause] := by decide +kernel
      have hnone : (r []).signalsDuring "agent" (job.steps.take 1) w = [] := by decide +kernel
      rw [hboth, hnone]
      exact .both [] [] [] rfl List.not_mem_nil
  obtain ⟨hstopped, _⟩ := flags_count_at_checkpoints (r [.pause, .abort]) "agent" job 0 inside w []
  obtain ⟨_, _, _, hundone, _⟩ :=
    flags_count_at_checkpoints (r [.pause, .unpause]) "agent" job 0 inside w []
  have hpass := hstopped 1 _ arrives fun hunset => nomatch shown.symm.trans hunset
  have hsame := hundone (r []) [] rfl fun n w' h => hlowered n h.inside
  refine ⟨inside, ⟨_, arrives, ?_⟩, (Prod.mk.inj hsame).1⟩
  rw [← hverdict, ← shown]
  exact hpass

end FleetJobs
