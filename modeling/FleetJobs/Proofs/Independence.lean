import FleetJobs.Proofs.Footprints
import FleetJobs.Proofs.Turns
import FleetJobs.Step.Execute

/-! Jobs that do not get in each other's way.

A step that is not provisioning keeps to its footprint, whatever others do to the store as
long as they leave all but labels and versions alone (`Step.stays_program`). Jobs are
independent if none writes what another touches. Then each of them goes on in a pool just as
it would alone: the thread in the pool and the pass that is run alone meet stores that agree
on the footprint, so they are told the same (`Thread.Mirrors.turn`), and what the others write
is not in the footprint (`Thread.Mirrors.spared`). So each report is the one of the job alone,
and since every cell is left as its writer alone would leave it, or as it was, the order of
the turns does not show in the store either (`Pass.Settled.unique`). -/
namespace FleetJobs

open FleetJobs.Fleet
open FleetJobs.Gateway (Remote)
open FleetJobs.Job (Control)

/-- If the event is a call, it reads and writes within the footprint. -/
def Event.Within (F : Footprint) : Event → Prop
  | answered c | refused c _ | exhausted c => c.Within F
  | _ => True

/-- Calls are within the footprint, and others leave all but cells alone. -/
def Footprint.terms (F : Footprint) : Terms where
  others := Store.Alike
  allows _ e s s' := s.Alike s' ∧ e.Within F
  refl := .refl
  trans := .trans
  tolerated h := h.1

/-! ### Steps within a footprint -/

namespace Step

variable {α β : Type} {F : Footprint} {s : Store}

/-- The program makes no call outside the footprint, and what it ends with is as `K` says. -/
abbrev Stays (F : Footprint) (K : α → Store → Prop) (s : Store) (p : StepProgram α) : Prop :=
  Abides F.terms (fun _ => True) K s p

/-- A call, and how its answer came about. -/
theorem stays_call (c : Store.Call) (within : c.Within F) :
    Stays F (fun a s' => ∃ s₀, s.Alike s₀ ∧ s₀.handle c = .ok (a, s')) s (call c) := by
  apply Abides.call
  · exact fun h s' a s'' hs hok => ⟨⟨within.alike hok, within⟩, s', hs, hok⟩
  · exact fun h s' r hs hr => ⟨⟨.refl s', within⟩, trivial⟩
  · exact fun h s' hs hx => ⟨.refl s', within⟩

/-- A call whose answer is not gone into. -/
theorem stays_order (c : Store.Call) (within : c.Within F) : Stays F anything s (call c) :=
  (stays_call c within).weaken fun _ _ _ => trivial

theorem stays_targetMount (id : TargetMountId) :
    Stays F (fun m _ => s.targetMounts.find? id.key = some m) s (call (.targetMount id)) := by
  refine (stays_call (.targetMount id) trivial).weaken fun m s' ⟨s₀, hs, hok⟩ => ?_
  rw [← hs.targetMounts]
  exact (Store.find?_of_reading hok).1

theorem stays_confParam (id : ConfParamId) :
    Stays F (fun p _ => s.confParams.find? id.key = some p) s (call (.confParam id)) := by
  refine (stays_call (.confParam id) trivial).weaken fun p s' ⟨s₀, hs, hok⟩ => ?_
  rw [← hs.confParams]
  exact (Store.find?_of_reading hok).1

theorem stays_pairUp (mounts : List TargetMount) : Stays F anything s (pairUp mounts) := by
  induction mounts generalizing s with
  | nil => exact .done trivial
  | cons m rest ih =>
    exact (stays_order (.host m.host) trivial).bind fun _ _ _ _ => ih.bind fun _ _ _ _ => .done trivial

theorem stays_primaryServer (target : TargetId) : Stays F anything s (primaryServer target) :=
  (stays_order (.targetMounts target) trivial).bind fun mounts _ _ _ =>
    (Abides.primaryAmong mounts target).bind fun primary _ _ _ => stays_order (.host primary.host) trivial

theorem stays_controlLnet (id : HostId) (action : Command.LnetAction) :
    Stays F anything s (controlLnet id action) :=
  (stays_order (.host id) trivial).bind fun _ _ _ _ =>
    (Abides.harmless _ _ _).bind fun _ _ _ _ => .done trivial

theorem stays_requestByLabel (agent : String) {id : TargetId} (hid : .label id ∈ F.touches)
    (request : String → Command.AgentRequest) : Stays F anything s (requestByLabel agent id request) := by
  refine (stays_order (.target id) hid).bind fun target _ _ _ => ?_
  split
  · exact .failClean
  · refine (stays_order (.targetMounts target.id) trivial).bind fun mounts _ _ _ => ?_
    refine (stays_pairUp mounts).bind fun pairs _ _ _ => ?_
    refine (Abides.tryEach _ _).bind fun succeeded _ _ _ => ?_
    split
    · exact .done trivial
    · exact .failClean

theorem stays_registerTarget (agent : String) {id : TargetMountId}
    (hid : ∀ m, s.targetMounts.find? id.key = some m → .label m.target ∈ F.writes) :
    Stays F anything s (registerTarget agent id) := by
  refine (stays_targetMount id).bind fun mount _ _ hmount => ?_
  split
  · exact .failClean
  · refine (stays_order (.lunNode _) trivial).bind fun _ _ _ _ => ?_
    refine (stays_order (.host _) trivial).bind fun _ _ _ _ => ?_
    refine (Abides.harmless _ _ _).bind fun _ _ _ _ => ?_
    refine Abides.decode.bind fun result _ _ _ => ?_
    exact stays_order (.setTargetName mount.target result.label) (hid mount hmount)

theorem stays_configurePacemaker (agent : String) {id : TargetMountId}
    (hid : ∀ m, s.targetMounts.find? id.key = some m → .label m.target ∈ F.touches) :
    Stays F anything s (configurePacemaker agent id) := by
  refine (stays_targetMount id).bind fun mount _ _ hmount => ?_
  refine (stays_order (.target mount.target) (hid mount hmount)).bind fun target _ _ _ => ?_
  split
  · exact .failClean
  · exact .failClean
  · refine (stays_order (.lunNode _) trivial).bind fun _ _ _ _ => ?_
    refine (stays_order (.host _) trivial).bind fun _ _ _ _ => ?_
    exact (Abides.harmless _ _ _).bind fun _ _ _ _ => .done trivial

theorem stays_applyConfParam {id : ConfParamId}
    (hid : ∀ p t, s.confParams.find? id.key = some p → p.scope = .target t → .label t ∈ F.touches) :
    Stays F anything s (applyConfParam id) := by
  refine (stays_confParam id).bind fun p s₁ _ hp => ?_
  have key : Stays F anything s₁ (fullKey p) := by
    unfold fullKey
    split
    · exact (stays_order (.filesystem _) trivial).bind fun _ _ _ _ => .done trivial
    · rename_i t hscope
      refine (stays_order (.target t) (hid p t hp hscope)).bind fun target _ _ _ => ?_
      split
      · exact .done trivial
      · exact .inconsistent
  refine key.bind fun _ _ _ _ => (stays_primaryServer p.mgs).bind fun _ _ _ _ => ?_
  exact (Abides.risky _ _ _).bind fun _ _ _ _ => .done trivial

theorem stays_recordVersion {mgs : TargetId} (hmgs : .version mgs ∈ F.writes) (version : UInt64) :
    Stays F anything s (recordVersion mgs version) := by
  refine (stays_order (.mgs mgs) (Footprint.touches_of_writes hmgs)).bind fun record _ _ _ => ?_
  split
  · exact .done trivial
  · exact stays_order (.setVersionApplied mgs version) hmgs

theorem mem_labelOfMount {id : TargetMountId} {m : TargetMount}
    (h : s.targetMounts.find? id.key = some m) : .label m.target ∈ labelOfMount s id := by
  simp [labelOfMount, h]

/-- **A step that is not provisioning stays within its footprint.** -/
theorem stays_program (agent : String) {k : StepKind} (plain : k.isProvisioning = false)
    (covers : F.Covers (k.footprint s)) : Stays F anything s (k.program agent) := by
  cases k with
  | null => exact .done trivial
  | findDevice | mkfs => cases plain
  | mount t | unmount t =>
    exact stays_requestByLabel agent (Footprint.touches_of_reads (covers.reads (by simp [StepKind.footprint]))) _
  | registerTarget m =>
    exact stays_registerTarget agent fun mount hm => covers.writes (mem_labelOfMount hm)
  | configurePacemaker m =>
    exact stays_configurePacemaker agent fun mount hm =>
      Footprint.touches_of_reads (covers.reads (mem_labelOfMount hm))
  | startLnet | stopLnet | loadLnet | unloadLnet => exact stays_controlLnet _ _
  | confParam p =>
    refine stays_applyConfParam fun param t hp hscope => ?_
    apply Footprint.touches_of_reads
    apply covers.reads
    simp [StepKind.footprint, hp, hscope, labelOfScope]
  | confParamVersion m v => exact stays_recordVersion (covers.writes (by simp [StepKind.footprint])) v

end Step

/-! ### Jobs within a footprint -/

namespace Pass

/-- The cells of all steps that the pass is to run. -/
def Assignment.footprint (s : Store) (a : Assignment) : Footprint where
  reads := (a.job.steps.drop a.start).flatMap fun st => (st.kind.footprint s).reads
  writes := (a.job.steps.drop a.start).flatMap fun st => (st.kind.footprint s).writes

/-- Neither writes what the other touches. -/
def Assignment.Independent (s : Store) (a b : Assignment) : Prop :=
  (a.footprint s).Spares (b.footprint s) ∧ (b.footprint s).Spares (a.footprint s)

instance (s : Store) (a b : Assignment) : Decidable (a.Independent s b) :=
  inferInstanceAs (Decidable (_ ∧ _))

/-- No step that the pass is to run formats a target or looks for a device. -/
def Assignment.IsPlain (a : Assignment) : Prop :=
  ∀ st ∈ a.job.steps.drop a.start, st.kind.isProvisioning = false

instance (a : Assignment) : Decidable a.IsPlain :=
  inferInstanceAs (Decidable (∀ st ∈ a.job.steps.drop a.start, st.kind.isProvisioning = false))

theorem Assignment.covers {s : Store} {a : Assignment} {st : Step}
    (h : st ∈ a.job.steps.drop a.start) : (a.footprint s).Covers (st.kind.footprint s) where
  reads _ hx := List.mem_flatMap.mpr ⟨st, h, hx⟩
  writes _ hx := List.mem_flatMap.mpr ⟨st, h, hx⟩

theorem Assignment.upholds {s : Store} {a : Assignment} (plain : a.IsPlain) (agent : String) :
    (program agent a.job a.start).Upholds (a.footprint s).terms (ended fun _ => True) [] s := by
  refine upholds_program fun st hst s' hs => ?_
  apply Step.stays_program agent (plain st hst)
  rw [hs.footprint]
  exact a.covers hst

end Pass

/-! ### A thread and the same program alone -/

/-- The world of a program that is alone and was told what the history says. -/
def worldAfter (v : Store) (h : List Event) : World (Unit × Control) :=
  ⟨v, ((), .unset), (commands h).getLast?.map Sent.record, commands h⟩

/-- Only commands leave a trace in it. -/
theorem worldAfter_snoc (v v' : Store) (h : List Event) {e : Event} (he : e.command? = none) :
    worldAfter v' (h ++ [e]) = { worldAfter v h with store := v' } := by
  simp [worldAfter, he]

theorem worldAfter_replied (f : Replies) (v : Store) (h : List Event) (host : Host) (line : String) :
    (worldAfter v h).send (Remote.ofReplies f).outside host line =
      (f host line, worldAfter v (h ++ [.replied ⟨host, line, f host line⟩])) := by
  simp [worldAfter, World.send, Remote.ofReplies, Remote.outside, Control.applyAll, Event.command?]

/-- What is left of the thread goes on as it would alone: on a store that agrees with that of
the pool, it comes to the given end. -/
def Thread.Mirrors {ε α : Type} (f : Replies) (X : Cell → Prop) (alone : Ending ε α × World (Unit × Control))
    (s : Store) (t : Thread ε α) : Prop :=
  ∃ v p, s.Agree X v ∧ t.standing = .going p ∧
    p.run (Remote.ofReplies f).outside (worldAfter v t.history) = alone

namespace Thread

variable {ε α : Type} {f : Replies} {X : Cell → Prop} {alone : Ending ε α × World (Unit × Control)}
  {F : Footprint} {Q : Post ε α} {s s' : Store} {t t' : Thread ε α}

theorem mirrors_start (f : Replies) (X : Cell → Prop) (s : Store) (p : Program ε α) :
    (Thread.start p).Mirrors f X (p.run (Remote.ofReplies f).outside (.start s ((), .unset))) s :=
  ⟨s, p, .refl X s, rfl, rfl⟩

/-- **A turn of the thread is a turn of the program alone.** -/
theorem Mirrors.turn (h : t.Mirrors f (· ∈ F.touches) alone s) (within : t.Upholds F.terms Q s)
    (hmove : Move s t s' t') (fits : t'.Fits f) : t'.Mirrors f (· ∈ F.touches) alone s' := by
  obtain ⟨v, p, hagree, hp, hrun⟩ := h
  have told : ∀ e ∈ t'.history, e.Fits f := fits
  -- both make the same call, which is within the footprint, so both are told the same
  cases hmove with
  | @answered _ h c next a hok =>
    obtain rfl := Standing.going.inj hp
    have hcall := within s (.refl s)
    rw [hok] at hcall
    obtain ⟨v', hv, hagree'⟩ := (hok ▸ hagree.handle hcall.1.2).of_ok
    refine ⟨v', _, hagree', rfl, ?_⟩
    rw [Program.run_ask_answered _ hv] at hrun
    rw [worldAfter_snoc v v' h rfl]
    exact hrun
  | @refused h c next r hr =>
    obtain rfl := Standing.going.inj hp
    have hcall := within s (.refl s)
    rw [hr] at hcall
    have hv := (hr ▸ hagree.handle hcall.1.2).of_refused
    refine ⟨v, _, hagree, rfl, ?_⟩
    rw [Program.run_ask_refused _ hv] at hrun
    rw [worldAfter_snoc v v h rfl]
    exact hrun
  | exhausted hx =>
    have hcall := within s (.refl s)
    rw [hx] at hcall
    exact absurd (hx ▸ hagree.handle hcall.1.2) Store.Matches.not_exhausted
  | @replied h host line next reply =>
    obtain rfl := Standing.going.inj hp
    obtain rfl : reply = f host line := told (.replied ⟨host, line, reply⟩) (by simp)
    refine ⟨v, _, hagree, rfl, ?_⟩
    rw [Program.run, worldAfter_replied] at hrun
    exact hrun
  | @shown h next flags =>
    obtain rfl := Standing.going.inj hp
    obtain rfl : flags = .unset := told (.shown flags) (by simp)
    refine ⟨v, _, hagree, rfl, ?_⟩
    rw [worldAfter_snoc v v h rfl]
    exact hrun

/-- What is done outside the cells that the program alone counts on does not show to it. -/
theorem Mirrors.spared (h : t.Mirrors f X alone s) (hs : ∀ v, s.Agree X v → s'.Agree X v) :
    t.Mirrors f X alone s' := by
  obtain ⟨v, p, hagree, hp, hrun⟩ := h
  exact ⟨v, p, hs v hagree, hp, hrun⟩

theorem Mirrors.at_end (h : t.Mirrors f X alone s) (hended : t.ending?.isSome = true) :
    t.ending? = some alone.1 ∧ alone.1 ≠ .exhausted ∧
      ∃ v, s.Agree X v ∧ alone.2 = worldAfter v t.history := by
  obtain ⟨v, p, hagree, hp, rfl⟩ := h
  obtain ⟨history, _⟩ := t
  cases hp
  cases p with
  | done | fail => exact ⟨rfl, nofun, v, hagree, rfl⟩
  | ask | send | look => cases hended

/-- A turn changes nothing outside what the footprint writes. -/
theorem agree_of_move (within : t.Upholds F.terms Q s) (hmove : Move s t s' t')
    (spared : ∀ x ∈ F.writes, ¬ X x) {v : Store} (h : s.Agree X v) : s'.Agree X v := by
  rcases within.wrote hmove with rfl | ⟨c, a, hc, _, hwithin⟩
  · exact h
  · exact h.spared hwithin spared hc

end Thread

/-! ### Independent jobs -/

namespace Pass

variable {f : Replies} {s S S' : Store} {agent : String} {assigned order : List Assignment}
  {p q : Pool Empty Verdict}

/-- How the pass ends that is run alone, and in which world. -/
def alone (f : Replies) (s : Store) (agent : String) (a : Assignment) :
    Ending Empty Verdict × World (Unit × Control) :=
  (program agent a.job a.start).run (Remote.ofReplies f).outside (.start s ((), .unset))

/-- The report on a pass that is a thread of a pool, once it is over. -/
def reported? (job : Job) (t : Thread Empty Verdict) : Option Report :=
  (t.ending?.bind Ending.result?).map fun v =>
    report job v ((commands t.history).getLast?.map Sent.record)

theorem run_fst_eq_alone (f : Replies) (s : Store) (agent : String) (a : Assignment) :
    (run (Remote.ofReplies f).outside agent a.job a.start (.start s ((), .unset))).1 =
      (alone f s agent a).1.result?.map fun v => report a.job v (alone f s agent a).2.lastCommand := by
  rw [run_eq]
  rfl

/-- No job writes to the cell. -/
def NoneWrites (s : Store) (assigned : List Assignment) (x : Cell) : Prop :=
  ∀ a ∈ assigned, x ∉ (a.footprint s).writes

theorem spares_of_ne (independent : assigned.Pairwise (Assignment.Independent s)) {i j : Nat}
    {a b : Assignment} (ha : assigned[i]? = some a) (hb : assigned[j]? = some b) (hne : i ≠ j) :
    (a.footprint s).Spares (b.footprint s) := by
  obtain ⟨hi, rfl⟩ := List.getElem?_eq_some_iff.mp ha
  obtain ⟨hj, rfl⟩ := List.getElem?_eq_some_iff.mp hb
  rcases Nat.lt_or_gt_of_ne hne with hlt | hgt
  · exact (List.pairwise_iff_getElem.mp independent i j hi hj hlt).1
  · exact (List.pairwise_iff_getElem.mp independent j i hj hi hgt).2

/-- Every job is within its footprint and goes on as it would alone, and what none of them
writes is as it was. -/
structure Undisturbed (f : Replies) (s : Store) (agent : String) (assigned : List Assignment)
    (q : Pool Empty Verdict) : Prop where
  rest : q.store.Agree (NoneWrites s assigned) s
  thread : ∀ (j : Nat) (t : Thread Empty Verdict), q.threads[j]? = some t → ∃ a,
    assigned[j]? = some a ∧ t.Upholds (a.footprint s).terms (ended fun _ => True) q.store ∧
      (t.Fits f → t.Mirrors f (· ∈ (a.footprint s).touches) (alone f s agent a) q.store)

theorem undisturbed_pool (plain : ∀ a ∈ assigned, a.IsPlain) :
    Undisturbed f s agent assigned (pool s agent assigned) where
  rest := .refl _ s
  thread j t ht := by
    obtain ⟨a, ha, rfl⟩ := threads_pool ht
    exact ⟨a, ha, a.upholds (plain a (List.mem_of_getElem? ha)) agent,
      fun _ => Thread.mirrors_start f _ s _⟩

theorem Undisturbed.move (independent : assigned.Pairwise (Assignment.Independent s))
    (h : Undisturbed f s agent assigned p) (move : p.Move q) : Undisturbed f s agent assigned q := by
  obtain ⟨i, t, t', ht, ht', hmove, hothers⟩ := move.place
  obtain ⟨a, ha, hwithin, hmirrors⟩ := h.thread i t ht
  refine ⟨?_, fun j u hu => ?_⟩
  · exact Thread.agree_of_move hwithin hmove
      (fun x hx hnone => hnone a (List.mem_of_getElem? ha) hx) h.rest
  · by_cases hj : j = i
    · subst hj
      rw [ht'] at hu
      cases hu
      exact ⟨a, ha, (hwithin.move hmove).1,
        fun fits => (hmirrors (hmove.fits fits)).turn hwithin hmove fits⟩
    · rw [hothers j hj] at hu
      obtain ⟨b, hb, hwithinu, hmirrorsu⟩ := h.thread j u hu
      have spares := spares_of_ne independent ha hb (Ne.symm hj)
      exact ⟨b, hb, hwithinu.others ended_stable (hwithin.move hmove).2,
        fun fits => (hmirrorsu fits).spared fun v => Thread.agree_of_move hwithin hmove spares⟩

theorem Undisturbed.reaches (independent : assigned.Pairwise (Assignment.Independent s))
    (h : Undisturbed f s agent assigned p) (run : p.Reaches q) : Undisturbed f s agent assigned q := by
  induction run with
  | refl => exact h
  | tail _ move ih => exact ih.move independent move

/-- The store is in every cell as the job that touches it has it alone, or as it was. -/
structure Settled (f : Replies) (s : Store) (agent : String) (assigned : List Assignment) (S : Store) :
    Prop where
  rest : S.Agree (NoneWrites s assigned) s
  touched : ∀ a ∈ assigned, S.Agree (· ∈ (a.footprint s).touches) (alone f s agent a).2.store

/-- A thread that is over is reported on as if it had been alone. -/
theorem Undisturbed.reported (h : Undisturbed f s agent assigned q) (fits : q.Fits f) {j : Nat}
    {a : Assignment} {t : Thread Empty Verdict} (ha : assigned[j]? = some a)
    (ht : q.threads[j]? = some t) (hended : t.ending?.isSome = true) :
    (reported? a.job t).isSome = true ∧ reported? a.job t =
      (run (Remote.ofReplies f).outside agent a.job a.start (.start s ((), .unset))).1 := by
  obtain ⟨b, hb, _, hmirrors⟩ := h.thread j t ht
  obtain rfl := Option.some.inj (ha.symm.trans hb)
  obtain ⟨hend, hnumbers, v, _, halone⟩ := (hmirrors (fits t (List.mem_of_getElem? ht))).at_end hended
  rw [run_fst_eq_alone, halone, reported?, hend]
  refine ⟨?_, rfl⟩
  rcases he : (alone f s agent a).1 with v | e | _
  · rfl
  · nomatch e
  · exact absurd he hnumbers

theorem length_pool (run : (pool s agent assigned).Reaches q) : q.threads.length = assigned.length := by
  simpa [pool, Pool.start] using run.length

/-- Once all jobs are over, the store is settled. -/
theorem settled_of_ended (plain : ∀ a ∈ assigned, a.IsPlain)
    (independent : assigned.Pairwise (Assignment.Independent s))
    (run : (pool s agent assigned).Reaches q) (fits : q.Fits f) (hended : q.Ended) :
    Settled f s agent assigned q.store := by
  have undisturbed : Undisturbed f s agent assigned q :=
    (undisturbed_pool plain).reaches independent run
  refine ⟨undisturbed.rest, fun a ha => ?_⟩
  obtain ⟨j, hj⟩ := List.getElem?_of_mem ha
  obtain ⟨hlt, _⟩ := List.getElem?_eq_some_iff.mp hj
  have ht := List.getElem?_eq_getElem (length_pool run ▸ hlt)
  obtain ⟨b, hb, _, hmirrors⟩ := undisturbed.thread j _ ht
  obtain rfl := Option.some.inj (hj.symm.trans hb)
  have hmem := List.mem_of_getElem? ht
  obtain ⟨_, _, v, hagree, halone⟩ := (hmirrors (fits _ hmem)).at_end (hended _ hmem)
  rw [halone]
  exact hagree

/-- **There is one such store.** -/
theorem Settled.unique (h : Settled f s agent assigned S) (h' : Settled f s agent assigned S') :
    S = S' := by
  apply Store.Agree.eq
  refine ⟨h'.rest.trans h.rest.symm, fun x _ => ?_⟩
  by_cases hx : NoneWrites s assigned x
  · exact (h.rest.cells x hx).symm.trans (h'.rest.cells x hx)
  · simp only [NoneWrites, not_forall, not_not] at hx
    obtain ⟨a, ha, hx⟩ := hx
    have htouches := Footprint.touches_of_writes hx
    exact ((h.touched a ha).cells x htouches).symm.trans ((h'.touched a ha).cells x htouches)

theorem Settled.perm (h : Settled f s agent order S) (hperm : order.Perm assigned) :
    Settled f s agent assigned S where
  rest := { h.rest with cells := fun x hx => h.rest.cells x fun a ha => hx a (hperm.mem_iff.mp ha) }
  touched a ha := h.touched a (hperm.mem_iff.mpr ha)

end Pass

/-- **Independent jobs do not interfere.** Take jobs of steps that neither format nor look for
devices, of which none writes a label or a version that another reads or writes, hosts whose
replies hang on host and command alone, and flags that are never raised. However the jobs take
turns, they can come to an end; each that is over is reported on as if it were alone on the
store from the start; and when all are over, the store is as if they were run one after
another, in any order. -/
theorem independent_jobs_do_not_interfere (f : Replies) (s : Store) (agent : String)
    (assigned : List Pass.Assignment) (unset : ∀ a ∈ assigned, a.control = .unset)
    (plain : ∀ a ∈ assigned, a.IsPlain)
    (independent : assigned.Pairwise (Pass.Assignment.Independent s))
    (q : Pool Empty Pass.Verdict) (run : (Pass.pool s agent assigned).Reaches q) (fits : q.Fits f) :
    (∃ q', q.Reaches q' ∧ q'.Fits f ∧ q'.Ended) ∧
    (∀ (j : Nat) (a : Pass.Assignment), assigned[j]? = some a → ∃ t, q.threads[j]? = some t ∧
      (t.ending?.isSome = true → (Pass.reported? a.job t).isSome = true ∧ Pass.reported? a.job t =
        (Pass.run (Remote.ofReplies f).outside agent a.job a.start (.start s ((), .unset))).1)) ∧
    (q.Ended → ∀ order : List Pass.Assignment, order.Perm assigned →
      q.store = (Pass.runAll (Remote.ofReplies f) agent order (.start s ((), .unset))).2.store) := by
  refine ⟨Pool.finish fits, fun j a ha => ?_, fun hended order hperm => ?_⟩
  · have undisturbed : Pass.Undisturbed f s agent assigned q :=
      (Pass.undisturbed_pool plain).reaches independent run
    obtain ⟨hj, _⟩ := List.getElem?_eq_some_iff.mp ha
    have ht := List.getElem?_eq_getElem (Pass.length_pool run ▸ hj)
    exact ⟨_, ht, undisturbed.reported fits ha ht⟩
  · have settled := Pass.settled_of_ended plain independent run fits hended
    -- the jobs one after another are another run, of the same jobs
    have unset' : ∀ a ∈ order, a.control = .unset := fun a ha => unset a (hperm.mem_iff.mp ha)
    have plain' : ∀ a ∈ order, a.IsPlain := fun a ha => plain a (hperm.mem_iff.mp ha)
    have independent' : order.Pairwise (Pass.Assignment.Independent s) :=
      (hperm.pairwise_iff fun h => And.symm h).mpr independent
    obtain ⟨q', run', fits', hended', hstore, _⟩ := Pass.reaches_runAll f s agent unset'
    have settled' := Pass.settled_of_ended plain' independent' run' fits' hended'
    rw [← hstore]
    exact settled.unique (settled'.perm hperm)

/-- Two targets are registered at once, and then a version is recorded. -/
theorem registered_at_once :
    let s := Store.ofInventory {
      hosts := [⟨⟨1⟩, "oss1", none, none, .up, none, []⟩, ⟨⟨2⟩, "oss2", none, none, .up, none, []⟩]
      targets := [⟨⟨1⟩, .ost ⟨1⟩, none⟩, ⟨⟨2⟩, .ost ⟨1⟩, none⟩]
      targetMounts := [⟨⟨1⟩, ⟨1⟩, ⟨1⟩, true, .configured, "/mnt/ost1", some ⟨1⟩⟩,
        ⟨⟨2⟩, ⟨2⟩, ⟨2⟩, true, .configured, "/mnt/ost2", some ⟨2⟩⟩]
      lunNodes := [⟨⟨1⟩, ⟨⟨1⟩, "/dev/sda", 0, false⟩, none⟩, ⟨⟨2⟩, ⟨⟨2⟩, "/dev/sda", 0, false⟩, none⟩]
      mgs := [⟨⟨9⟩, 1⟩] }
    let assigned : List Pass.Assignment :=
      [{ job := .of 1 "" none [.registerTarget ⟨1⟩, .mount ⟨1⟩] },
        { job := .of 2 "" none [.registerTarget ⟨2⟩, .confParamVersion ⟨9⟩ 5] }]
    let f : Replies := fun host _ =>
      .ok ⟨0, if host.address = "oss2" then "\x7b\"label\": \"fs-OST0002\"\x7d"
        else "\x7b\"label\": \"fs-OST0001\"\x7d", ""⟩
    (∀ a ∈ assigned, a.control = .unset) ∧ (∀ a ∈ assigned, a.IsPlain) ∧
    assigned.Pairwise (Pass.Assignment.Independent s) ∧
    ∃ p q, (Pass.pool s "agent" assigned).Reaches p ∧ p.threads.map (·.history.length) = [2, 1] ∧
      p.Reaches q ∧ q.Fits f ∧ q.Ended ∧
      q.store.targets.records.map (·.name) = [some "fs-OST0001", some "fs-OST0002"] ∧
      q.store.mgs.records.map (·.versionApplied) = [5] := by
  intro s assigned f
  have unset : ∀ a ∈ assigned, a.control = .unset := by decide
  have plain : ∀ a ∈ assigned, a.IsPlain := by decide
  have independent : assigned.Pairwise (Pass.Assignment.Independent s) := by decide +kernel
  obtain ⟨p, run, hlength, fits⟩ : ∃ p, (Pass.pool s "agent" assigned).Reaches p ∧
      p.threads.map (·.history.length) = [2, 1] ∧ p.Fits f := by
    refine ⟨_, .head (.turn [] [_] (.shown .unset)) <| .head (.turn [_] [] (.shown .unset)) <|
      .head (.turn [] [_] (.answered rfl)) .refl, rfl, ?_⟩
    simp [Pool.Fits, Thread.Fits, Event.Fits]
  obtain ⟨q, more, fits', hended⟩ :=
    (independent_jobs_do_not_interfere f s "agent" assigned unset plain independent p run fits).1
  have hstore := (independent_jobs_do_not_interfere f s "agent" assigned unset plain independent q
    (run.trans more) fits').2.2 hended assigned.reverse assigned.reverse_perm
  refine ⟨unset, plain, independent, p, q, run, hlength, more, fits', hended, ?_⟩
  rw [hstore]
  decide +kernel

end FleetJobs
