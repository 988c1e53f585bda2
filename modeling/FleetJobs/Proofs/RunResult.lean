import FleetJobs.CommandLine.Run
import FleetJobs.Proofs.RunFrame
import FleetJobs.Proofs.SavedFiles
import FleetJobs.Proofs.StoreInvariant
import FleetJobs.Proofs.Turns

/-! When the running mode succeeds.

The running mode looks at the reports that there are. A pass leaves none if the store had no
number left for a new record, and such a pass is not heard of. `run_succeeds_iff`: the mode
succeeds exactly if its files are loaded and saved and every report says complete; and as
long as the highest numbers of volumes and devices are not taken in the end, every job has a
report, in whatever order the jobs took their turns. `lost_job_is_not_missed` is a run that
succeeds though its one job has no report. -/
namespace FleetJobs

open FleetJobs.Fleet

/-! ### Numbers that are spent -/

namespace Store

variable {s s' : Store}

/-- The highest number of volumes is taken, or that of devices. -/
def Spent (s : Store) : Prop :=
  s.luns.contains 4294967295 = true ∨ s.lunNodes.contains 4294967295 = true

theorem Spent.grows (h : s.Spent) (hg : s.Grows s') : s'.Spent :=
  h.imp (hg.luns 4294967295) (hg.lunNodes 4294967295)

theorem spent_of_exhausted {c : Call} (h : s.handle c = .error .exhausted) : s.Spent := by
  rcases handle_eq_exhausted_iff.mp h with ⟨_, _, _, l, hl, hkey⟩ | ⟨_, _, _, _, n, hn, hkey⟩
  · have hfound := Table.find?_of_mem hl
    rw [show Keyed.key l = 4294967295 from hkey] at hfound
    exact .inl (Table.contains_of_find? hfound)
  · have hfound := Table.find?_of_mem hn
    rw [show Keyed.key n = 4294967295 from hkey] at hfound
    exact .inr (Table.contains_of_find? hfound)

end Store

namespace Program

variable {ε α σ : Type} (o : Outside σ)

/-- No program takes a record away. -/
theorem grows_run (p : Program ε α) (w : World σ) : w.store.Grows (p.run o w).2.store := by
  induction p generalizing w with
  | done | fail => exact .refl _
  | ask c next ih =>
    rcases hc : w.store.handle c with (r | _) | ⟨a, s⟩
    · rw [run_ask_refused o hc]
      exact ih _ w
    · rw [run_ask_exhausted o hc]
      exact .refl _
    · rw [run_ask_answered o hc]
      exact (Store.grows_handle hc).trans (ih (.ok a) { w with store := s })
  | send host line next ih => exact ih _ (w.send o host line).2
  | look next ih => exact ih _ (w.look o).2

theorem spent_of_run {p : Program ε α} {w : World σ} (h : (p.run o w).1 = .exhausted) :
    (p.run o w).2.store.Spent := by
  induction p generalizing w with
  | done | fail => cases h
  | ask c next ih =>
    rcases hc : w.store.handle c with (r | _) | ⟨a, s⟩
    · rw [run_ask_refused o hc] at h ⊢
      exact ih _ h
    · rw [run_ask_exhausted o hc]
      exact Store.spent_of_exhausted hc
    · rw [run_ask_answered o hc] at h ⊢
      exact ih _ h
  | send host line next ih => exact ih _ h
  | look next ih => exact ih _ h

end Program

/-! ### Jobs that are not heard of -/

namespace Pass

variable {σ : Type}

theorem grows_run (o : Outside σ) (agent : String) (job : Job) (start : Nat) (w : World σ) :
    w.store.Grows (run o agent job start w).2.store := by
  rw [run_snd]
  exact Program.grows_run o _ w.clearNote

/-- A pass leaves no report only if numbers are spent. -/
theorem spent_of_run {o : Outside σ} {agent : String} {job : Job} {start : Nat} {w : World σ}
    (h : (run o agent job start w).1 = none) : (run o agent job start w).2.store.Spent := by
  rw [run_eq] at h ⊢
  exact Program.spent_of_run o (Ending.eq_exhausted (Option.map_eq_none_iff.mp h))

theorem grows_runEach (passes : List (Order σ)) (w : World σ) :
    w.store.Grows (runEach passes w).2.store := by
  induction passes generalizing w with
  | nil => exact .refl _
  | cons p rest ih => exact (grows_run p.outside p.agent p.job p.start (p.world w)).trans (ih (p.run w).2)

theorem spent_of_runEach {passes : List (Order σ)} {w : World σ} (h : none ∈ (runEach passes w).1) :
    (runEach passes w).2.store.Spent := by
  induction passes generalizing w with
  | nil => cases h
  | cons p rest ih =>
    rcases List.mem_cons.mp h with hp | hrest
    · exact (spent_of_run (w := p.world w) hp.symm).grows (grows_runEach rest (p.run w).2)
    · exact ih hrest

end Pass

theorem Thread.standing_of_exhausted {ε α : Type} {t : Thread ε α}
    (h : t.ending? = some .exhausted) : t.standing = .exhausted := by
  obtain ⟨history, (_ | _ | _ | _ | _) | _⟩ := t
  all_goals first | rfl | cases h

/-- **Whatever turns the programs of a pool take, one finds no number only if numbers are
spent.** -/
theorem Pool.Reaches.spent {ε α : Type} {s : Store} {ps : List (Program ε α)} {q : Pool ε α}
    (h : (Pool.start s ps).Reaches q) :
    ∀ t ∈ q.threads, t.standing = .exhausted → q.store.Spent := by
  refine h.invariant (I := fun s t => t.standing = .exhausted → s.Spent) ?_ ?_ ?_
  · intro s t s' t' _ hmove hend
    cases hmove with
    | exhausted hc => exact Store.spent_of_exhausted hc
    | _ => cases hend
  · intro s s' t u u' ht _ hmove hend
    cases hmove with
    | answered hc => exact (ht hend).grows (Store.grows_handle hc)
    | _ => exact ht hend
  · intro t ht hend
    obtain ⟨p, _, rfl⟩ := List.mem_map.mp ht
    cases hend

/-- Programs that cannot fail all have a result in the end, if numbers are left. -/
theorem Pool.Reaches.done_of_ended {α : Type} {s : Store} {ps : List (Program Empty α)}
    {q : Pool Empty α} (h : (Pool.start s ps).Reaches q) (ended : q.Ended) (left : ¬ q.store.Spent) :
    ∀ t ∈ q.threads, ∃ a, t.ending? = some (.done a) := by
  intro t ht
  obtain ⟨ending, hend⟩ := Option.isSome_iff_exists.mp (ended t ht)
  cases ending with
  | done a => exact ⟨a, hend⟩
  | failed e => exact e.elim
  | exhausted => exact absurd (h.spent t ht (Thread.standing_of_exhausted hend)) left

/-! ### The running mode -/

namespace CommandLine

open FleetJobs.Files
open FleetJobs.Gateway (Remote)
open FleetJobs.Job (Control)

variable {σ : Type}

/-- The passes of the running mode, one for each job. -/
def Options.orders (o : Options) (remote : Remote σ) (jobs : List Job) :
    List (Pass.Order (σ × Control)) :=
  jobs.map fun j => ⟨remote.outside, o.agent, j, o.resumeFrom, fun outside => (outside.1, .unset)⟩

/-- What the passes over the jobs come to, and the world after them. -/
def Options.passes (o : Options) (remote : Remote σ) (state : σ) (jobs : List Job)
    (inventory : Inventory) : List (Option Report) × World (σ × Control) :=
  Pass.runEach (o.orders remote jobs) (.start (Store.ofInventory inventory) (state, .unset))

theorem Options.runAll_eq_passes (o : Options) (remote : Remote σ) (state : σ) (jobs : List Job)
    (inventory : Inventory) :
    Pass.runAll remote o.agent (jobs.map fun j => Pass.Assignment.mk j o.resumeFrom .unset)
        (.start (Store.ofInventory inventory) (state, .unset)) =
      ((o.passes remote state jobs inventory).1.flatMap Option.toList,
        (o.passes remote state jobs inventory).2) := by
  rw [Pass.runAll_eq_runEach, List.map_map]
  rfl

theorem success_iff {reports : List Report} :
    (reportResult reports).success = true ↔ ∀ r ∈ reports, r.state = .complete := by
  simp [reportResult]

/-- What is done under the lock goes well if the inventory is loaded and saved. -/
theorem run_runLocked {o : Options} {remote : Remote σ} {state : σ} {jobs : List Job}
    {d d' : Directory} {reports : List Report} {state' : σ} :
    (runLocked o remote state jobs).run d = some ((.ok reports, state'), d') ↔
      ∃ inventory d₁, (loadInventory o.inventory).run d = some (.ok inventory, d₁) ∧
        (saveInventory o.inventory (o.passes remote state jobs inventory).2.store.toInventory).run d₁ =
          some (.ok (), d') ∧
        reports = (o.passes remote state jobs inventory).1.flatMap Option.toList ∧
        state' = (o.passes remote state jobs inventory).2.outside.1 := by
  unfold runLocked
  constructor
  · intro h
    obtain ⟨e | inventory, d₁, hload, h⟩ := FileProgram.run_bind_eq_some.mp h
    · cases h
    · simp only [o.runAll_eq_passes] at h
      obtain ⟨e | _, d₂, hsave, h⟩ := FileProgram.run_bind_eq_some.mp h
      · cases h
      · cases h
        exact ⟨inventory, d₁, hload, hsave, rfl, rfl⟩
  · rintro ⟨inventory, d₁, hload, hsave, rfl, rfl⟩
    refine FileProgram.run_bind_eq_some.mpr ⟨_, d₁, hload, ?_⟩
    simp only [o.runAll_eq_passes]
    exact FileProgram.run_bind_eq_some.mpr ⟨_, d', hsave, rfl⟩

/-- The body runs between the claim on the file and the removal of the lock. -/
theorem run_withLock {α : Type} {path : String} {body : FileProgram α} {d d' : Directory} {a : α} :
    (withLock path body).run d = some (.ok a, d') ↔
      ∃ d₁ d₂, d.perform (.claim (lockOf path)) = some (.ok (), d₁) ∧ body.run d₁ = some (a, d₂) ∧
        d' = (d₂.changed (d₂.remove (lockOf path))).2 := by
  unfold withLock
  constructor
  · intro h
    obtain ⟨e | _, d₁, hclaim, h⟩ := FileProgram.run_bind_eq_some.mp h
    · cases h
    obtain ⟨a', d₂, hbody, h⟩ := FileProgram.run_bind_eq_some.mp h
    cases h
    exact ⟨d₁, d₂, FileProgram.run_operate.mp hclaim, hbody, rfl⟩
  · rintro ⟨d₁, d₂, hclaim, hbody, rfl⟩
    refine FileProgram.run_bind_eq_some.mpr ⟨_, d₁, FileProgram.run_operate.mpr hclaim, ?_⟩
    exact FileProgram.run_bind_eq_some.mpr ⟨a, d₂, hbody, rfl⟩

/-- What the running mode comes to once its files are there. -/
theorem run_runJobs {o : Options} {remote : Remote σ} {state : σ} {d : Directory} :
    (∃ output state' d', (runJobs o remote state).run d = some ((⟨true, output⟩, state'), d')) ↔
      ∃ jobs d₀ reports state' d', (loadJobs o.jobFiles).run d = some (.ok jobs, d₀) ∧
        (withLock o.inventory (runLocked o remote state jobs)).run d₀ =
          some (.ok (.ok reports, state'), d') ∧ ∀ r ∈ reports, r.state = .complete := by
  unfold runJobs
  constructor
  · rintro ⟨output, state', d', h⟩
    obtain ⟨e | jobs, d₀, hload, h⟩ := FileProgram.run_bind_eq_some.mp h
    · cases h
    obtain ⟨e | ⟨e | reports, state'⟩, d₁, hlocked, h⟩ := FileProgram.run_bind_eq_some.mp h
    · cases h
    · cases h
    · have hsuccess : (reportResult reports).success = true :=
        congrArg (fun r => r.1.1.success) (Option.some.inj h)
      exact ⟨jobs, d₀, reports, _, d₁, hload, hlocked, success_iff.mp hsuccess⟩
  · rintro ⟨jobs, d₀, reports, state', d', hload, hlocked, hcomplete⟩
    have hresult : reportResult reports = ⟨true, (reportResult reports).output⟩ := by
      rw [← success_iff.mpr hcomplete]
    refine ⟨(reportResult reports).output, state', d', ?_⟩
    refine FileProgram.run_bind_eq_some.mpr ⟨_, d₀, hload, ?_⟩
    refine FileProgram.run_bind_eq_some.mpr ⟨_, d', hlocked, ?_⟩
    rw [← hresult]
    rfl

end CommandLine

open FleetJobs.CommandLine FleetJobs.Files
open FleetJobs.Pass (Verdict)

/-- **The running mode succeeds exactly if its files are loaded and saved and every report says
that its job is complete.** A job without a report does not count, and there is such a job only
if the highest number of volumes or devices is taken in the end. Until then every job must be
complete, in whatever order the jobs take their turns and their reports arrive. -/
theorem run_succeeds_iff {σ : Type} (o : Options) (remote : Gateway.Remote σ) (state : σ)
    (d : Directory) :
    ((∃ output state' d', (runJobs o remote state).run d = some ((⟨true, output⟩, state'), d')) ↔
      ∃ jobs inventory d₀ d₁ d₂ d₃, (loadJobs o.jobFiles).run d = some (.ok jobs, d₀) ∧
        d₀.perform (.claim (lockOf o.inventory)) = some (.ok (), d₁) ∧
        (loadInventory o.inventory).run d₁ = some (.ok inventory, d₂) ∧
        (saveInventory o.inventory (o.passes remote state jobs inventory).2.store.toInventory).run d₂ =
          some (.ok (), d₃) ∧
        ∀ r, some r ∈ (o.passes remote state jobs inventory).1 → r.state = .complete) ∧
    (∀ jobs inventory, ¬ (o.passes remote state jobs inventory).2.store.Spent →
      none ∉ (o.passes remote state jobs inventory).1) ∧
    ∀ s assigned q, (Pass.pool s o.agent assigned).Reaches q → q.Ended → ¬ q.store.Spent →
      ∀ reports : List Report, (reports.map (·.state)).Perm (q.threads.filterMap Thread.state?) →
        ((reportResult reports).success = true ↔
          ∀ t ∈ q.threads, ∃ v : Verdict, t.ending? = some (.done v) ∧ v.state = .complete) := by
  refine ⟨?_, fun jobs inventory hleft hnone => hleft (Pass.spent_of_runEach hnone), ?_⟩
  · rw [run_runJobs]
    constructor
    · rintro ⟨jobs, d₀, reports, state', d', hload, hlocked, hcomplete⟩
      obtain ⟨d₁, d₃, hclaim, hbody, _⟩ := run_withLock.mp hlocked
      obtain ⟨inventory, d₂, hinventory, hsave, rfl, _⟩ := run_runLocked.mp hbody
      refine ⟨jobs, inventory, d₀, d₁, d₂, d₃, hload, hclaim, hinventory, hsave, fun r hr => ?_⟩
      exact hcomplete r (List.mem_flatMap.mpr ⟨some r, hr, by simp⟩)
    · rintro ⟨jobs, inventory, d₀, d₁, d₂, d₃, hload, hclaim, hinventory, hsave, hcomplete⟩
      have hbody := run_runLocked.mpr ⟨inventory, d₂, hinventory, hsave, rfl, rfl⟩
      refine ⟨jobs, d₀, _, _, _, hload, run_withLock.mpr ⟨d₁, d₃, hclaim, hbody, rfl⟩, fun r hr => ?_⟩
      obtain ⟨report, hreport, hr⟩ := List.mem_flatMap.mp hr
      obtain rfl : report = some r := Option.mem_toList.mp hr
      exact hcomplete r hreport
  · intro s assigned q hreach hended hleft reports hperm
    rw [success_iff]
    have hstates : (∀ r ∈ reports, r.state = .complete) ↔
        ∀ state ∈ q.threads.filterMap Thread.state?, state = .complete := by
      rw [← List.forall_mem_map (f := Report.state) (P := fun state => state = .complete)]
      exact forall_congr' fun state => by rw [hperm.mem_iff]
    rw [hstates]
    constructor
    · intro hcomplete t ht
      obtain ⟨v, hv⟩ := hreach.done_of_ended hended hleft t ht
      exact ⟨v, hv, hcomplete v.state (List.mem_filterMap.mpr ⟨t, ht, by simp [Thread.state?, hv]⟩)⟩
    · intro hcomplete state hstate
      obtain ⟨t, ht, hstate⟩ := List.mem_filterMap.mp hstate
      obtain ⟨v, hv, hcomplete⟩ := hcomplete t ht
      simp only [Thread.state?, hv, Option.some.injEq] at hstate
      rw [← hstate, hcomplete]

/-- Two jobs take all their turns one after the other, and the report on the second comes first. -/
theorem both_jobs_succeed :
    let host (id : UInt32) (address : String) : Host := ⟨⟨id⟩, address, none, none, .up, none, []⟩
    let s := Store.ofInventory { hosts := [host 1 "oss1", host 2 "oss2"] }
    let assigned : List Pass.Assignment :=
      [{ job := .of 1 "Start LNet" none [.startLnet ⟨1⟩, .null] },
        { job := .of 2 "Stop LNet" none [.stopLnet ⟨2⟩] }]
    let o : Options := ⟨.run, [], "inventory.yaml", {}, "hydra-agent", 0⟩
    ∃ (q : Pool Empty Verdict) (reports : List Report),
      (Pass.pool s o.agent assigned).Reaches q ∧ q.Ended ∧ ¬ q.store.Spent ∧
      (reports.map (·.state)).Perm (q.threads.filterMap Thread.state?) ∧
      reports.map Report.jobId = [2, 1] ∧ (reportResult reports).success = true ∧
      ∀ t ∈ q.threads, ∃ v : Verdict, t.ending? = some (.done v) ∧ v.state = .complete := by
  intro host s assigned o
  let replies : Replies := fun _ _ => .ok ⟨0, "", ""⟩
  let passes := Pass.runAll (.ofReplies replies) o.agent assigned (.start s ((), .unset))
  have unset : ∀ a ∈ assigned, a.control = .unset := by decide
  obtain ⟨q, hreach, _, hended, hstore, hstates⟩ := Pass.reaches_runAll replies s o.agent unset
  have hleft : ¬ q.store.Spent := by
    rw [hstore]
    unfold Store.Spent
    decide +kernel
  have hreports : (passes.1.reverse.map (·.state)).Perm (q.threads.filterMap Thread.state?) := by
    rw [hstates]
    exact passes.1.reverse_perm.map _
  have hjobs : passes.1.reverse.map Report.jobId = [2, 1] := by decide +kernel
  have hsuccess : (reportResult passes.1.reverse).success = true := by decide +kernel
  obtain ⟨_, _, inTurn⟩ := run_succeeds_iff o (.ofReplies replies) () .empty
  have hcomplete := (inTurn s assigned q hreach hended hleft _ hreports).mp hsuccess
  exact ⟨q, _, hreach, hended, hleft, hreports, hjobs, hsuccess, hcomplete⟩

/-- A volume is formatted when no number is left for it. Its job has no report, and so what is
reported counts as a success. -/
theorem lost_job_is_not_missed :
    let inventory : Inventory := {
      hosts := [⟨⟨1⟩, "mds1", none, none, .up, none, []⟩]
      targets := [⟨⟨2⟩, .mgs, none⟩]
      targetMounts := [⟨⟨3⟩, ⟨2⟩, ⟨1⟩, true, .configured, "/mnt", some ⟨4⟩⟩]
      luns := [⟨⟨4294967295⟩, none⟩]
      lunNodes := [⟨⟨4⟩, ⟨⟨1⟩, "/dev/sdb", 0, false⟩, none⟩] }
    let job : Job := .of 1 "Format MGS" none [.mkfs ⟨2⟩]
    let o : Options := ⟨.run, ["job.yaml"], "inventory.yaml", {}, "hydra-agent", 0⟩
    let formats : Gateway.Remote Unit := ⟨fun _ _ _ => ⟨.ok ⟨0, "\x7b\"uuid\": \"abc\"\x7d", ""⟩, [], ()⟩⟩
    let w := World.start (Store.ofInventory inventory) ((), .unset)
    (o.passes formats () [job] inventory).1 = [none] ∧
      (reportResult (Pass.runAll formats o.agent [⟨job, o.resumeFrom, .unset⟩] w).1).success = true := by
  decide +kernel

end FleetJobs
