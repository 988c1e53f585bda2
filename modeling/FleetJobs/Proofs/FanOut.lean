import FleetJobs.Proofs.CandidateOrder
import FleetJobs.Proofs.StepConduct
import FleetJobs.Proofs.StepSuccess
import Mathlib

/-! Starting and stopping a target: which hosts are tried, in which order, and how far.

Candidates stand in one order only: the host that was reached last comes first, and of
mounts whose hosts were reached at the same time the one with the lowest number
(`candidates_ordered`). They are tried in this order until one succeeds
(`tryEach_yields`). `fan_out_tries_candidates` puts both together: what is sent, and how
it ends. -/
namespace FleetJobs

open FleetJobs.Fleet
open FleetJobs.Gateway

/-! ### One host after another -/

section Each

variable {σ : Type} (o : Outside σ) (line : String)

/-- Sends a line to one host after another, whatever they reply. -/
def World.sendEach : List Host → World σ → List Sent × World σ
  | [], w => ([], w)
  | host :: rest, w =>
    let (reply, w) := w.send o host line
    let (later, w) := World.sendEach rest w
    (⟨host, line, reply⟩ :: later, w)

variable {o line} {w w' : World σ} {hosts : List Host} {sent : List Sent}

/-- What is sent goes to these hosts and into the log, and the last of it is noted. -/
theorem World.sendEach_eq (h : w.sendEach o line hosts = (sent, w')) :
    sent.map Sent.host = hosts ∧ (∀ c ∈ sent, c.line = line) ∧ w'.store = w.store ∧
      w'.sent = w.sent ++ sent ∧
      w'.lastCommand = ((sent.getLast?.map Sent.record) <|> w.lastCommand) := by
  induction hosts generalizing w sent with
  | nil =>
    cases h
    exact ⟨rfl, by simp, rfl, (List.append_nil _).symm, rfl⟩
  | cons host rest ih =>
    rcases hrest : (w.send o host line).2.sendEach o line rest with ⟨later, w₁⟩
    simp only [sendEach, hrest, Prod.mk.injEq] at h
    obtain ⟨rfl, rfl⟩ := h
    obtain ⟨hhosts, hlines, hstore, hsent, hlast⟩ := ih hrest
    refine ⟨?_, ?_, hstore, ?_, ?_⟩
    · rw [List.map_cons, hhosts]
    · exact List.forall_mem_cons.mpr ⟨rfl, hlines⟩
    · rw [hsent]
      exact List.append_assoc _ _ _
    · rw [hlast, List.getLast?_cons]
      cases later.getLast? <;> rfl

end Each

namespace Step

variable {σ : Type} {o : Outside σ} {w : World σ} {line : String}

theorem run_tryEach_cons (c : Candidate) (cs : List Candidate) :
    (tryEach line (c :: cs)).run o w =
      if Sent.succeeded ⟨c.host, line, (w.send o c.host line).1⟩ then
        (.done true, (w.send o c.host line).2)
      else (tryEach line cs).run o (w.send o c.host line).2 := by
  simp only [tryEach, Program.run]
  rcases (w.send o c.host line).1 with e | output
  · rfl
  · unfold Sent.succeeded CommandOutput.success
    dsimp only
    split <;> rfl

/-- **The hosts are tried in order until one succeeds.** -/
theorem tryEach_yields (o : Outside σ) (w : World σ) (line : String) (cs : List Candidate) :
    ∃ b sent untried w', (tryEach line cs).Yields o w b w' ∧
      cs.map Candidate.host = sent.map Sent.host ++ untried ∧
      w.sendEach o line (sent.map Sent.host) = (sent, w') ∧
      (b = true ∧ (∃ front last, sent = front ++ [last] ∧ (∀ c ∈ front, c.succeeded = false) ∧
          last.succeeded = true) ∨
        b = false ∧ untried = [] ∧ ∀ c ∈ sent, c.succeeded = false) := by
  induction cs generalizing w with
  | nil => exact ⟨false, [], [], w, rfl, rfl, rfl, .inr ⟨rfl, rfl, by simp⟩⟩
  | cons c cs ih =>
    unfold Program.Yields
    rw [run_tryEach_cons]
    cases hc : Sent.succeeded ⟨c.host, line, (w.send o c.host line).1⟩ with
    | true =>
      exact ⟨true, [_], cs.map Candidate.host, _, rfl, rfl, rfl, .inl ⟨rfl, [], _, rfl, by simp, hc⟩⟩
    | false =>
      obtain ⟨b, sent, untried, w', hyields, hhosts, hsent, hend⟩ := ih (w.send o c.host line).2
      refine ⟨b, ⟨c.host, line, (w.send o c.host line).1⟩ :: sent, untried, w', hyields, ?_, ?_, ?_⟩
      · rw [List.map_cons, hhosts]
        rfl
      · simp only [List.map_cons, World.sendEach, hsent]
      · refine hend.imp ?_ fun h => ⟨h.1, h.2.1, List.forall_mem_cons.mpr ⟨hc, h.2.2⟩⟩
        rintro ⟨hb, front, last, rfl, hfront, hlast⟩
        exact ⟨hb, _ :: front, last, rfl, List.forall_mem_cons.mpr ⟨hc, hfront⟩, hlast⟩

/-! ### Mounts and their hosts -/

theorem run_host_missing {id : HostId} (h : w.store.hosts.find? id.key = none) :
    (call (.host id)).run o w = (.failed (.failed (.store (.notFound .host id.text))), w) := by
  simp [call, Program.run, Store.handle, Store.fetch, Store.reading, Except.map, h]

/-- Mounts are paired with their hosts, or one of them has none. -/
theorem run_pairUp (o : Outside σ) (w : World σ) (mounts : List TargetMount) :
    (∃ pairs, (pairUp mounts).Yields o w pairs w ∧ pairs.map Candidate.mount = mounts ∧
      ∀ c ∈ pairs, w.store.hosts.find? c.mount.host.key = some c.host) ∨
    ∃ m ∈ mounts, w.store.hosts.find? m.host.key = none ∧
      (pairUp mounts).run o w = (.failed (.failed (.store (.notFound .host m.host.text))), w) := by
  induction mounts with
  | nil => exact .inl ⟨[], rfl, rfl, by simp⟩
  | cons m rest ih =>
    cases hm : w.store.hosts.find? m.host.key with
    | none =>
      exact .inr ⟨m, List.mem_cons_self, hm, Program.run_bind_of_failed (run_host_missing hm) _⟩
    | some host =>
      have hhost : (call (.host m.host)).Yields o w host w := yields_host.mpr ⟨hm, rfl⟩
      rcases ih with ⟨pairs, hpairs, hmounts, hhosts⟩ | ⟨m', hm', hmissing, hfailed⟩
      · refine .inl ⟨⟨m, host⟩ :: pairs, ?_, ?_, List.forall_mem_cons.mpr ⟨hm, hhosts⟩⟩
        · exact (hhost.run_bind _).trans (hpairs.run_bind _)
        · rw [List.map_cons, hmounts]
      · refine .inr ⟨m', .tail _ hm', hmissing, ?_⟩
        exact (hhost.run_bind _).trans (Program.run_bind_of_failed hfailed _)

/-- The pairs are all mounts with the hosts that they are on. -/
theorem mem_pairs {s : Store} {pairs : List Candidate} {mounts : List TargetMount}
    (hpaired : pairs.map Candidate.mount = mounts)
    (hhosts : ∀ c ∈ pairs, s.hosts.find? c.mount.host.key = some c.host) {c : Candidate} :
    c ∈ pairs ↔ c.mount ∈ mounts ∧ s.hosts.find? c.mount.host.key = some c.host := by
  constructor
  · exact fun hc => ⟨hpaired ▸ List.mem_map_of_mem hc, hhosts c hc⟩
  · rintro ⟨hm, hhost⟩
    rw [← hpaired] at hm
    obtain ⟨⟨mount, host⟩, hc, hmount⟩ := List.mem_map.mp hm
    obtain rfl : mount = c.mount := hmount
    have hhost' := hhosts _ hc
    rw [hhost] at hhost'
    obtain rfl := Option.some.inj hhost'
    exact hc

/-! ### What a fan-out does -/

section Target

variable {target : Target}

theorem run_runOnAnyMount_missing {e : Failure}
    (h : (pairUp (w.store.targetMounts.filter fun m => m.target == target.id)).run o w =
      (.failed e, w)) :
    (runOnAnyMount target line).run o w = (.failed e, w) := by
  have hmounts : (call (.targetMounts target.id)).Yields o w _ w := yields_targetMounts.mpr ⟨rfl, rfl⟩
  exact (hmounts.run_bind _).trans (Program.run_bind_of_failed h _)

theorem run_runOnAnyMount_paired {pairs : List Candidate} {b : Bool} {w' : World σ}
    (hpairs : (pairUp (w.store.targetMounts.filter fun m => m.target == target.id)).Yields o w pairs w)
    (htry : (tryEach line (candidates pairs)).Yields o w b w') :
    (runOnAnyMount target line).run o w =
      (if b then .done () else .failed (.clean (.noCandidate target.display line)), w') := by
  have hmounts : (call (.targetMounts target.id)).Yields o w _ w := yields_targetMounts.mpr ⟨rfl, rfl⟩
  refine (hmounts.run_bind _).trans ((hpairs.run_bind _).trans ((htry.run_bind _).trans ?_))
  cases b <;> rfl

/-- No record is changed, however it goes. -/
theorem store_runOnAnyMount (o : Outside σ) (w : World σ) (target : Target) (line : String) :
    ((runOnAnyMount target line).run o w).2.store = w.store := by
  rcases run_pairUp o w (w.store.targetMounts.filter fun m => m.target == target.id) with
    ⟨pairs, hpairs, _, _⟩ | ⟨m, _, _, hfailed⟩
  · obtain ⟨b, sent, _, w', hyields, _, hsent, _⟩ := tryEach_yields o w line (candidates pairs)
    rw [run_runOnAnyMount_paired hpairs hyields]
    exact (World.sendEach_eq hsent).2.2.1
  · rw [run_runOnAnyMount_missing hfailed]

end Target

end Step

open FleetJobs.Step

/-- **A fan-out tries the usable hosts of a target's mounts**, the one that was reached last
first, each with the same line, and stops at the first that succeeds. Without a host for
one of the mounts it does nothing. -/
theorem fan_out_tries_candidates {σ : Type} (o : Outside σ) (w : World σ) (target : Target)
    (line : String) :
    let mounts := w.store.targetMounts.filter fun m => m.target == target.id
    let run := (runOnAnyMount target line).run o w
    ((∃ m ∈ mounts, w.store.hosts.find? m.host.key = none) →
      ∃ m ∈ mounts, w.store.hosts.find? m.host.key = none ∧
        run = (.failed (.failed (.store (.notFound .host m.host.text))), w)) ∧
    ((∀ m ∈ mounts, ∃ host, w.store.hosts.find? m.host.key = some host) →
      ∃ cs : List Candidate,
        (∀ c, c ∈ cs ↔ c.mount ∈ mounts ∧ w.store.hosts.find? c.mount.host.key = some c.host ∧
          c.mount.state = .configured ∧ c.host.lnetState = .up) ∧
        cs.Pairwise Candidate.Before ∧
        ∃ sent untried, cs.map Candidate.host = sent.map Sent.host ++ untried ∧
          w.sendEach o line (sent.map Sent.host) = (sent, run.2) ∧
          ((∃ front last, sent = front ++ [last] ∧ (∀ c ∈ front, c.succeeded = false) ∧
              last.succeeded = true ∧ run.1 = .done ()) ∨
            untried = [] ∧ (∀ c ∈ sent, c.succeeded = false) ∧
              run.1 = .failed (.clean (.noCandidate target.display line))) ∧
          (∀ c ∈ sent, c.line = line) ∧ run.2.sent = w.sent ++ sent ∧
          run.2.lastCommand = ((sent.getLast?.map Sent.record) <|> w.lastCommand)) ∧
    run.2.store = w.store := by
  intro mounts run
  have hstore : run.2.store = w.store := store_runOnAnyMount o w target line
  rcases run_pairUp o w mounts with ⟨pairs, hpairs, hpaired, hhosts⟩ | ⟨m, hm, hmissing, hfailed⟩
  · obtain ⟨b, sent, untried, w', hyields, htried, hsent, hend⟩ :=
      tryEach_yields o w line (candidates pairs)
    obtain ⟨-, hlines, -, hlog, hlast⟩ := World.sendEach_eq hsent
    have hrun : run = _ := run_runOnAnyMount_paired hpairs hyields
    have hordered : (pairs.map Candidate.mount).Pairwise fun a b => a.id.key < b.id.key := by
      rw [hpaired]
      exact w.store.targetMounts.ascending.filter _
    rw [List.pairwise_map] at hordered
    rw [hrun] at hstore ⊢
    refine ⟨fun ⟨m, hm, hmissing⟩ => ?_, fun _ => ⟨candidates pairs, fun c => ?_,
      candidates_ordered hordered, sent, untried, htried, hsent, ?_, hlines, hlog, hlast⟩, hstore⟩
    · rw [← hpaired] at hm
      obtain ⟨c, hc, rfl⟩ := List.mem_map.mp hm
      rw [hhosts c hc] at hmissing
      cases hmissing
    · rw [mem_candidates, mem_pairs hpaired hhosts, and_assoc]
      simp [Candidate.isUsable]
    · rcases hend with ⟨rfl, front, last, hsplit, hfront, hsucceeded⟩ | ⟨rfl, hnone, hall⟩
      · exact .inl ⟨front, last, hsplit, hfront, hsucceeded, rfl⟩
      · exact .inr ⟨hnone, hall, rfl⟩
  · refine ⟨fun _ => ⟨m, hm, hmissing, run_runOnAnyMount_missing hfailed⟩, fun h => ?_, hstore⟩
    obtain ⟨host, hhost⟩ := h m hm
    rw [hmissing] at hhost
    cases hhost

/-- The host that was reached last fails, the next one succeeds, and the one that never was
reached is not tried. -/
theorem fan_out_passes_over_failure :
    let host (id : UInt32) (lastSuccess : Option Calendar.Instant) : Host :=
      ⟨⟨id⟩, "oss", none, none, .up, lastSuccess, []⟩
    let i : Inventory :=
      { hosts := [host 1 none, host 2 (Calendar.Instant.read "2024-01-01T00:00:00Z").toOption,
          host 3 (Calendar.Instant.read "2024-06-01T00:00:00Z").toOption]
        targetMounts := [⟨⟨5⟩, ⟨4⟩, ⟨1⟩, true, .configured, "/mnt", none⟩,
          ⟨⟨6⟩, ⟨4⟩, ⟨2⟩, false, .configured, "/mnt", none⟩,
          ⟨⟨7⟩, ⟨4⟩, ⟨3⟩, false, .configured, "/mnt", none⟩] }
    let target : Target := ⟨⟨4⟩, .mgs, some "MGS"⟩
    let o : Outside Unit :=
      { send := fun _ h _ => (.ok ⟨if h.id = ⟨3⟩ then 1 else 0, "", ""⟩, ())
        look := fun _ => (.unset, ()) }
    let w := World.start (Store.ofInventory i) ()
    let run := (runOnAnyMount target "mount").run o w
    (∀ m ∈ w.store.targetMounts.filter fun m => m.target == target.id,
        ∃ h, w.store.hosts.find? m.host.key = some h) ∧
      ∃ cs : List Candidate, cs.Pairwise Candidate.Before ∧
        ∃ sent untried, cs.map Candidate.host = sent.map Sent.host ++ untried ∧
          run.2.sent = w.sent ++ sent ∧ run.2.sent.map (fun c => c.host.id) = [⟨3⟩, ⟨2⟩] ∧
          run.1 = .done () ∧ run.2.store = w.store := by
  intro host i target o w run
  have hosts : ∀ m ∈ w.store.targetMounts.filter fun m => m.target == target.id,
      (w.store.hosts.find? m.host.key).isSome = true := by decide +kernel
  have found : ∀ m ∈ w.store.targetMounts.filter fun m => m.target == target.id,
      ∃ h, w.store.hosts.find? m.host.key = some h :=
    fun m hm => Option.isSome_iff_exists.mp (hosts m hm)
  have hrun : run.1 = .done () ∧ run.2.sent.map (fun c => c.host.id) = [⟨3⟩, ⟨2⟩] := by
    simp only [run, w, o, i, host, target]
    cbv
  obtain ⟨_, htried, hstore⟩ := fan_out_tries_candidates o w target "mount"
  obtain ⟨cs, _, hordered, sent, untried, hhosts, _, _, _, hsent, _⟩ := htried found
  exact ⟨found, cs, hordered, sent, untried, hhosts, hsent, hrun.2, hrun.1, hstore⟩

end FleetJobs
