import FleetJobs.Proofs.Instants
import FleetJobs.Step.Candidates
import Mathlib

/-! The order in which candidates stand.

A host that was reached at a later instant comes first, one that never was comes last, and of
pairs that are equal in this the one that is listed first. Since a list may hold one pair at
several places, an order is told by places (`Lineup`). There is one only (`Lineup.unique`), and it
is the one that candidates stand in: `candidates_stand_in_one_order`. Of mounts in order of their
numbers, equally fresh ones stay in order of these (`candidates_ordered`). -/
namespace FleetJobs

open FleetJobs.Fleet

/-- The host was reached at a later instant than the other, or at all when the other never was. -/
def Fleet.Host.FresherThan (a b : Host) : Prop :=
  match a.lastSuccess, b.lastSuccess with
  | some t, some u => u.Earlier t
  | some _, none => True
  | none, _ => False

namespace Step

namespace Candidate

/-- When the host was last reached; a host that never was comes below all others. -/
def freshness (c : Candidate) : WithBot Int :=
  match c.host.lastSuccess with
  | some t => (t.rank : WithBot Int)
  | none => ⊥

/-- The candidate is tried before the other. -/
def Before (a b : Candidate) : Prop :=
  b.freshness < a.freshness ∨ a.freshness = b.freshness ∧ a.mount.id.key < b.mount.id.key

variable {a b c : Candidate}

theorem isUsable_iff :
    c.isUsable = true ↔ c.mount.state = .configured ∧ c.host.lnetState = .up := by
  simp [isUsable]

theorem isUsable_eq (c : Candidate) :
    c.isUsable = decide (c.mount.state = .configured ∧ c.host.lnetState = .up) := by
  rw [Bool.eq_iff_iff, isUsable_iff, decide_eq_true_iff]

theorem notOlder_iff : a.notOlder b = true ↔ b.freshness ≤ a.freshness := by
  unfold notOlder freshness
  cases a.host.lastSuccess <;> cases b.host.lastSuccess <;> simp

theorem notOlder_trans (a b c : Candidate) (hab : a.notOlder b = true) (hbc : b.notOlder c = true) :
    a.notOlder c = true :=
  notOlder_iff.mpr ((notOlder_iff.mp hbc).trans (notOlder_iff.mp hab))

theorem notOlder_total (a b : Candidate) : (a.notOlder b || b.notOlder a) = true := by
  rw [Bool.or_eq_true, notOlder_iff, notOlder_iff]
  exact le_total _ _

theorem freshness_lt : b.freshness < a.freshness ↔ a.host.FresherThan b.host := by
  unfold freshness Host.FresherThan
  cases a.host.lastSuccess <;> cases b.host.lastSuccess <;>
    simp [Calendar.Instant.rank_lt_rank]

theorem freshness_inj : a.freshness = b.freshness ↔ a.host.lastSuccess = b.host.lastSuccess := by
  unfold freshness
  cases a.host.lastSuccess <;> cases b.host.lastSuccess <;> simp [Calendar.Instant.rank_inj]

theorem freshness_le : b.freshness ≤ a.freshness ↔ ¬ b.host.FresherThan a.host := by
  rw [← freshness_lt, not_lt]

theorem notOlder_iff_not_fresherThan : a.notOlder b = true ↔ ¬ b.host.FresherThan a.host :=
  notOlder_iff.trans freshness_le

end Candidate

/-! ### Sorting keeps equals in order -/

/-- Two records of a list without repetition stand in one order only. -/
theorem not_sublist_swap {α : Type} {l : List α} (h : l.Nodup) {a b : α} (hab : [a, b].Sublist l) :
    ¬ [b, a].Sublist l := by
  induction l with
  | nil => cases hab
  | cons x rest ih =>
    obtain ⟨hx, hrest⟩ := List.nodup_cons.mp h
    intro hba
    cases hab with
    | cons _ hab =>
      cases hba with
      | cons _ hba => exact ih hrest hab hba
      | cons_cons _ _ => exact hx (hab.subset (by simp))
    | cons_cons _ hb =>
      cases hba with
      | cons _ hba => exact hx (hba.subset (by simp))
      | cons_cons _ _ => exact hx (hb.subset (by simp))

/-- In a list in order of some numbers the record with the lower one comes first. -/
theorem sublist_of_lt {α : Type} {l : List α} {f : α → Nat} (h : l.Pairwise fun a b => f a < f b)
    {a b : α} (ha : a ∈ l) (hb : b ∈ l) (hlt : f a < f b) : [a, b].Sublist l := by
  obtain ⟨before, after, rfl⟩ := List.append_of_mem ha
  have hafter : b ∈ after := by
    rcases List.mem_append.mp hb with hb | hb
    · have hba := (List.pairwise_append.mp h).2.2 b hb a List.mem_cons_self
      omega
    · rcases List.mem_cons.mp hb with rfl | hb
      · omega
      · exact hb
  exact ((List.singleton_sublist.mpr hafter).cons_cons a).trans (List.sublist_append_right _ _)

/-- Of records in order of some numbers, those that are equal for the sort stay in this order. -/
theorem pairwise_mergeSort_of_ascending {α : Type} {le : α → α → Bool} {f : α → Nat}
    (trans : ∀ a b c, le a b = true → le b c = true → le a c = true)
    (total : ∀ a b, (le a b || le b a) = true) {l : List α} (h : l.Pairwise fun a b => f a < f b) :
    (l.mergeSort le).Pairwise fun a b => le a b = true ∧ (le b a = true → f a < f b) := by
  have hperm := List.mergeSort_perm l le
  have hdistinct : (l.mergeSort le).Pairwise fun a b => f a ≠ f b :=
    (hperm.pairwise_iff fun hne => hne.symm).mpr (h.imp Nat.ne_of_lt)
  have hnodup : (l.mergeSort le).Nodup := hdistinct.imp fun hne he => hne (congrArg f he)
  have hsorted := List.pairwise_mergeSort trans total l
  rw [List.pairwise_iff_forall_sublist] at hsorted hdistinct ⊢
  intro a b hab
  refine ⟨hsorted hab, fun hle => ?_⟩
  rcases Nat.lt_or_gt_of_ne (hdistinct hab) with hlt | hlt
  · exact hlt
  · -- sorting swaps no two that are equal for it
    have ha := hperm.mem_iff.mp (hab.subset List.mem_cons_self)
    have hb := hperm.mem_iff.mp (hab.subset (.tail _ List.mem_cons_self))
    have hba := List.pair_sublist_mergeSort trans total hle (sublist_of_lt h hb ha hlt)
    exact absurd hba (not_sublist_swap hnodup hab)

/-! ### The candidates of a list -/

section

variable {pairs : List Candidate} {c : Candidate}

theorem mem_candidates : c ∈ candidates pairs ↔ c ∈ pairs ∧ c.isUsable = true := by
  rw [candidates, List.mem_mergeSort, List.mem_filter]

theorem candidates_perm (pairs : List Candidate) :
    (candidates pairs).Perm (pairs.filter Candidate.isUsable) :=
  List.mergeSort_perm _ _

theorem candidates_descending (pairs : List Candidate) :
    (candidates pairs).Pairwise fun a b => a.notOlder b = true :=
  List.pairwise_mergeSort Candidate.notOlder_trans Candidate.notOlder_total _

/-- **Of mounts in order of their numbers, candidates are in order of freshness**, and
equally fresh ones still in order of their numbers. -/
theorem candidates_ordered (h : pairs.Pairwise fun a b => a.mount.id.key < b.mount.id.key) :
    (candidates pairs).Pairwise Candidate.Before := by
  have hsorted := pairwise_mergeSort_of_ascending Candidate.notOlder_trans
    Candidate.notOlder_total (h.filter Candidate.isUsable)
  refine hsorted.imp fun ⟨hab, htie⟩ => ?_
  rcases (Candidate.notOlder_iff.mp hab).lt_or_eq with hlt | heq
  · exact .inl hlt
  · exact .inr ⟨heq.symm, htie (Candidate.notOlder_iff.mpr heq.ge)⟩

/-- All candidates are usable and in order already. -/
theorem candidates_candidates (pairs : List Candidate) :
    candidates (candidates pairs) = candidates pairs := by
  have husable : (candidates pairs).filter Candidate.isUsable = candidates pairs :=
    List.filter_eq_self.mpr fun _ hc => (mem_candidates.mp hc).2
  rw [candidates, husable, List.mergeSort_of_pairwise (candidates_descending pairs)]

/-- What is left is the same if as many of every usable pair are left. -/
theorem filter_isUsable_of_count {fewer : List Candidate} (h : fewer.Sublist pairs)
    (hcount : ∀ c, c.isUsable = true → fewer.count c = pairs.count c) :
    fewer.filter Candidate.isUsable = pairs.filter Candidate.isUsable := by
  have hperm : (fewer.filter Candidate.isUsable).Perm (pairs.filter Candidate.isUsable) := by
    rw [List.perm_iff_count]
    intro c
    cases hc : c.isUsable with
    | true => rw [List.count_filter hc, List.count_filter hc, hcount c hc]
    | false =>
      have hnone : ∀ l : List Candidate, (l.filter Candidate.isUsable).count c = 0 := by
        intro l
        refine List.count_eq_zero.mpr fun hmem => ?_
        rw [(List.mem_filter.mp hmem).2] at hc
        cases hc
      rw [hnone, hnone]
  exact (h.filter _).eq_of_length hperm.length_eq

end

/-! ### Places in a line -/

/-- An order for the usable pairs of a list. -/
@[ext]
structure Lineup (pairs : List Candidate) where
  /-- Which place of the list comes first, which second, and so on. -/
  places : List (Fin pairs.length)
  once : places.Nodup
  usable : ∀ i, i ∈ places ↔
    pairs[i].mount.state = .configured ∧ pairs[i].host.lnetState = .up
  /-- None was reached at a later instant than one before it. -/
  descending : places.Pairwise fun i j => ¬ pairs[j].host.FresherThan pairs[i].host
  /-- Those that were reached at the same instant, or never, are in the order of the list. -/
  stable : places.Pairwise fun i j =>
    pairs[i].host.lastSuccess = pairs[j].host.lastSuccess → i < j

namespace Lineup

variable {pairs : List Candidate}

/-- The pairs in this order. -/
def listed (l : Lineup pairs) : List Candidate := l.places.map pairs.get

/-- There is no other order. -/
theorem unique (l l' : Lineup pairs) : l = l' := by
  have hperm : l.places.Perm l'.places :=
    (List.perm_ext_iff_of_nodup l.once l'.once).mpr fun i => (l.usable i).trans (l'.usable i).symm
  refine Lineup.ext (List.Perm.eq_of_pairwise ?_ (l.descending.and l.stable)
    (l'.descending.and l'.stable) hperm)
  rintro i j - - ⟨hji, hij⟩ ⟨hij', hji'⟩
  -- neither is fresher, so each would have to stand before the other
  have heq : pairs[i].host.lastSuccess = pairs[j].host.lastSuccess :=
    Candidate.freshness_inj.mp
      (le_antisymm (Candidate.freshness_le.mpr hij') (Candidate.freshness_le.mpr hji))
  exact absurd (hij heq) (lt_asymm (hji' heq.symm))

/-- The places of the usable pairs, sorted as candidates are. -/
def sortedPlaces (pairs : List Candidate) : List (Fin pairs.length) :=
  ((List.finRange pairs.length).filter (Candidate.isUsable ∘ pairs.get)).mergeSort fun i j =>
    (pairs.get i).notOlder (pairs.get j)

theorem mem_sortedPlaces {i : Fin pairs.length} :
    i ∈ sortedPlaces pairs ↔ pairs[i].isUsable = true := by
  rw [sortedPlaces, List.mem_mergeSort, List.mem_filter]
  exact and_iff_right (List.mem_finRange i)

theorem sortedPlaces_ordered (pairs : List Candidate) :
    (sortedPlaces pairs).Pairwise fun i j => pairs[i].notOlder pairs[j] = true ∧
      (pairs[j].notOlder pairs[i] = true → i < j) := by
  have hascending : (List.finRange pairs.length).Pairwise fun i j => i.val < j.val :=
    (List.sortedLT_finRange pairs.length).pairwise
  exact pairwise_mergeSort_of_ascending
    (fun i j k => Candidate.notOlder_trans (pairs.get i) (pairs.get j) (pairs.get k))
    (fun i j => Candidate.notOlder_total (pairs.get i) (pairs.get j)) (hascending.filter _)

theorem map_sortedPlaces (pairs : List Candidate) :
    (sortedPlaces pairs).map pairs.get = candidates pairs := by
  rw [sortedPlaces, List.map_mergeSort (s := Candidate.notOlder) fun _ _ _ _ => rfl,
    ← List.filter_map, List.map_get_finRange, candidates]

/-- The order in which candidates stand. -/
def sorted (pairs : List Candidate) : Lineup pairs where
  places := sortedPlaces pairs
  once := (List.mergeSort_perm _ _).nodup_iff.mpr ((List.nodup_finRange _).filter _)
  usable _ := mem_sortedPlaces.trans Candidate.isUsable_iff
  descending := (sortedPlaces_ordered pairs).imp fun h =>
    Candidate.notOlder_iff_not_fresherThan.mp h.1
  stable := (sortedPlaces_ordered pairs).imp fun h heq =>
    h.2 (Candidate.notOlder_iff.mpr (Candidate.freshness_inj.mpr heq).le)

end Lineup

end Step

open FleetJobs.Step

/-- **Candidates stand in one order only**: they are the usable pairs, never is one fresher than
one before it, and equally fresh ones stand as they are listed. To order them again changes
nothing, nor does it matter which pairs that are not usable are listed beside them. -/
theorem candidates_stand_in_one_order (pairs : List Candidate) :
    (candidates pairs).Perm (pairs.filter fun c =>
      c.mount.state = .configured ∧ c.host.lnetState = .up) ∧
    (candidates pairs).Pairwise (fun a b => ¬ b.host.FresherThan a.host) ∧
    (∃ l : Lineup pairs, l.listed = candidates pairs ∧ ∀ other : Lineup pairs, other = l) ∧
    candidates (candidates pairs) = candidates pairs ∧
    ∀ fewer : List Candidate, fewer.Sublist pairs →
      (∀ c, c.mount.state = .configured → c.host.lnetState = .up →
        fewer.count c = pairs.count c) →
      candidates fewer = candidates pairs := by
  refine ⟨?_, ?_, ?_, candidates_candidates pairs, fun fewer hsub hcount => ?_⟩
  · simp only [← Candidate.isUsable_eq]
    exact candidates_perm pairs
  · exact (candidates_descending pairs).imp Candidate.notOlder_iff_not_fresherThan.mp
  · exact ⟨Lineup.sorted pairs, Lineup.map_sortedPlaces pairs, fun other => other.unique _⟩
  · have husable := filter_isUsable_of_count hsub fun c hc =>
      hcount c (Candidate.isUsable_iff.mp hc).1 (Candidate.isUsable_iff.mp hc).2
    rw [candidates, husable, candidates]

/-- Two hosts were reached at one instant, told in two time zones; one of them is listed twice. -/
theorem tied_candidates_stay_as_listed :
    let host (id : UInt32) (at? : Option Calendar.Instant) : Host :=
      ⟨⟨id⟩, "oss", none, none, .up, at?, []⟩
    let mount (id : UInt32) (state : MountState) : TargetMount :=
      ⟨⟨id⟩, ⟨9⟩, ⟨id⟩, false, state, "/mnt", none⟩
    let never : Candidate := ⟨mount 1 .configured, host 1 none⟩
    let here : Candidate :=
      ⟨mount 2 .configured, host 2 (Calendar.Instant.read "2024-01-01T12:00:00Z").toOption⟩
    let there : Candidate :=
      ⟨mount 3 .configured, host 3 (Calendar.Instant.read "2024-01-02T01:30:00+13:30").toOption⟩
    let unused : Candidate :=
      ⟨mount 4 .unconfigured, host 4 (Calendar.Instant.read "2024-06-01T00:00:00Z").toOption⟩
    let pairs := [never, here, unused, there, here]
    let fewer := [never, here, there, here]
    fewer.Sublist pairs ∧
      (∀ c, c.mount.state = .configured → c.host.lnetState = .up →
        fewer.count c = pairs.count c) ∧
      candidates fewer = candidates pairs ∧ candidates pairs = [here, there, here, never] := by
  intro host mount never here there unused pairs fewer
  have hsub : fewer.Sublist pairs :=
    ((List.sublist_cons_self unused [there, here]).cons_cons here).cons_cons never
  have hcount : ∀ c, c.mount.state = .configured → c.host.lnetState = .up →
      fewer.count c = pairs.count c := by
    intro c hstate _
    have hne : unused ≠ c := fun h => by
      rw [← h] at hstate
      cases hstate
    simp only [fewer, pairs, List.count_cons, beq_false_of_ne hne]
    rfl
  obtain ⟨-, -, -, -, hfewer⟩ := candidates_stand_in_one_order pairs
  refine ⟨hsub, hcount, hfewer fewer hsub hcount, ?_⟩
  simp only [pairs, never, here, there, unused, mount, host]
  cbv

end FleetJobs
