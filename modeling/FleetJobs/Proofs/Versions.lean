import FleetJobs.Proofs.StepCalls
import FleetJobs.Proofs.StepTerms
import FleetJobs.Proofs.Tables

/-! The version that is recorded for a management target, while jobs take turns.

A step that records a version first looks up what is recorded, and unless that is higher
writes its own. These are two calls, and nothing is locked: in between another job may
write a higher version, which the step then overwrites (`version_overwritten_in_between`).
It is for those who run jobs not to run two at once that change the same target.

What a step writes is never lower than what it has found, so the version stays at or above
that from the start. If moreover one step at a time stands between its lookup and its
write, what it has found is still what is recorded; then no write lowers the version, and
once all steps have succeeded it is the highest (`version_rises_apart`). The proof keeps
account of what each program knows of the version (`Program.Careful`): what its last turn
has found, and a version that it knows to have been recorded. A turn of a thread changes
this account and the version in one of three ways (`View.Turn`). -/
namespace FleetJobs

open FleetJobs.Fleet

/-- Of two versions the higher is their `max`. -/
instance lawfulOrderMaxUInt64 : Std.LawfulOrderLeftLeaningMax UInt64 where
  max_eq_left a b h := by
    show (if a ≤ b then b else a) = a
    split
    · exact UInt64.le_antisymm h ‹_›
    · rfl
  max_eq_right a b h := if_pos (UInt64.le_of_lt (UInt64.not_le.mp h))

variable {ε ε' α β : Type} {m : TargetId} {V : UInt64 → Prop}

/-- In a list of which no two satisfy `P`, the one that does has one place. -/
theorem place_unique {P : α → Prop} {l : List α} (h : l.Pairwise fun a b => ¬ (P a ∧ P b))
    {i j : Nat} {a b : α} (hi : l[i]? = some a) (hj : l[j]? = some b) (ha : P a) (hb : P b) :
    i = j := by
  obtain ⟨hi', rfl⟩ := List.getElem?_eq_some_iff.mp hi
  obtain ⟨hj', rfl⟩ := List.getElem?_eq_some_iff.mp hj
  rcases Nat.lt_trichotomy i j with hlt | heq | hgt
  · exact absurd ⟨ha, hb⟩ (List.pairwise_iff_getElem.mp h i j hi' hj' hlt)
  · exact heq
  · exact absurd ⟨hb, ha⟩ (List.pairwise_iff_getElem.mp h j i hj' hi' hgt)

/-! ### The store -/

namespace Store

variable {s s' : Store} {c : Call} {v : UInt64}

/-- The version that is recorded for a target, if the target has a record. -/
def versionApplied? (s : Store) (m : TargetId) : Option UInt64 :=
  (s.mgs.find? m.key).map (·.versionApplied)

theorem versionApplied?_found {r : Mgs} (h : s.handle (.mgs m) = .ok (r, s')) :
    s.versionApplied? m = some r.versionApplied := by
  obtain ⟨hr, _⟩ := find?_of_reading h
  rw [versionApplied?, hr]
  rfl

theorem versionApplied?_recorded {a : Unit}
    (h : s.handle (.setVersionApplied m v) = .ok (a, s')) :
    s'.versionApplied? m = some v := by
  obtain ⟨r, hr, rfl⟩ := setVersionApplied_eq_ok.mp h
  have hkey : r.target.key = m.key := Table.key_of_find? hr
  have hfound : (s.mgs.insert { r with versionApplied := v }).find? m.key = some _ :=
    Table.find?_insert_of_eq _ hkey
  rw [versionApplied?, hfound]
  rfl

/-- No other call changes it. -/
theorem versionApplied?_other {a : c.Answer} (h : s.handle c = .ok (a, s'))
    (hc : ∀ v, c ≠ .setVersionApplied m v) : s'.versionApplied? m = s.versionApplied? m := by
  cases effect_of_handle h with
  | @versionSet m' v r hr =>
    have hkey : r.target.key = m'.key := Table.key_of_find? hr
    have hne : r.target.key ≠ m.key := fun he =>
      hc v (by rw [Id.key_injective (hkey.symm.trans he)])
    exact congrArg _ (Table.find?_insert_of_ne _ hne)
  | _ => rfl

end Store

/-! ### What a program knows of a version -/

/-- What a program was told of the version that is recorded for a target. -/
structure View where
  /-- The version, if its last turn was to look it up. -/
  latest : Option UInt64
  /-- A version that it has found or written itself. -/
  floor : UInt64

namespace View

/-- Nothing is known but what once was recorded. -/
def forget (k : View) : View := { k with latest := none }

/-- What is known after a call was answered. -/
def told (m : TargetId) (k : View) : (c : Store.Call) → Except Store.Refusal c.Answer → View
  | .mgs t, .ok r =>
    if t = m then ⟨some r.versionApplied, max k.floor r.versionApplied⟩ else k.forget
  | .setVersionApplied t v, .ok _ => if t = m then ⟨none, max k.floor v⟩ else k.forget
  | _, _ => k.forget

/-- A version may be recorded for the target if it is as `V` says and not lower than the one
that the program has just found. -/
def Permits (m : TargetId) (V : UInt64 → Prop) (k : View) (c : Store.Call) : Prop :=
  ∀ v, c = .setVersionApplied m v → V v ∧ ∃ found, k.latest = some found ∧ found ≤ v

theorem told_error (k : View) (c : Store.Call) (r : Store.Refusal) :
    k.told m c (.error r) = k.forget := by
  cases c <;> rfl

theorem told_other (k : View) {c : Store.Call} {r : Except Store.Refusal c.Answer}
    (hlookup : c ≠ .mgs m) (hwrite : ∀ v, c ≠ .setVersionApplied m v) :
    k.told m c r = k.forget := by
  unfold told
  split
  · exact if_neg fun ht => hlookup (by rw [ht])
  · exact if_neg fun ht => hwrite _ (by rw [ht])
  · rfl

theorem floor_le_told (k : View) (c : Store.Call) (r : Except Store.Refusal c.Answer) :
    k.floor ≤ (k.told m c r).floor := by
  unfold told
  split
  · split
    · exact Std.left_le_max
    · exact UInt64.le_refl _
  · split
    · exact Std.left_le_max
    · exact UInt64.le_refl _
  · exact UInt64.le_refl _

end View

namespace Program

/-- The program records only permitted versions for the target, given what it knows, and its
result is as `Q` says of what it then knows to have been recorded. -/
def Careful (m : TargetId) (V : UInt64 → Prop) (Q : UInt64 → α → Prop) : View → Program ε α → Prop
  | k, done a => Q k.floor a
  | _, fail _ => True
  | k, ask c next => k.Permits m V c ∧ ∀ r, (next r).Careful m V Q (k.told m c r)
  | k, send _ _ next => ∀ reply, (next reply).Careful m V Q k.forget
  | k, look next => ∀ flags, (next flags).Careful m V Q k.forget

namespace Careful

variable {Q : UInt64 → α → Prop} {R : UInt64 → β → Prop} {k : View}

/-- What comes second starts from what is known after the first. -/
theorem bind {p : Program ε α} {f : α → Program ε β} (hp : p.Careful m V Q k)
    (hf : ∀ a k', k.floor ≤ k'.floor → Q k'.floor a → (f a).Careful m V R k') :
    (p.bind f).Careful m V R k := by
  induction p generalizing k with
  | done a => exact hf a k (UInt64.le_refl _) hp
  | fail => trivial
  | ask c next ih =>
    exact ⟨hp.1, fun r => ih r (hp.2 r) fun a k' hk =>
      hf a k' (UInt64.le_trans (k.floor_le_told c r) hk)⟩
  | send host line next ih => exact fun reply => ih reply (hp reply) hf
  | look next ih => exact fun flags => ih flags (hp flags) hf

theorem attempt {p : Program ε α} (hp : p.Careful m V Q k) :
    (p.attempt : Program ε' (Except ε α)).Careful m V
      (fun floor r => ∀ a, r = .ok a → Q floor a) k := by
  induction p generalizing k with
  | done a =>
    intro a' ha
    cases ha
    exact hp
  | fail =>
    intro a ha
    cases ha
  | ask c next ih => exact ⟨hp.1, fun r => ih r (hp.2 r)⟩
  | send host line next ih => exact fun reply => ih reply (hp reply)
  | look next ih => exact fun flags => ih flags (hp flags)

/-- A program that records nothing for the target has no care to take. -/
theorem of_asks {p : Program ε α} (hp : p.Asks fun c => ∀ v, c ≠ .setVersionApplied m v)
    (hQ : ∀ floor a, Q floor a) : p.Careful m V Q k := by
  induction p generalizing k with
  | done a => exact hQ _ a
  | fail => trivial
  | ask c next ih => exact ⟨fun v hc => absurd hc (hp.1 v), fun r => ih r (hp.2 r)⟩
  | send host line next ih => exact fun reply => ih reply (hp reply)
  | look next ih => exact fun flags => ih flags (hp flags)

end Careful

/-- Whatever else the program is told, it comes to a result that is as `P` says. -/
def Always (P : α → Prop) : Program ε α → Prop
  | done a => P a
  | fail _ => False
  | ask _ next => ∀ r, (next r).Always P
  | send _ _ next => ∀ reply, (next reply).Always P
  | look next => ∀ flags, (next flags).Always P

/-- What holds of every result holds of one to which the program comes without learning
more of the version. -/
theorem Careful.always {Q : UInt64 → α → Prop} {P : α → Prop} {p : Program ε α} {k : View}
    (hp : p.Careful m V Q k) (h : p.Always P) : ∃ a, P a ∧ Q k.floor a := by
  induction p generalizing k with
  | done a => exact ⟨a, h, hp⟩
  | fail => exact h.elim
  | ask c next ih =>
    have refusal : Store.Refusal := .conflict (.told "")
    have hnext := hp.2 (.error refusal)
    rw [View.told_error] at hnext
    exact ih (k := k.forget) _ hnext (h _)
  | send host line next ih => exact ih (k := k.forget) (.ok ⟨0, "", ""⟩) (hp _) (h _)
  | look next ih => exact ih (k := k.forget) .unset (hp _) (h _)

end Program

/-! ### Steps and passes -/

/-- The version that a step of the kind records for the target. -/
def Step.StepKind.version? (m : TargetId) : StepKind → Option UInt64
  | confParamVersion t v => if t = m then some v else none
  | _ => none

theorem Step.StepKind.version?_eq_some {k : StepKind} {v : UInt64} :
    k.version? m = some v ↔ k = .confParamVersion m v := by
  cases k <;> simp [version?]

theorem Step.careful_recordVersion {v : UInt64} (hV : V v) (k : View) :
    (recordVersion m v).Careful m V (fun floor _ => v ≤ floor) k := by
  refine ⟨fun _ hc => (nomatch hc), fun r => ?_⟩
  rcases r with e | r
  · trivial
  · show Program.Careful m V _ (k.told m (.mgs m) (.ok r)) (if v < r.versionApplied then _ else _)
    rw [View.told, if_pos rfl]
    split
    · rename_i hlt
      exact UInt64.le_trans (UInt64.le_of_lt hlt) Std.right_le_max
    · rename_i hle
      refine ⟨fun v' hc => ?_, fun r' => ?_⟩
      · obtain ⟨_, rfl⟩ := Store.Call.setVersionApplied.inj hc
        exact ⟨hV, _, rfl, UInt64.not_lt.mp hle⟩
      · cases r' with
        | error => trivial
        | ok =>
          show v ≤ (View.told m _ (.setVersionApplied m v) _).floor
          rw [View.told, if_pos rfl]
          exact Std.right_le_max

/-- A step is careful, and once it has succeeded, the version that it was to record or a
higher one is known to have been recorded. -/
theorem Step.careful (agent : String) (s : Step) (k : View)
    (hV : ∀ v, s.kind.version? m = some v → V v) :
    (s.program agent).Careful m V
      (fun floor _ => ∀ v, s.kind.version? m = some v → v ≤ floor) k := by
  rcases hkind : s.kind.version? m with _ | v
  · refine .of_asks ((asks_program agent s.kind).mono fun c hc v h => ?_) fun _ _ _ h => nomatch h
    subst h
    rcases hc with hread | hwrite
    · cases hread
    · have hwrites : s.kind = .confParamVersion m v := by
        revert hwrite
        cases s.kind <;> simp [StepKind.Writes, eq_comm]
      rw [StepKind.version?_eq_some.mpr hwrites] at hkind
      cases hkind
  · have hprogram : s.program agent = recordVersion m v := by
      rw [Step.program, StepKind.version?_eq_some.mp hkind]
      rfl
    simp only [hprogram, Option.some.injEq, forall_eq']
    exact careful_recordVersion (hV v hkind) k

namespace Pass

open FleetJobs.Step (Outcome)

/-- The step of the number was run, with success. -/
def Verdict.Succeeded (v : Verdict) (i : Nat) : Prop :=
  ∃ r ∈ v.steps, r.index = i ∧ r.outcome = .succeeded

/-- The versions that steps from `i` on have recorded for the target are no higher. -/
def Tallies (m : TargetId) (i : Nat) (steps : List Step) (floor : UInt64) (v : Verdict) : Prop :=
  ∀ n s version, steps[n]? = some s → s.kind.version? m = some version →
    v.Succeeded (i + n) → version ≤ floor

theorem Verdict.Halts.not_succeeded {steps : List Step} {v : Verdict} (h : v.Halts steps) (n : Nat) :
    ¬ v.Succeeded n := fun ⟨r, hr, _, houtcome⟩ => h.unsucceeded r hr houtcome

theorem tallies_after {i : Nat} {s : Step} {transition : Option Job.Transition} {steps : List Step}
    {v : Verdict} {floor : UInt64}
    (first : ∀ version, s.kind.version? m = some version → version ≤ floor)
    (rest : Tallies m (i + 1) steps floor v) :
    Tallies m i (s :: steps) floor (v.after i s transition) := by
  intro n s' version hs hkind ⟨r, hr, hindex, houtcome⟩
  cases n with
  | zero =>
    cases hs
    exact first version hkind
  | succ n =>
    refine rest n s' version hs hkind ⟨r, ?_, by omega, houtcome⟩
    rcases List.mem_cons.mp hr with rfl | hr
    · have hindex : i = i + (n + 1) := hindex
      omega
    · exact hr

theorem careful_stepsProgram (agent : String) (transition : Option Job.Transition)
    (steps : List Step) (hV : ∀ s ∈ steps, ∀ v, s.kind.version? m = some v → V v) (i : Nat)
    (k : View) : (stepsProgram agent transition i steps).Careful m V (Tallies m i steps) k := by
  induction steps generalizing i k with
  | nil => exact fun n s version hs => nomatch hs
  | cons s steps ih =>
    obtain ⟨hs, hsteps⟩ := List.forall_mem_cons.mp hV
    intro flags
    dsimp only
    split
    · exact fun n s version _ _ h => absurd h ((Verdict.halts_aborted _ _ _).not_succeeded _)
    · split
      · exact fun n s version _ _ h => absurd h ((Verdict.halts_paused _ _ _).not_succeeded _)
      · refine (s.careful agent _ hs).attempt.bind fun r k' _ hr => ?_
        rcases r with e | ⟨⟩
        · exact fun n s version _ _ h => absurd h ((Verdict.halts_failedAt _ _ _ _).not_succeeded _)
        · refine (ih hsteps (i + 1) k').bind fun v k'' hk hv => ?_
          exact tallies_after (fun version h => UInt64.le_trans (hr () rfl version h) hk) hv

/-- The versions that the steps of a pass record for the target, if they all succeed. -/
def Assignment.versions (a : Assignment) (m : TargetId) : List UInt64 :=
  (a.job.steps.drop a.start).filterMap fun s => s.kind.version? m

theorem Assignment.careful (agent : String) (a : Assignment) (k : View)
    (hV : ∀ v ∈ a.versions m, V v) :
    (program agent a.job a.start).Careful m V (Tallies m a.start (a.job.steps.drop a.start)) k := by
  unfold program
  split
  · exact fun n s version _ _ ⟨r, hr, _⟩ => absurd hr List.not_mem_nil
  · exact careful_stepsProgram agent _ _
      (fun s hs v hv => hV v (List.mem_filterMap.mpr ⟨s, hs, hv⟩)) _ _

end Pass

/-! ### Turns -/

/-- What a turn of a thread tells of the version, and what it does to the one that is
recorded. It writes only if that was what it `waited` for. -/
inductive View.Turn (m : TargetId) (V : UInt64 → Prop) (waited : Prop) (s s' : Store) (k : View) :
    View → Prop
  | other (same : s'.versionApplied? m = s.versionApplied? m) : Turn m V waited s s' k k.forget
  | lookedUp {v : UInt64} (same : s'.versionApplied? m = s.versionApplied? m)
    (found : s.versionApplied? m = some v) : Turn m V waited s s' k ⟨some v, max k.floor v⟩
  | recorded {found v : UInt64} (first : waited) (allowed : V v) (latest : k.latest = some found)
    (le : found ≤ v) (now : s'.versionApplied? m = some v) :
    Turn m V waited s s' k ⟨none, max k.floor v⟩

namespace View.Turn

variable {waited : Prop} {s s' : Store} {k k' : View} {c v : UInt64}

/-- A thread that has found nothing lower than `c` records nothing lower, and goes on so. -/
theorem bounded (h : k.Turn m V waited s s' k') (hv : s.versionApplied? m = some v) (hle : c ≤ v)
    (hlatest : ∀ found, k.latest = some found → c ≤ found) :
    (∃ w, s'.versionApplied? m = some w ∧ c ≤ w ∧ (w = v ∨ V w)) ∧
      ∀ found, k'.latest = some found → c ≤ found := by
  cases h with
  | other same => exact ⟨⟨v, same.trans hv, hle, .inl rfl⟩, fun _ hf => nomatch hf⟩
  | @lookedUp found same hfound =>
    obtain rfl : found = v := Option.some.inj (hfound.symm.trans hv)
    exact ⟨⟨found, same.trans hv, hle, .inl rfl⟩, fun _ hf => Option.some.inj hf ▸ hle⟩
  | @recorded found w _ allowed hfound le now =>
    have hw : c ≤ w := UInt64.le_trans (hlatest found hfound) le
    exact ⟨⟨w, now, hw, .inr allowed⟩, fun _ hf => nomatch hf⟩

/-- If what the thread has found is what is recorded, the version does not fall, and the
thread keeps up with it. Only a thread that waited to record one changes the version. -/
theorem abreast (h : k.Turn m V waited s s' k') (hv : s.versionApplied? m = some v)
    (hfloor : k.floor ≤ v) (hlatest : waited → ∀ found, k.latest = some found → found = v) :
    ∃ w, v ≤ w ∧ s'.versionApplied? m = some w ∧ k'.floor ≤ w ∧
      (∀ found, k'.latest = some found → found = w) ∧ (w = v ∨ waited) := by
  cases h with
  | other same =>
    exact ⟨v, UInt64.le_refl v, same.trans hv, hfloor, fun _ hf => (nomatch hf), .inl rfl⟩
  | @lookedUp found same hfound =>
    obtain rfl : found = v := Option.some.inj (hfound.symm.trans hv)
    have hle : found ≤ found := UInt64.le_refl found
    exact ⟨found, hle, same.trans hv, Std.max_le_iff.mpr ⟨hfloor, hle⟩,
      fun _ hf => (Option.some.inj hf).symm, .inl rfl⟩
  | @recorded found w first _ hfound le now =>
    obtain rfl : found = v := hlatest first found hfound
    have hmax : max k.floor w ≤ w :=
      Std.max_le_iff.mpr ⟨UInt64.le_trans hfloor le, UInt64.le_refl w⟩
    exact ⟨w, le, now, hmax, fun _ hf => (nomatch hf), .inr first⟩

end View.Turn

namespace Thread

/-- Whether the thread is about to record a version for the target. -/
def isRecording (m : TargetId) (t : Thread ε α) : Bool :=
  match t.standing with
  | .going (.ask (.setVersionApplied t _) _) => t == m
  | _ => false

/-- What is left of the thread is careful. -/
def Careful (m : TargetId) (V : UInt64 → Prop) (Q : UInt64 → α → Prop) (k : View)
    (t : Thread ε α) : Prop :=
  match t.standing with
  | .going p => p.Careful m V Q k
  | .exhausted => True

variable {Q : UInt64 → α → Prop} {k : View} {s s' : Store} {t t' : Thread ε α}

theorem Careful.allowed (h : t.Careful m V Q k) (hrecording : t.isRecording m = true) :
    ∃ v, V v := by
  unfold isRecording at hrecording
  split at hrecording
  · rename_i heq
    rw [Careful, heq] at h
    obtain rfl := eq_of_beq hrecording
    exact ⟨_, (h.1 _ rfl).1⟩
  · cases hrecording

/-- **One turn of a careful thread.** -/
theorem Careful.turn (h : t.Careful m V Q k) (move : Move s t s' t') :
    ∃ k', t'.Careful m V Q k' ∧ k.Turn m V (t.isRecording m = true) s s' k' := by
  cases move with
  | @answered _ _ c next a hok =>
    obtain ⟨hpermits, hnext⟩ := h
    refine ⟨_, hnext (.ok a), ?_⟩
    by_cases hlookup : c = .mgs m
    · subst hlookup
      rw [View.told, if_pos rfl]
      exact .lookedUp (by rw [Store.eq_of_read rfl hok]) (Store.versionApplied?_found hok)
    · by_cases hwrite : ∃ v, c = .setVersionApplied m v
      · obtain ⟨v, rfl⟩ := hwrite
        obtain ⟨hV, found, hlatest, hle⟩ := hpermits v rfl
        rw [View.told, if_pos rfl]
        exact .recorded (beq_self_eq_true m) hV hlatest hle (Store.versionApplied?_recorded hok)
      · rw [not_exists] at hwrite
        rw [k.told_other hlookup hwrite]
        exact .other (Store.versionApplied?_other hok hwrite)
  | refused =>
    refine ⟨_, h.2 _, ?_⟩
    rw [View.told_error]
    exact .other rfl
  | exhausted => exact ⟨k.forget, trivial, .other rfl⟩
  | replied reply => exact ⟨_, h reply, .other rfl⟩
  | shown flags => exact ⟨_, h flags, .other rfl⟩

end Thread

namespace Pool

/-! ### Any turns -/

/-- The version is no lower than `c`, and it is that or one of those that some thread may
record. No thread has found a lower one. -/
structure Within (m : TargetId) (V : Nat → UInt64 → Prop) (c : UInt64) (p : Pool ε α) : Prop where
  recorded : ∃ v, p.store.versionApplied? m = some v ∧ c ≤ v ∧ (v = c ∨ ∃ i, V i v)
  careful : ∀ (i : Nat) (t : Thread ε α), p.threads[i]? = some t →
    ∃ (Q : UInt64 → α → Prop) (k : View), t.Careful m (V i) Q k ∧
      ∀ found, k.latest = some found → c ≤ found

variable {V : Nat → UInt64 → Prop} {c : UInt64} {p q : Pool ε α}

theorem Within.move (h : p.Within m V c) (move : p.Move q) : q.Within m V c := by
  obtain ⟨i, t, t', ht, ht', hmove, hothers⟩ := move.place
  obtain ⟨Q, k, hcareful, hlatest⟩ := h.careful i t ht
  obtain ⟨k', hcareful', hturn⟩ := hcareful.turn hmove
  obtain ⟨v, hv, hle, hV⟩ := h.recorded
  obtain ⟨⟨w, hw, hle', hchange⟩, hlatest'⟩ := hturn.bounded hv hle hlatest
  refine ⟨⟨w, hw, hle', ?_⟩, fun j u hu => ?_⟩
  · rcases hchange with rfl | hallowed
    · exact hV
    · exact .inr ⟨i, hallowed⟩
  · by_cases hj : j = i
    · subst hj
      rw [ht'] at hu
      cases hu
      exact ⟨Q, k', hcareful', hlatest'⟩
    · rw [hothers j hj] at hu
      exact h.careful j u hu

theorem Within.reaches (h : p.Within m V c) (run : p.Reaches q) : q.Within m V c := by
  induction run with
  | refl => exact h
  | tail _ move ih => exact ih.move move

/-! ### One at a time -/

/-- At most one thread is about to record a version for the target. -/
def Apart (m : TargetId) (p : Pool ε α) : Prop :=
  p.threads.Pairwise fun t u => ¬ (t.isRecording m = true ∧ u.isRecording m = true)

instance (p : Pool ε α) : Decidable (p.Apart m) :=
  inferInstanceAs (Decidable (p.threads.Pairwise _))

/-- Any number of turns in any order, of which each finds the threads apart. -/
def ReachesApart (m : TargetId) : Pool ε α → Pool ε α → Prop :=
  Relation.ReflTransGen fun p q => p.Apart m ∧ p.Move q

theorem ReachesApart.reaches (run : p.ReachesApart m q) : p.Reaches q :=
  Relation.ReflTransGen.mono (fun _ _ turn => turn.2) _ _ run

/-- If no two threads may ever record a version, every run finds them apart. -/
theorem Within.reachesApart (h : p.Within m V c) (hV : ∀ i j v w, V i v → V j w → i = j)
    (run : p.Reaches q) : p.ReachesApart m q := by
  induction run with
  | refl => exact .refl
  | @tail q' _ run move ih =>
    refine ih.tail ⟨?_, move⟩
    have allowed : ∀ i t, q'.threads[i]? = some t → t.isRecording m = true → ∃ v, V i v := by
      intro i t ht hrecording
      obtain ⟨Q, k, hcareful, _⟩ := (h.reaches run).careful i t ht
      exact hcareful.allowed hrecording
    refine List.pairwise_iff_getElem.mpr fun i j hi hj hlt ⟨hfirst, hsecond⟩ => ?_
    obtain ⟨v, hv⟩ := allowed i _ (List.getElem?_eq_getElem hi) hfirst
    obtain ⟨w, hw⟩ := allowed j _ (List.getElem?_eq_getElem hj) hsecond
    exact Nat.ne_of_lt hlt (hV i j v w hv hw)

/-- The version is `v`. Every thread knows only of versions up to this one, and if it is
about to record one, then what it has found is this one. -/
structure Abreast (m : TargetId) (V : Nat → UInt64 → Prop) (Q : Nat → UInt64 → α → Prop)
    (v : UInt64) (p : Pool ε α) : Prop where
  recorded : p.store.versionApplied? m = some v
  careful : ∀ (i : Nat) (t : Thread ε α), p.threads[i]? = some t → ∃ k : View,
    t.Careful m (V i) (Q i) k ∧ k.floor ≤ v ∧
      (t.isRecording m = true → ∀ found, k.latest = some found → found = v)

variable {Q : Nat → UInt64 → α → Prop} {v : UInt64}

theorem Abreast.move (h : p.Abreast m V Q v) (apart : p.Apart m) (move : p.Move q) :
    ∃ w, v ≤ w ∧ q.Abreast m V Q w := by
  obtain ⟨i, t, t', ht, ht', hmove, hothers⟩ := move.place
  obtain ⟨k, hcareful, hfloor, hlatest⟩ := h.careful i t ht
  obtain ⟨k', hcareful', hturn⟩ := hcareful.turn hmove
  obtain ⟨w, hle, hw, hfloor', hlatest', hchange⟩ := hturn.abreast h.recorded hfloor hlatest
  refine ⟨w, hle, hw, fun j u hu => ?_⟩
  by_cases hj : j = i
  · subst hj
    rw [ht'] at hu
    cases hu
    exact ⟨k', hcareful', hfloor', fun _ => hlatest'⟩
  · rw [hothers j hj] at hu
    obtain ⟨ku, hcarefulu, hflooru, hlatestu⟩ := h.careful j u hu
    refine ⟨ku, hcarefulu, UInt64.le_trans hflooru hle, fun hrecording => ?_⟩
    rcases hchange with rfl | hfirst
    · exact hlatestu hrecording
    · exact absurd (place_unique apart hu ht hrecording hfirst) hj

theorem Abreast.reaches (h : p.Abreast m V Q v) (run : p.ReachesApart m q) :
    ∃ w, v ≤ w ∧ q.Abreast m V Q w := by
  induction run with
  | refl => exact ⟨v, UInt64.le_refl v, h⟩
  | tail _ turn ih =>
    obtain ⟨w, hle, hw⟩ := ih
    obtain ⟨w', hle', hw'⟩ := hw.move turn.1 turn.2
    exact ⟨w', UInt64.le_trans hle hle', hw'⟩

end Pool

/-! ### Passes that take turns -/

namespace Pass

variable {s : Store} {agent : String} {assigned : List Assignment}

/-- The versions that the pass in the given place may record for the target. -/
def mayRecord (m : TargetId) (assigned : List Assignment) (j : Nat) (v : UInt64) : Prop :=
  ∃ a, assigned[j]? = some a ∧ v ∈ a.versions m

/-- What the pass in the given place knows at its end. -/
def tallied (m : TargetId) (assigned : List Assignment) (j : Nat) (floor : UInt64) (v : Verdict) :
    Prop :=
  ∀ a, assigned[j]? = some a → Tallies m a.start (a.job.steps.drop a.start) floor v

theorem careful_pool {j : Nat} {t : Thread Empty Verdict} (k : View)
    (h : (pool s agent assigned).threads[j]? = some t) :
    t.Careful m (mayRecord m assigned j) (tallied m assigned j) k := by
  obtain ⟨a, ha, rfl⟩ := threads_pool h
  have hmay : mayRecord m assigned j = (· ∈ a.versions m) := by
    funext v
    simp [mayRecord, ha]
  have htallied : tallied m assigned j = Tallies m a.start (a.job.steps.drop a.start) := by
    funext floor v
    simp [tallied, ha]
  rw [hmay, htallied]
  exact a.careful agent k fun _ hv => hv

theorem pool_within {c : UInt64} (known : s.versionApplied? m = some c) :
    (pool s agent assigned).Within m (mayRecord m assigned) c where
  recorded := ⟨c, known, UInt64.le_refl c, .inl rfl⟩
  careful _ _ ht := ⟨_, ⟨none, c⟩, careful_pool _ ht, fun _ hf => nomatch hf⟩

theorem pool_abreast {c : UInt64} (known : s.versionApplied? m = some c) :
    (pool s agent assigned).Abreast m (mayRecord m assigned) (tallied m assigned) c where
  recorded := known
  careful _ _ ht := ⟨⟨none, c⟩, careful_pool _ ht, UInt64.le_refl c, fun _ _ hf => nomatch hf⟩

/-- The versions that the steps of some passes record for the target, if they all succeed. -/
def supplied (m : TargetId) (assigned : List Assignment) : List UInt64 :=
  assigned.flatMap fun a => a.versions m

theorem exists_of_mem_supplied {version : UInt64} (h : version ∈ supplied m assigned) :
    ∃ (j : Nat) (a : Assignment) (n : Nat) (step : Step), assigned[j]? = some a ∧
      (a.job.steps.drop a.start)[n]? = some step ∧ step.kind.version? m = some version := by
  obtain ⟨a, ha, hversion⟩ := List.mem_flatMap.mp h
  obtain ⟨step, hstep, hversion⟩ := List.mem_filterMap.mp hversion
  obtain ⟨j, hj⟩ := List.getElem?_of_mem ha
  obtain ⟨n, hn⟩ := List.getElem?_of_mem hstep
  exact ⟨j, a, n, step, hj, hn, hversion⟩

/-- The step of the pass in the given place has succeeded: whatever else the pass is told, it
will say so. -/
def HasSucceeded (p : Pool Empty Verdict) (j i : Nat) : Prop :=
  ∃ t rest, p.threads[j]? = some t ∧ t.standing = .going rest ∧
    rest.Always fun v => v.Succeeded i

/-- A step has succeeded as soon as the pass goes on to those after it. -/
theorem always_after (p : Program Empty Verdict) (i : Nat) (step : Step)
    (transition : Option Job.Transition) :
    (p.bind fun v => .done (v.after i step transition)).Always fun v => v.Succeeded i := by
  induction p with
  | done v => exact ⟨_, .head _, rfl, rfl⟩
  | fail e => nomatch e
  | ask c next ih => exact fun r => ih r
  | send host line next ih => exact fun reply => ih reply
  | look next ih => exact fun flags => ih flags

/-- A version is recorded no lower once a step has succeeded that was to record it. -/
theorem version_le {p : Pool Empty Verdict} {V : Nat → UInt64 → Prop} {v : UInt64}
    (h : p.Abreast m V (tallied m assigned) v) {j n : Nat} {a : Assignment} {step : Step}
    {version : UInt64} (ha : assigned[j]? = some a)
    (hstep : (a.job.steps.drop a.start)[n]? = some step)
    (hversion : step.kind.version? m = some version) (hsuccess : HasSucceeded p j (a.start + n)) :
    version ≤ v := by
  obtain ⟨t, rest, ht, hstanding, halways⟩ := hsuccess
  obtain ⟨k, hcareful, hfloor, _⟩ := h.careful j t ht
  rw [Thread.Careful, hstanding] at hcareful
  obtain ⟨verdict, hsucceeded, htallied⟩ := hcareful.always halways
  exact UInt64.le_trans (htallied a ha n step version hstep hversion hsucceeded) hfloor

end Pass

/-- **While only one step at a time is about to record a version, the version does not
fall**, and it is the highest of all once every step has succeeded. This is so in every run
if only one of the jobs records versions for the target. In any case the version is one of
those that are to be recorded or the one from the start, and no lower than that. -/
theorem version_rises_apart (s : Store) (m : TargetId) (c : UInt64)
    (known : s.versionApplied? m = some c) (agent : String) (assigned : List Pass.Assignment) :
    let start := Pass.pool s agent assigned
    let versions := c :: Pass.supplied m assigned
    (∀ q, start.Reaches q → ∃ v ∈ versions, q.store.versionApplied? m = some v ∧ c ≤ v) ∧
    (∀ p q, start.ReachesApart m p → p.ReachesApart m q →
      ∃ v w, p.store.versionApplied? m = some v ∧ q.store.versionApplied? m = some w ∧ v ≤ w) ∧
    (∀ q, start.ReachesApart m q →
      (∀ j a i step version, assigned[j]? = some a → a.start ≤ i → a.job.steps[i]? = some step →
        step.kind = .confParamVersion m version →
          ∃ p, start.ReachesApart m p ∧ p.ReachesApart m q ∧ Pass.HasSucceeded p j i) →
      q.store.versionApplied? m = versions.max?) ∧
    ((assigned.Pairwise fun a b => a.versions m = [] ∨ b.versions m = []) →
      ∀ q, start.Reaches q → start.ReachesApart m q) := by
  intro start versions
  have within : start.Within m (Pass.mayRecord m assigned) c := Pass.pool_within known
  have abreast : start.Abreast m (Pass.mayRecord m assigned) (Pass.tallied m assigned) c :=
    Pass.pool_abreast known
  have bounded : ∀ q, start.Reaches q →
      ∃ v ∈ versions, q.store.versionApplied? m = some v ∧ c ≤ v := by
    intro q run
    obtain ⟨v, hv, hle, rfl | ⟨j, a, ha, hversion⟩⟩ := (within.reaches run).recorded
    · exact ⟨v, List.mem_cons_self, hv, hle⟩
    · have hmem : v ∈ Pass.supplied m assigned :=
        List.mem_flatMap.mpr ⟨a, List.mem_of_getElem? ha, hversion⟩
      exact ⟨v, .tail _ hmem, hv, hle⟩
  refine ⟨bounded, fun p q hp hq => ?_, fun q hq hall => ?_, fun alone q run => ?_⟩
  · obtain ⟨v, _, hv⟩ := abreast.reaches hp
    obtain ⟨w, hle, hw⟩ := hv.reaches hq
    exact ⟨v, w, hv.recorded, hw.recorded, hle⟩
  · obtain ⟨w, hmem, hw, hle⟩ := bounded q hq.reaches
    rw [hw]
    refine (List.max?_eq_some_iff.mpr ⟨hmem, fun u hu => ?_⟩).symm
    rcases List.mem_cons.mp hu with rfl | hu
    · exact hle
    · obtain ⟨j, a, n, step, ha, hn, hversion⟩ := Pass.exists_of_mem_supplied hu
      have hindex : a.job.steps[a.start + n]? = some step := by rw [← hn, List.getElem?_drop]
      obtain ⟨p, hp, hpq, hsuccess⟩ := hall j a (a.start + n) step u ha (Nat.le_add_right _ _)
        hindex (Step.StepKind.version?_eq_some.mp hversion)
      obtain ⟨v, _, hv⟩ := abreast.reaches hp
      obtain ⟨w', hle', hw'⟩ := hv.reaches hpq
      obtain rfl : w' = w := Option.some.inj (hw'.recorded.symm.trans hw)
      exact UInt64.le_trans (Pass.version_le hv ha hn hversion hsuccess) hle'
  · refine within.reachesApart (fun i j v w hv hw => ?_) run
    obtain ⟨a, ha, hv⟩ := hv
    obtain ⟨b, hb, hw⟩ := hw
    have alone' : assigned.Pairwise fun a b => ¬ (a.versions m ≠ [] ∧ b.versions m ≠ []) :=
      alone.imp fun h ⟨hfirst, hsecond⟩ => h.elim hfirst hsecond
    exact place_unique alone' ha hb (List.ne_nil_of_mem hv) (List.ne_nil_of_mem hw)

/-- Two jobs record a version each, one after the other, and the first is not over yet. -/
theorem two_versions_one_after_the_other :
    let m : TargetId := ⟨1⟩
    let s := Store.ofInventory { mgs := [⟨m, 2⟩] }
    let assigned : List Pass.Assignment :=
      [{ job := .of 1 "" none [.confParamVersion m 5, .null] },
        { job := .of 2 "" none [.confParamVersion m 9] }]
    let start := Pass.pool s "agent" assigned
    s.versionApplied? m = some 2 ∧ ∃ p q, start.ReachesApart m p ∧ p.ReachesApart m q ∧
      p.store.versionApplied? m = some 5 ∧
      q.store.versionApplied? m = (2 :: Pass.supplied m assigned).max? ∧
      (2 :: Pass.supplied m assigned).max? = some 9 := by
  intro m s assigned start
  have known : s.versionApplied? m = some 2 := rfl
  obtain ⟨p, q, hp, hq, hfive, hfirst, hsecond⟩ : ∃ p q,
      start.ReachesApart m p ∧ p.ReachesApart m q ∧ p.store.versionApplied? m = some 5 ∧
      Pass.HasSucceeded p 0 0 ∧ Pass.HasSucceeded q 1 0 := by
    refine ⟨_, _, .head ⟨by decide, .turn [] [_] (.shown .unset)⟩ <|
      .head ⟨by decide, .turn [] [_] (.answered rfl)⟩ <|
      .head ⟨by decide, .turn [] [_] (.answered rfl)⟩ .refl,
      .head ⟨by decide, .turn [_] [] (.shown .unset)⟩ <|
      .head ⟨by decide, .turn [_] [] (.answered rfl)⟩ <|
      .head ⟨by decide, .turn [_] [] (.answered rfl)⟩ .refl, rfl, ?_, ?_⟩
    · exact ⟨_, _, rfl, rfl, Pass.always_after (Pass.stepsProgram "agent" none 1 _) 0 _ none⟩
    · exact ⟨_, _, rfl, rfl, _, .head _, rfl, rfl⟩
  refine ⟨known, p, q, hp, hq, hfive, ?_, rfl⟩
  refine (version_rises_apart s m 2 known "agent" assigned).2.2.1 q (hp.trans hq) ?_
  intro j a i step version ha _ hstep hversion
  match j, i with
  | 0, 0 => exact ⟨p, hp, hq, hfirst⟩
  | 1, 0 => exact ⟨q, hp.trans hq, .refl, hsecond⟩
  | 0, 1 =>
    cases ha
    cases hstep
    cases hversion
  | 0, i + 2 | 1, i + 1 =>
    cases ha
    cases hstep
  | j + 2, _ => cases ha

/-- A second job records 9 between the lookup and the write of a first one, which then
records 5. -/
theorem version_overwritten_in_between :
    let m : TargetId := ⟨1⟩
    let s := Store.ofInventory { mgs := [⟨m, 2⟩] }
    let job (id version : UInt64) : Job := .of id "" none [.confParamVersion m version]
    let start := Pass.pool s "agent" [{ job := job 1 5 }, { job := job 2 9 }]
    ∃ p q, start.Reaches p ∧ p.Reaches q ∧
      p.store.versionApplied? m = some 9 ∧ q.store.versionApplied? m = some 5 ∧
      Pass.HasSucceeded q 0 0 ∧ Pass.HasSucceeded q 1 0 ∧ [(2 : UInt64), 5, 9].max? = some 9 := by
  intro m s job start
  refine ⟨_, _, .head (.turn [] [_] (.shown .unset)) <| .head (.turn [_] [] (.shown .unset)) <|
    .head (.turn [] [_] (.answered rfl)) <| .head (.turn [_] [] (.answered rfl)) <|
    .head (.turn [_] [] (.answered rfl)) .refl, .single (.turn [] [_] (.answered rfl)), ?_⟩
  refine ⟨rfl, rfl, ?_, ?_, rfl⟩
  · exact ⟨_, _, rfl, rfl, _, .head _, rfl, rfl⟩
  · exact ⟨_, _, rfl, rfl, _, .head _, rfl, rfl⟩

end FleetJobs
