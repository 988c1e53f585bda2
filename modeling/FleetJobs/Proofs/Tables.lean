import FleetJobs.Store.Basic
import Mathlib.Data.List.Induction

/-! What a table holds.

A table is in order of its keys, so it holds a record exactly if it finds it under the
record's own key (`find?_eq_some_iff`), and two tables that find the same are the same
(`ext_find?`). From this follows what a record that is put in does to the others: it takes
the place of the one with its key, or if it has the next key it comes behind all of them
(`records_insert_next`). A table made from a list holds of every key the last record
(`mem_ofList`). -/
namespace FleetJobs.Store

open Keyed (key)

variable {α : Type} [Keyed α]

/-- A list that ascends holds one record a key. -/
theorem Ascending.eq_of_key_eq {rs : List α} (h : Ascending rs) {a b : α} (ha : a ∈ rs) (hb : b ∈ rs)
    (hk : key a = key b) : a = b := by
  induction rs with
  | nil => cases ha
  | cons x rest ih =>
    obtain ⟨hx, hrest⟩ := List.pairwise_cons.mp h
    rcases List.mem_cons.mp ha with hax | ha
    · rcases List.mem_cons.mp hb with hbx | hb
      · rw [hax, hbx]
      · have hlt := hx b hb
        rw [← hax] at hlt
        omega
    · rcases List.mem_cons.mp hb with hbx | hb
      · have hlt := hx a ha
        rw [← hbx] at hlt
        omega
      · exact ih hrest ha hb

theorem Ascending.nodup {rs : List α} (h : Ascending rs) : rs.Nodup :=
  h.imp fun hlt he => absurd (he ▸ hlt) (Nat.lt_irrefl _)

/-- The records of a list that no later one of the same key replaces. -/
def kept : List α → List α
  | [] => []
  | r :: rest => if rest.any (fun x => key x == key r) then kept rest else r :: kept rest

namespace Table

/-- **A table holds a record exactly if it finds it under its key.** -/
theorem find?_eq_some_iff {t : Table α} {k : Nat} {r : α} :
    t.find? k = some r ↔ r ∈ t.records ∧ key r = k := by
  constructor
  · exact fun h => ⟨List.mem_of_find?_eq_some h, key_of_find? h⟩
  · rintro ⟨hr, rfl⟩
    obtain ⟨r', hr'⟩ := Option.isSome_iff_exists.mp
      (List.find?_isSome (p := fun x => key x == key r).mpr ⟨r, hr, by simp⟩)
    have hr' : t.find? (key r) = some r' := hr'
    have hk : key r = key r' := (key_of_find? hr').symm
    rw [hr', t.ascending.eq_of_key_eq hr (List.mem_of_find?_eq_some hr') hk]

theorem find?_of_mem {t : Table α} {r : α} (h : r ∈ t.records) : t.find? (key r) = some r :=
  find?_eq_some_iff.mpr ⟨h, rfl⟩

theorem mem_of_find? {t : Table α} {k : Nat} {r : α} (h : t.find? k = some r) : r ∈ t.records :=
  (find?_eq_some_iff.mp h).1

/-- **The first record that passes a test is that of the lowest key.** -/
theorem first_eq_some_iff {t : Table α} {p : α → Bool} {r : α} :
    t.records.find? p = some r ↔
      r ∈ t.records ∧ p r = true ∧ ∀ a ∈ t.records, p a = true → key r ≤ key a := by
  have lowest {r : α} (h : t.records.find? p = some r) :
      ∀ a ∈ t.records, p a = true → key r ≤ key a := by
    intro a ha hpa
    obtain ⟨_, before, behind, hlist, hbefore⟩ := List.find?_eq_some_iff_append.mp h
    have hordered : Ascending (before ++ r :: behind) := hlist ▸ t.ascending
    rw [hlist] at ha
    rcases List.mem_append.mp ha with ha | ha
    · exact absurd hpa (by simpa using hbefore a ha)
    · rcases List.mem_cons.mp ha with rfl | ha
      · exact Nat.le_refl _
      · exact Nat.le_of_lt ((List.pairwise_cons.mp (List.pairwise_append.mp hordered).2.1).1 a ha)
  constructor
  · exact fun h => ⟨List.mem_of_find?_eq_some h, List.find?_some h, lowest h⟩
  · rintro ⟨hr, hpr, hlowest⟩
    obtain ⟨r', hr'⟩ := Option.isSome_iff_exists.mp (List.find?_isSome.mpr ⟨r, hr, hpr⟩)
    have hmem := List.mem_of_find?_eq_some hr'
    have hkey : key r = key r' :=
      Nat.le_antisymm (hlowest r' hmem (List.find?_some hr')) (lowest hr' r hr hpr)
    rw [hr', t.ascending.eq_of_key_eq hr hmem hkey]

theorem find?_insert_of_eq {r : α} {k : Nat} (t : Table α) (h : key r = k) :
    (t.insert r).find? k = some r := by
  rw [find?_insert, if_pos h]

theorem find?_insert_of_ne {r : α} {k : Nat} (t : Table α) (h : key r ≠ k) :
    (t.insert r).find? k = t.find? k := by
  rw [find?_insert, if_neg h]

theorem find?_insert_congr {t t' : Table α} {k : Nat} (r : α) (h : t'.find? k = t.find? k) :
    (t'.insert r).find? k = (t.insert r).find? k := by
  rw [find?_insert, find?_insert, h]

theorem mem_insert {t : Table α} {r a : α} :
    a ∈ (t.insert r).records ↔ a = r ∨ a ∈ t.records ∧ key a ≠ key r := by
  have ha : a ∈ (t.insert r).records ↔ (t.insert r).find? (key a) = some a :=
    ⟨find?_of_mem, mem_of_find?⟩
  rw [ha, find?_insert]
  by_cases hk : key r = key a
  · rw [if_pos hk]
    constructor
    · exact fun h => .inl (Option.some.inj h).symm
    · rintro (rfl | h)
      · rfl
      · exact absurd hk.symm h.2
  · rw [if_neg hk, find?_eq_some_iff]
    constructor
    · exact fun h => .inr ⟨h.1, fun he => hk he.symm⟩
    · rintro (rfl | h)
      · exact absurd rfl hk
      · exact ⟨h.1, rfl⟩

/-- **Tables that find the same are the same.** -/
theorem ext_find? {t t' : Table α} (h : ∀ k, t.find? k = t'.find? k) : t = t' := by
  have hmem : ∀ r, r ∈ t.records ↔ r ∈ t'.records := by
    intro r
    have hr := find?_eq_some_iff (t := t) (k := key r) (r := r)
    rw [h, find?_eq_some_iff] at hr
    simpa using hr.symm
  have hperm : t.records.Perm t'.records :=
    (List.perm_ext_iff_of_nodup t.ascending.nodup t'.ascending.nodup).mpr hmem
  refine ext (hperm.eq_of_pairwise (fun a b _ _ hab hba => ?_) t.ascending t'.ascending)
  exact absurd hab (Nat.lt_asymm hba)

/-- It is enough to look under the keys that records can have. -/
theorem ext_key {t t' : Table α} (h : ∀ r : α, t.find? (key r) = t'.find? (key r)) : t = t' := by
  refine ext_find? fun k => Option.ext fun r => ⟨fun hr => ?_, fun hr => ?_⟩
  · obtain rfl := key_of_find? hr
    exact (h r).symm.trans hr
  · obtain rfl := key_of_find? hr
    exact (h r).trans hr

/-- A record that is put in where it is already changes nothing. -/
theorem insert_of_find? {t : Table α} {r : α} (h : t.find? (key r) = some r) : t.insert r = t := by
  refine ext_find? fun k => ?_
  rw [find?_insert]
  by_cases hk : key r = k
  · rw [if_pos hk, ← hk, h]
  · rw [if_neg hk]

/-- Of two records put in under one key the second stays. -/
theorem insert_insert {t : Table α} {a b : α} (h : key a = key b) :
    (t.insert a).insert b = t.insert b := by
  refine ext_find? fun k => ?_
  rw [find?_insert, find?_insert, find?_insert, h]
  split <;> rfl

/-! ### The next key -/

theorem lt_nextKey {t : Table α} {r : α} (h : r ∈ t.records) : key r < t.nextKey := by
  unfold nextKey
  cases hlast : t.records.getLast? with
  | none =>
    rw [List.getLast?_eq_none_iff.mp hlast] at h
    cases h
  | some last =>
    obtain ⟨front, hfront⟩ := List.getLast?_eq_some_iff.mp hlast
    have hasc := t.ascending
    unfold Ascending at hasc
    rw [hfront] at h hasc
    dsimp only
    rcases List.mem_append.mp h with h | h
    · have hlt := (List.pairwise_append.mp hasc).2.2 r h last (List.mem_singleton_self last)
      omega
    · rw [List.mem_singleton.mp h]
      omega

theorem nextKey_of_nil {t : Table α} (h : t.records = []) : t.nextKey = 1 := by
  unfold nextKey
  rw [h]
  rfl

/-- The next key follows one that is taken, if any is. -/
theorem exists_of_nextKey {t : Table α} (h : t.nextKey ≠ 1) :
    ∃ r ∈ t.records, key r + 1 = t.nextKey := by
  unfold nextKey at h ⊢
  split at h
  · rename_i r hr
    exact ⟨r, List.mem_of_getLast? hr, rfl⟩
  · exact absurd rfl h

/-- A record that comes behind all others is put there. -/
theorem place_of_lt {r : α} {rs : List α} (h : ∀ x ∈ rs, key x < key r) : place r rs = rs ++ [r] := by
  induction rs with
  | nil => rfl
  | cons x rest ih =>
    obtain ⟨hx, hrest⟩ := List.forall_mem_cons.mp h
    rw [place, if_neg (by omega), if_neg (by omega), ih hrest, List.cons_append]

/-- **A record under the next key is added behind the others.** -/
theorem records_insert_next {t : Table α} {r : α} (h : key r = t.nextKey) :
    (t.insert r).records = t.records ++ [r] :=
  place_of_lt fun _ hx => h ▸ lt_nextKey hx

/-! ### Records that are followed -/

section Follows

variable {R R' : α → α → Prop} {t t' t'' : Table α}

/-- Every record of the first table is followed in the second, under the same key. -/
def Follows (R : α → α → Prop) (t t' : Table α) : Prop :=
  ∀ k r, t.find? k = some r → ∃ r', t'.find? k = some r' ∧ R r r'

theorem Follows.refl (hR : ∀ r, R r r) (t : Table α) : t.Follows R t := fun _ r hr => ⟨r, hr, hR r⟩

theorem Follows.trans (hR : ∀ {a b c}, R a b → R b c → R a c) (h : t.Follows R t')
    (h' : t'.Follows R t'') : t.Follows R t'' := by
  intro k r hr
  obtain ⟨r', hr', hrr'⟩ := h k r hr
  obtain ⟨r'', hr'', hr'r''⟩ := h' k r' hr'
  exact ⟨r'', hr'', hR hrr' hr'r''⟩

theorem Follows.mono (hR : ∀ {a b}, R a b → R' a b) (h : t.Follows R t') : t.Follows R' t' := by
  intro k r hr
  obtain ⟨r', hr', hrr'⟩ := h k r hr
  exact ⟨r', hr', hR hrr'⟩

/-- A record takes the place of one that it follows. -/
theorem follows_replace (new : α) {old : α} (hold : t.find? (key new) = some old)
    (hR : ∀ r, R r r) (hnew : R old new) : t.Follows R (t.insert new) := by
  intro k r hr
  by_cases hk : key new = k
  · subst hk
    obtain rfl := Option.some.inj (hold.symm.trans hr)
    exact ⟨new, find?_insert_of_eq t rfl, hnew⟩
  · exact ⟨r, (find?_insert_of_ne t hk).trans hr, hR r⟩

/-- A record under the next key takes the place of none. -/
theorem follows_next {new : α} (hnew : key new = t.nextKey) (hR : ∀ r, R r r) :
    t.Follows R (t.insert new) := by
  intro k r hr
  have hlt := lt_nextKey (mem_of_find? hr)
  have hk : key new ≠ k := by
    have := key_of_find? hr
    omega
  exact ⟨r, (find?_insert_of_ne t hk).trans hr, hR r⟩

end Follows

end Table

/-! ### Marks -/

/-- No two records have the same mark. -/
def Distinct {β : Type} (mark : α → Option β) (rs : List α) : Prop :=
  ∀ a ∈ rs, ∀ b ∈ rs, ∀ m, mark a = some m → mark b = some m → a = b

/-- Marks stay apart if the record that is put in has none of a record that it does not
replace. -/
theorem Distinct.insert {β : Type} {mark : α → Option β} {t : Table α} {r : α}
    (h : Distinct mark t.records)
    (hr : ∀ x ∈ t.records, key x ≠ key r → ∀ m, mark r = some m → mark x ≠ some m) :
    Distinct mark (t.insert r).records := by
  intro a ha b hb m hma hmb
  rcases Table.mem_insert.mp ha with har | ⟨ha, hak⟩
  · rcases Table.mem_insert.mp hb with hbr | ⟨hb, hbk⟩
    · rw [har, hbr]
    · exact absurd hmb (hr b hb hbk m (har ▸ hma))
  · rcases Table.mem_insert.mp hb with hbr | ⟨hb, hbk⟩
    · exact absurd hma (hr a ha hak m (hbr ▸ hmb))
    · exact h a ha b hb m hma hmb

/-! ### Tables made from lists -/

theorem Table.ofList_append_singleton (rs : List α) (r : α) :
    Table.ofList (rs ++ [r]) = (Table.ofList rs).insert r := by
  unfold ofList
  rw [List.foldl_append]
  rfl

theorem mem_kept_append_singleton {rs : List α} {r a : α} :
    a ∈ kept (rs ++ [r]) ↔ a = r ∨ a ∈ kept rs ∧ key a ≠ key r := by
  induction rs with
  | nil => simp [kept]
  | cons x rest ih =>
    rw [List.cons_append, kept, kept, List.any_append]
    by_cases hx : rest.any (fun y => key y == key x) = true
    · rw [hx]
      simpa using ih
    · rw [Bool.not_eq_true] at hx
      rw [hx]
      by_cases hr : key r = key x
      · -- the new record replaces the first one, and all others stay
        simp only [List.any_cons, hr, BEq.rfl, List.any_nil, Bool.or_false, Bool.or_true, if_true, ih,
          Bool.false_eq_true, if_false, List.mem_cons]
        constructor
        · exact fun h => h.imp id fun h => ⟨.inr h.1, h.2⟩
        · rintro (h | ⟨rfl | h, hk⟩)
          · exact .inl h
          · exact absurd rfl hk
          · exact .inr ⟨h, hk⟩
      · have hr' : key x ≠ key r := fun h => hr h.symm
        simp only [List.any_cons, beq_eq_false_iff_ne.mpr hr, List.any_nil, Bool.or_false,
          Bool.false_eq_true, if_false, List.mem_cons, ih]
        constructor
        · rintro (rfl | h | h)
          · exact .inr ⟨.inl rfl, hr'⟩
          · exact .inl h
          · exact .inr ⟨.inr h.1, h.2⟩
        · rintro (h | ⟨rfl | h, hk⟩)
          · exact .inr (.inl h)
          · exact .inl rfl
          · exact .inr (.inr ⟨h, hk⟩)

/-- **A table made from a list holds of every key the last record.** -/
theorem Table.mem_ofList {rs : List α} {a : α} : a ∈ (Table.ofList rs).records ↔ a ∈ kept rs := by
  induction rs using List.reverseRecOn with
  | nil => exact Iff.rfl
  | append_singleton rest r ih =>
    rw [ofList_append_singleton, mem_insert, ih, mem_kept_append_singleton]

/-- Under a key, a table made from a list finds the last record of that key. -/
theorem Table.find?_ofList (rs : List α) (k : Nat) :
    (Table.ofList rs).find? k = (rs.filter fun r => key r == k).getLast? := by
  induction rs using List.reverseRecOn with
  | nil => rfl
  | append_singleton rest r ih =>
    rw [ofList_append_singleton, find?_insert, ih, List.filter_append]
    by_cases hk : key r = k
    · simp [hk]
    · simp [hk]

theorem kept_of_ascending {rs : List α} (h : Ascending rs) : kept rs = rs := by
  induction rs with
  | nil => rfl
  | cons r rest ih =>
    obtain ⟨hr, hrest⟩ := List.pairwise_cons.mp h
    have hlast : rest.any (fun x => key x == key r) = false := by
      simpa using fun x hx => Nat.ne_of_gt (hr x hx)
    rw [kept, hlast, ih hrest]
    rfl

/-- A table is made again from its own records. -/
theorem Table.ofList_records (t : Table α) : Table.ofList t.records = t := by
  refine ext_find? fun k => Option.ext fun r => ?_
  rw [find?_eq_some_iff, find?_eq_some_iff, mem_ofList, kept_of_ascending t.ascending]

end FleetJobs.Store
