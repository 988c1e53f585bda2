import FleetJobs.Proofs.Interleaving

/-! What a program keeps to while others use its store.

`Terms` are what a program may count on and what it owes: how others may have changed
the store between two of its calls, and what its own calls may do. `Upholds` says that a
program stays within its terms whatever it is told, and that however it ends, its
history, its ending and the store are as a given `Q` has it. It is read off the program's
tree and composes as programs do (`Upholds.bind`). What it says holds of the program run
alone (`Upholds.run`) and of every thread of a pool, whatever the turns
(`Pool.Reaches.upholds`). -/
namespace FleetJobs

/-- What programs on one store grant each other. -/
structure Terms where
  /-- How the store may change between two calls of a program. -/
  others : Store → Store → Prop
  /-- What a call may do, after a history, to the store before and after it. -/
  allows : List Event → Event → Store → Store → Prop
  refl : ∀ s, others s s
  trans : ∀ {a b c}, others a b → others b c → others a c
  /-- What a program may do, the others put up with. -/
  tolerated : ∀ {h e s s'}, allows h e s s' → others s s'

/-- What is asked of the end of a program. -/
abbrev Post (ε α : Type) := List Event → Ending ε α → Store → Prop

/-- What others do does not undo it. -/
def Post.Stable (T : Terms) (Q : Post ε α) : Prop :=
  ∀ h e s s', T.others s s' → Q h e s → Q h e s'

namespace Program

variable {ε ε' α β σ : Type}

/-! ### A call, met by a run -/

section Ask

variable (o : Outside σ) {w : World σ} {c : Store.Call}
  {next : Except Store.Refusal c.Answer → Program ε α}

theorem run_ask_answered {a : c.Answer} {s : Store} (h : w.store.handle c = .ok (a, s)) :
    (ask c next).run o w = (next (.ok a)).run o { w with store := s } := by
  rw [run, h]

theorem run_ask_refused {r : Store.Refusal} (h : w.store.handle c = .error (.refused r)) :
    (ask c next).run o w = (next (.error r)).run o w := by
  rw [run, h]

theorem run_ask_exhausted (h : w.store.handle c = .error .exhausted) :
    (ask c next).run o w = (.exhausted, w) := by
  rw [run, h]

end Ask

/-! ### Keeping to terms -/

/-- From a history and a store on, the program keeps to the terms and ends as `Q` says. -/
def Upholds (T : Terms) (Q : Post ε α) : List Event → Store → Program ε α → Prop
  | h, s, done a => Q h (.done a) s
  | h, s, fail e => Q h (.failed e) s
  | h, s, ask c next => ∀ s', T.others s s' →
    match s'.handle c with
    | .ok (a, s'') =>
      T.allows h (.answered c) s' s'' ∧ Upholds T Q (h ++ [.answered c]) s'' (next (.ok a))
    | .error (.refused r) =>
      T.allows h (.refused c r) s' s' ∧ Upholds T Q (h ++ [.refused c r]) s' (next (.error r))
    | .error .exhausted =>
      T.allows h (.exhausted c) s' s' ∧ Q (h ++ [.exhausted c]) .exhausted s'
  | h, s, send host line next => ∀ reply,
    Upholds T Q (h ++ [.replied ⟨host, line, reply⟩]) s (next reply)
  | h, s, look next => ∀ flags, Upholds T Q (h ++ [.shown flags]) s (next flags)

/-- What the first of two programs has to reach. -/
def thenUpholds (T : Terms) (Q : Post ε β) (f : α → Program ε β) : Post ε α
  | h, .done a, s => (f a).Upholds T Q h s
  | h, .failed e, s => Q h (.failed e) s
  | h, .exhausted, s => Q h .exhausted s

/-- What a program has to reach whose failure is caught. -/
def attempted (Q : Post ε' (Except ε α)) : Post ε α
  | h, .done a, s => Q h (.done (.ok a)) s
  | h, .failed e, s => Q h (.done (.error e)) s
  | h, .exhausted, s => Q h .exhausted s

namespace Upholds

variable {T : Terms} {Q Q' : Post ε α} {h : List Event} {s : Store}

theorem mono (hQ : ∀ h e s, Q h e s → Q' h e s) {p : Program ε α} (hp : p.Upholds T Q h s) :
    p.Upholds T Q' h s := by
  induction p generalizing h s with
  | done | fail => exact hQ _ _ _ hp
  | ask c next ih =>
    intro s' hs
    have := hp s' hs
    revert this
    split
    · exact fun this => ⟨this.1, ih _ this.2⟩
    · exact fun this => ⟨this.1, ih _ this.2⟩
    · exact fun this => ⟨this.1, hQ _ _ _ this.2⟩
  | send host line next ih => exact fun reply => ih _ (hp reply)
  | look next ih => exact fun flags => ih _ (hp flags)

theorem bind {Q : Post ε β} {p : Program ε α} {f : α → Program ε β}
    (hp : p.Upholds T (thenUpholds T Q f) h s) : (p.bind f).Upholds T Q h s := by
  induction p generalizing h s with
  | done | fail => exact hp
  | ask c next ih =>
    intro s' hs
    have := hp s' hs
    revert this
    split
    · exact fun this => ⟨this.1, ih _ this.2⟩
    · exact fun this => ⟨this.1, ih _ this.2⟩
    · exact fun this => this
  | send host line next ih => exact fun reply => ih _ (hp reply)
  | look next ih => exact fun flags => ih _ (hp flags)

theorem attempt {Q : Post ε' (Except ε α)} {p : Program ε α} (hp : p.Upholds T (attempted Q) h s) :
    (p.attempt : Program ε' (Except ε α)).Upholds T Q h s := by
  induction p generalizing h s with
  | done | fail => exact hp
  | ask c next ih =>
    intro s' hs
    have := hp s' hs
    revert this
    split
    · exact fun this => ⟨this.1, ih _ this.2⟩
    · exact fun this => ⟨this.1, ih _ this.2⟩
    · exact fun this => this
  | send host line next ih => exact fun reply => ih _ (hp reply)
  | look next ih => exact fun flags => ih _ (hp flags)

/-- What others do meanwhile does not break it. -/
theorem others {s' : Store} (stable : Q.Stable T)
    (hs : T.others s s') {p : Program ε α} (hp : p.Upholds T Q h s) : p.Upholds T Q h s' := by
  induction p generalizing h with
  | done | fail => exact stable _ _ _ _ hs hp
  | ask c next => exact fun s'' hs' => hp s'' (T.trans hs hs')
  | send host line next ih => exact fun reply => ih _ (hp reply)
  | look next ih => exact fun flags => ih _ (hp flags)

/-- **Run alone, a program that keeps to its terms ends as it has to**, after a history
whose commands are those in the log; and as long as it writes nothing, the store stays. -/
theorem run (o : Outside σ) {p : Program ε α} {w : World σ} (hp : p.Upholds T Q h w.store) :
    ∃ new, Q (h ++ new) (p.run o w).1 (p.run o w).2.store ∧
      (p.run o w).2.sent = w.sent ++ commands new ∧
      (Unwritten new → (p.run o w).2.store = w.store) := by
  induction p generalizing h w with
  | done a =>
    refine ⟨[], ?_, (List.append_nil _).symm, fun _ => rfl⟩
    rw [List.append_nil]
    exact hp
  | fail e =>
    refine ⟨[], ?_, (List.append_nil _).symm, fun _ => rfl⟩
    rw [List.append_nil]
    exact hp
  | ask c next ih =>
    have hcall := hp w.store (T.refl _)
    rcases hc : w.store.handle c with (r | _) | ⟨a, s'⟩
    · rw [hc] at hcall
      rw [run_ask_refused o hc]
      obtain ⟨new, hQ, hsent, hstore⟩ := ih _ hcall.2
      rw [List.append_assoc] at hQ
      exact ⟨_, hQ, hsent, fun hnew => hstore (List.forall_mem_cons.mp hnew).2⟩
    · rw [hc] at hcall
      rw [run_ask_exhausted o hc]
      exact ⟨_, hcall.2, (List.append_nil _).symm, fun _ => rfl⟩
    · rw [hc] at hcall
      rw [run_ask_answered o hc]
      obtain ⟨new, hQ, hsent, hstore⟩ := ih _ (w := { w with store := s' }) hcall.2
      rw [List.append_assoc] at hQ
      refine ⟨_, hQ, hsent, fun hnew => ?_⟩
      obtain ⟨hread, hnew⟩ := List.forall_mem_cons.mp hnew
      exact (hstore hnew).trans (Store.eq_of_read hread hc)
  | send host line next ih =>
    have hp' := hp (w.send o host line).1
    obtain ⟨new, hQ, hsent, hstore⟩ := ih _ (w := (w.send o host line).2) hp'
    rw [List.append_assoc] at hQ
    refine ⟨_, hQ, ?_, fun hnew => hstore (List.forall_mem_cons.mp hnew).2⟩
    exact hsent.trans (List.append_assoc _ _ _)
  | look next ih =>
    have hp' := hp (w.look o).1
    obtain ⟨new, hQ, hsent, hstore⟩ := ih _ (w := (w.look o).2) hp'
    rw [List.append_assoc] at hQ
    exact ⟨_, hQ, hsent, fun hnew => hstore (List.forall_mem_cons.mp hnew).2⟩

end Upholds

end Program

/-! ### Threads of a pool -/

/-- What is left of the thread keeps to the terms. -/
def Thread.Upholds (T : Terms) (Q : Post ε α) (s : Store) (t : Thread ε α) : Prop :=
  match t.standing with
  | .going p => p.Upholds T Q t.history s
  | .exhausted => Q t.history .exhausted s

theorem Thread.Upholds.ending {T : Terms} {Q : Post ε α} {s : Store} {t : Thread ε α}
    {e : Ending ε α} (h : t.Upholds T Q s) (he : t.ending? = some e) : Q t.history e s := by
  obtain ⟨history, p | _⟩ := t
  · cases p with
    | done | fail => cases he; exact h
    | _ => cases he
  · cases he
    exact h

/-- What others do meanwhile does not break it. -/
theorem Thread.Upholds.others {T : Terms} {Q : Post ε α} {s s' : Store} {t : Thread ε α}
    (stable : Q.Stable T) (hs : T.others s s') (h : t.Upholds T Q s) : t.Upholds T Q s' := by
  obtain ⟨history, p | _⟩ := t
  · exact Program.Upholds.others stable hs h
  · exact stable _ _ _ _ hs h

/-- What a turn does to the store is done by a call that the terms allow. -/
theorem Thread.Upholds.wrote {T : Terms} {Q : Post ε α} {s s' : Store} {t t' : Thread ε α}
    (h : t.Upholds T Q s) (hmove : Thread.Move s t s' t') :
    s' = s ∨ ∃ (c : Store.Call) (a : c.Answer),
      s.handle c = .ok (a, s') ∧ T.allows t.history (.answered c) s s' := by
  cases hmove with
  | answered hok =>
    have := h s (T.refl s)
    rw [hok] at this
    exact .inr ⟨_, _, hok, this.1⟩
  | refused | exhausted | replied | shown => exact .inl rfl

section Turns

variable {T : Terms} {Q : Post ε α} {H : List Event → Prop} (nil : H [])
  (call : ∀ {h e s s'}, H h → T.allows h e s s' → H (h ++ [e]))
  (replied : ∀ {h c}, H h → H (h ++ [.replied c])) (shown : ∀ {h f}, H h → H (h ++ [.shown f]))

include call replied shown

/-- A turn keeps the thread within its terms and changes the store only as the others bear.
`H` is any property of histories that allowed calls, replies and looks keep. -/
theorem Thread.Upholds.turn {s s' : Store} {t t' : Thread ε α} (hH : H t.history)
    (ht : t.Upholds T Q s) (hmove : Thread.Move s t s' t') :
    (H t'.history ∧ t'.Upholds T Q s') ∧ T.others s s' := by
  cases hmove with
  | answered hok =>
    have := ht s (T.refl s)
    rw [hok] at this
    exact ⟨⟨call hH this.1, this.2⟩, T.tolerated this.1⟩
  | refused hr =>
    have := ht s (T.refl s)
    rw [hr] at this
    exact ⟨⟨call hH this.1, this.2⟩, T.refl s⟩
  | exhausted hx =>
    have := ht s (T.refl s)
    rw [hx] at this
    exact ⟨⟨call hH this.1, this.2⟩, T.refl s⟩
  | replied reply => exact ⟨⟨replied hH, ht reply⟩, T.refl s⟩
  | shown flags => exact ⟨⟨shown hH, ht flags⟩, T.refl s⟩

include nil

/-- **Programs that keep to common terms keep to them in a pool, whatever the turns.** -/
theorem Pool.Reaches.upholds (stable : Q.Stable T)
    {s : Store} {ps : List (Program ε α)} (hps : ∀ p ∈ ps, p.Upholds T Q [] s)
    {q : Pool ε α} (hq : (Pool.start s ps).Reaches q) :
    ∀ t ∈ q.threads, H t.history ∧ t.Upholds T Q q.store := by
  refine hq.invariant (I := fun s t => H t.history ∧ t.Upholds T Q s)
    (fun ht hmove => (ht.2.turn call replied shown ht.1 hmove).1)
    (fun ht hu hmove => ⟨ht.1, ?_⟩) ?_
  · have hs := (hu.2.turn call replied shown hu.1 hmove).2
    exact ht.2.others stable hs
  · intro t ht
    obtain ⟨p, hp, rfl⟩ := List.mem_map.mp ht
    exact ⟨nil, hps p hp⟩

end Turns

/-- A turn, whatever is in the history. -/
theorem Thread.Upholds.move {T : Terms} {Q : Post ε α} {s s' : Store} {t t' : Thread ε α}
    (h : t.Upholds T Q s) (hmove : Thread.Move s t s' t') : t'.Upholds T Q s' ∧ T.others s s' := by
  have hturn := h.turn (H := fun _ => True) (fun _ _ => trivial) (fun _ => trivial) (fun _ => trivial)
    trivial hmove
  exact ⟨hturn.1.2, hturn.2⟩

/-- **All that such programs do together is what each of them puts up with.** -/
theorem Pool.Reaches.others {T : Terms} {Q : Post ε α} (stable : Q.Stable T) {s : Store}
    {ps : List (Program ε α)} (hps : ∀ p ∈ ps, p.Upholds T Q [] s) {q : Pool ε α}
    (hq : (Pool.start s ps).Reaches q) : T.others s q.store := by
  induction hq with
  | refl => exact T.refl s
  | tail hprev hmove ih =>
    have kept := Pool.Reaches.upholds (H := fun _ => True) trivial (fun _ _ => trivial)
      (fun _ => trivial) (fun _ => trivial) stable hps hprev
    cases hmove with
    | turn before after hturn =>
      have ht := (kept _ (List.mem_append_right _ List.mem_cons_self)).2
      exact T.trans ih (ht.move hturn).2

end FleetJobs
