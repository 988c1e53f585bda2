import FleetJobs.Program.Run
import FleetJobs.Proofs.Calls
import Mathlib.Logic.Relation

/-! Programs that take turns on one store.

A thread is what is left of a program together with all that it was told so far, its
history. In a pool any thread may make the next move: one call, carried out by the
store as a whole, one reply to a command, or one look at the flags. Replies and flags
may be anything, so a pool's runs are all that any hosts, any flags and any order of
turns can bring about. -/
namespace FleetJobs

/-- One thing that a program was told. -/
inductive Event where
  | answered (call : Store.Call)
  | refused (call : Store.Call) (cause : Store.Refusal)
  | exhausted (call : Store.Call)
  | replied (command : Sent)
  | shown (flags : Job.Control)

namespace Event

/-- Whether the event is a write that was carried out. -/
def isWrite : Event → Bool
  | answered c => c.isWrite
  | _ => false

/-- Whether the event is a call that was not carried out. -/
def isFailure : Event → Bool
  | refused .. | exhausted _ => true
  | _ => false

def isLook : Event → Bool
  | shown _ => true
  | _ => false

def command? : Event → Option Sent
  | replied c => some c
  | _ => none

end Event

/-- The commands that were sent, first to last. -/
def commands (history : List Event) : List Sent := history.filterMap Event.command?

/-- No write was carried out. -/
def Unwritten (history : List Event) : Prop := ∀ e ∈ history, e.isWrite = false

@[simp] theorem commands_nil : commands [] = [] := rfl

@[simp] theorem commands_append (a b : List Event) : commands (a ++ b) = commands a ++ commands b :=
  List.filterMap_append

@[simp] theorem commands_singleton (e : Event) : commands [e] = e.command?.toList := by
  cases e <;> rfl

@[simp] theorem unwritten_nil : Unwritten [] := fun _ h => absurd h List.not_mem_nil

@[simp] theorem unwritten_append {a b : List Event} :
    Unwritten (a ++ b) ↔ Unwritten a ∧ Unwritten b := List.forall_mem_append

@[simp] theorem unwritten_singleton {e : Event} : Unwritten [e] ↔ e.isWrite = false := by
  simp [Unwritten]

/-! ### Threads and pools -/

/-- How far a program has come. -/
inductive Standing (ε α : Type) where
  | going (rest : Program ε α)
  /-- The store had no number left for a new record. -/
  | exhausted

structure Thread (ε α : Type) where
  history : List Event
  standing : Standing ε α

namespace Thread

variable {ε α : Type}

/-- A program that has not begun. -/
def start (p : Program ε α) : Thread ε α := ⟨[], .going p⟩

/-- How the thread has ended, if it has. -/
def ending? (t : Thread ε α) : Option (Ending ε α) :=
  match t.standing with
  | .going (.done a) => some (.done a)
  | .going (.fail e) => some (.failed e)
  | .going _ => none
  | .exhausted => some .exhausted

/-- What one turn of a thread does to the store and to the thread. -/
inductive Move : Store → Thread ε α → Store → Thread ε α → Prop where
  | answered {s s' h c next a} : s.handle c = .ok (a, s') →
      Move s ⟨h, .going (.ask c next)⟩ s' ⟨h ++ [.answered c], .going (next (.ok a))⟩
  | refused {s h c next r} : s.handle c = .error (.refused r) →
      Move s ⟨h, .going (.ask c next)⟩ s ⟨h ++ [.refused c r], .going (next (.error r))⟩
  | exhausted {s h c next} : s.handle c = .error .exhausted →
      Move s ⟨h, .going (.ask c next)⟩ s ⟨h ++ [.exhausted c], .exhausted⟩
  | replied {s h host line next} (reply : Gateway.Reply) :
      Move s ⟨h, .going (.send host line next)⟩ s
        ⟨h ++ [.replied ⟨host, line, reply⟩], .going (next reply)⟩
  | shown {s h next} (flags : Job.Control) :
      Move s ⟨h, .going (.look next)⟩ s ⟨h ++ [.shown flags], .going (next flags)⟩

end Thread

structure Pool (ε α : Type) where
  store : Store
  threads : List (Thread ε α)

namespace Pool

variable {ε α : Type}

/-- Programs that have not begun, on one store. -/
def start (s : Store) (ps : List (Program ε α)) : Pool ε α := ⟨s, ps.map Thread.start⟩

/-- One turn of any thread. -/
inductive Move : Pool ε α → Pool ε α → Prop where
  | turn {s s' t t'} (before after) : Thread.Move s t s' t' →
      Move ⟨s, before ++ t :: after⟩ ⟨s', before ++ t' :: after⟩

/-- Whose turn it was, by the place in the line; those in the other places stay as they are. -/
theorem Move.place {p q : Pool ε α} (h : p.Move q) :
    ∃ (i : Nat) (t t' : Thread ε α), p.threads[i]? = some t ∧ q.threads[i]? = some t' ∧
      Thread.Move p.store t q.store t' ∧ ∀ j, j ≠ i → q.threads[j]? = p.threads[j]? := by
  cases h with
  | @turn s s' t t' before after hturn =>
    refine ⟨before.length, t, t', by simp, by simp, hturn, fun j hj => ?_⟩
    rcases Nat.lt_or_gt_of_ne hj with hlt | hgt
    · simp [List.getElem?_append_left hlt]
    · obtain ⟨k, rfl⟩ := Nat.exists_eq_add_of_lt hgt
      simp [List.getElem?_append_right, Nat.add_assoc]

/-- Any number of turns in any order. -/
def Reaches : Pool ε α → Pool ε α → Prop := Relation.ReflTransGen Move

theorem Reaches.length {p q : Pool ε α} (h : p.Reaches q) : q.threads.length = p.threads.length := by
  induction h with
  | refl => rfl
  | tail _ hmove ih =>
    cases hmove with
    | turn before after _ => simpa using ih

/-- **What each thread keeps on its own turns and on those of others, all threads keep.** -/
theorem Reaches.invariant {I : Store → Thread ε α → Prop}
    (own : ∀ {s t s' t'}, I s t → Thread.Move s t s' t' → I s' t')
    (others : ∀ {s s' t u u'}, I s t → I s u → Thread.Move s u s' u' → I s' t)
    {p q : Pool ε α} (h : p.Reaches q) (hp : ∀ t ∈ p.threads, I p.store t) :
    ∀ t ∈ q.threads, I q.store t := by
  induction h with
  | refl => exact hp
  | tail _ hmove ih =>
    cases hmove with
    | @turn s s' u u' before after hturn =>
      have hu : I s u := ih u (by simp)
      intro t ht
      rcases List.mem_append.mp ht with ht | ht
      · exact others (ih t (List.mem_append_left _ ht)) hu hturn
      · rcases List.mem_cons.mp ht with rfl | ht
        · exact own hu hturn
        · exact others (ih t (List.mem_append_right _ (.tail _ ht))) hu hturn

end Pool

end FleetJobs
