import FleetJobs.Proofs.FileChanges
import FleetJobs.Proofs.RunResult
import Mathlib.Logic.Relation

/-! Commands that take turns on the same files.

In a pool of programs any may do the next operation, which may fail or be torn, and any may be
stopped for good (`FilePool.Move`). What a command may do to an inventory and the files beside
it, and when, is set out once (`Stage.Step`): it reads the inventory and puts another text in its
place only after it has made the lock and before it removes it. The command keeps to
that whatever the answers are (`Command.follows_program`). The account of a history (`Account.of`)
says who is inside the lock, and what those inside have loaded from the inventory and saved in
it. -/
namespace FleetJobs

namespace Files

/-- One operation of the program at this place, its answer and the files after it. -/
structure FileEvent where
  place : Nat
  operation : Operation
  answer : operation.Answer
  after : Directory

/-- Programs that share a directory tree. One that was stopped for good is gone. -/
structure FilePool (α : Type) where
  tree : Directory
  programs : List (Option (FileProgram α))
  history : List FileEvent

namespace FilePool

variable {α : Type}

/-- Programs that have not begun. -/
def start (d : Directory) (ps : List (FileProgram α)) : FilePool α := ⟨d, ps.map some, []⟩

/-- One operation of any program, or the end of one. -/
inductive Move (q : FilePool α) : FilePool α → Prop where
  | turn {i : Nat} {o : Operation} {next : o.Answer → FileProgram α} {answer : o.Answer}
      {tree : Directory} :
      q.programs[i]? = some (some (.perform o next)) → q.tree.Happens o answer tree →
      Move q ⟨tree, q.programs.set i (some (next answer)), q.history ++ [⟨i, o, answer, tree⟩]⟩
  | crash (i : Nat) : Move q { q with programs := q.programs.set i none }

/-- Any number of operations in any order. -/
def Reaches : FilePool α → FilePool α → Prop := Relation.ReflTransGen Move

end FilePool

/-! ### The way through the lock -/

/-- How far a program has come that has made the lock: what it has read of the file, and what
it has written to the draft. -/
inductive Stage where
  | entered
  | loaded (content : ByteArray)
  | drafting (content : ByteArray)
  | drafted (content : ByteArray) (text : String)
  | leaving

/-- The operations on the way through the lock of a file, with what each answer leads to. A program
that is not on the way has no stage. `makes` says which texts may replace which content. -/
inductive Stage.Step (path : String) (makes : ByteArray → String → Prop) :
    Option Stage → (o : Operation) → o.Answer → Option Stage → Prop where
  | looked (p : String) (answer : Except Fault ByteArray) : Step path makes none (.read p) answer none
  | entered : Step path makes none (.claim (lockOf path)) (.ok ()) (some .entered)
  | refused (f : Fault) : Step path makes none (.claim (lockOf path)) (.error f) none
  | loaded (content : ByteArray) :
      Step path makes (some .entered) (.read path) (.ok content) (some (.loaded content))
  | unread (f : Fault) : Step path makes (some .entered) (.read path) (.error f) (some .leaving)
  | created (content : ByteArray) :
      Step path makes (some (.loaded content)) (.create (draftOf path)) (.ok ())
        (some (.drafting content))
  | uncreated (content : ByteArray) (f : Fault) :
      Step path makes (some (.loaded content)) (.create (draftOf path)) (.error f) (some .leaving)
  | filled (content : ByteArray) (text : String) :
      Step path makes (some (.drafting content)) (.fill (draftOf path) text) (.ok ())
        (some (.drafted content text))
  | unfilled (content : ByteArray) (text : String) (f : Fault) :
      Step path makes (some (.drafting content)) (.fill (draftOf path) text) (.error f) (some .leaving)
  | renamed {content : ByteArray} {text : String} (answer : Except Fault Unit) : makes content text →
      Step path makes (some (.drafted content text)) (.rename (draftOf path) path) answer (some .leaving)
  | left (stage : Stage) (answer : Except Fault Unit) :
      Step path makes (some stage) (.remove (lockOf path)) answer none

namespace FileProgram

variable {α β : Type} {path : String} {makes : ByteArray → String → Prop}

/-- From this stage on the program does nothing that is not on the way through the lock, whatever
the answers are, and comes to an end as `post` says. -/
def Follows (path : String) (makes : ByteArray → String → Prop) (post : Option Stage → α → Prop) :
    Option Stage → FileProgram α → Prop
  | stage, done a => post stage a
  | stage, perform o next =>
    ∀ answer, ∃ stage', Stage.Step path makes stage o answer stage' ∧
      Follows path makes post stage' (next answer)

/-- **A program goes on where the one before it has come to.** -/
theorem Follows.bind {m : Option Stage → α → Prop} {post : Option Stage → β → Prop}
    {p : FileProgram α} {f : α → FileProgram β} {stage : Option Stage}
    (hp : Follows path makes m stage p)
    (hf : ∀ stage' a, m stage' a → Follows path makes post stage' (f a)) :
    Follows path makes post stage (p >>= f) := by
  show Follows path makes post stage (p.bind f)
  induction p generalizing stage with
  | done a => exact hf stage a hp
  | perform o next ih =>
    intro answer
    obtain ⟨stage', hstep, hnext⟩ := hp answer
    exact ⟨stage', hstep, ih answer hnext⟩

end FileProgram

open FileProgram Data

variable {path : String} {makes : ByteArray → String → Prop}

/-- A value that is loaded from elsewhere is what some content is read as. -/
theorem follows_loadAs {α : Type} (r : Reader α) (p : String) :
    Follows path makes
      (fun stage loaded => stage = none ∧ ∀ a, loaded = .ok a → ∃ content, decode r content = .ok a)
      none (loadAs r p) := by
  refine Follows.bind (m := fun stage _ => stage = none) (fun answer => ⟨none, .looked p answer, rfl⟩) ?_
  rintro _ (f | content) rfl
  · cases f <;> exact ⟨rfl, nofun⟩
  · exact ⟨rfl, fun a h => ⟨content, mapError_eq_ok.mp h⟩⟩

/-- The inventory itself is loaded inside the lock. -/
theorem follows_loadInventory :
    Follows path makes
      (fun stage loaded => stage.isSome = true ∧ ∀ inventory, loaded = .ok inventory →
        ∃ content, stage = some (.loaded content) ∧ decode Fleet.Inventory.reader content = .ok inventory)
      (some .entered) (loadInventory path) := by
  refine Follows.bind
    (m := fun stage answer => stage.isSome = true ∧
      ∀ content, answer = .ok content → stage = some (.loaded content))
    (fun answer => ?_) ?_
  · rcases answer with f | content
    · exact ⟨some .leaving, .unread f, rfl, nofun⟩
    · refine ⟨some (.loaded content), .loaded content, rfl, fun content' h => ?_⟩
      cases h
      rfl
  · rintro stage (f | content) ⟨hinside, hloaded⟩
    · cases f <;> exact ⟨hinside, nofun⟩
    · exact ⟨hinside, fun inventory h => ⟨content, hloaded content rfl, mapError_eq_ok.mp h⟩⟩

/-- A text may be saved right after what it replaces was loaded. -/
theorem follows_save {content : ByteArray} {text : String} (made : makes content text) :
    Follows path makes (fun stage _ => stage.isSome = true) (some (.loaded content))
      (save path text) := by
  rintro (f | _)
  · exact ⟨some .leaving, .uncreated content f, rfl⟩
  refine ⟨some (.drafting content), .created content, ?_⟩
  rintro (f | _)
  · exact ⟨some .leaving, .unfilled content text f, rfl⟩
  exact ⟨some (.drafted content text), .filled content text,
    fun answer => ⟨some .leaving, .renamed answer made, rfl⟩⟩

/-- Whatever is done inside the lock, the lock is removed. -/
theorem follows_withLock {α : Type} {body : FileProgram α}
    (hbody : Follows path makes (fun stage _ => stage.isSome = true) (some .entered) body) :
    Follows path makes (fun stage _ => stage = none) none (withLock path body) := by
  rintro (f | _)
  · exact ⟨none, .refused f, rfl⟩
  refine ⟨some .entered, .entered, ?_⟩
  show Follows path makes _ _
    (body >>= fun r => operate (.remove (lockOf path)) >>= fun _ => pure (Except.ok r))
  refine hbody.bind fun stage _ hinside answer => ?_
  obtain ⟨stage, rfl⟩ := Option.isSome_iff_exists.mp hinside
  exact ⟨none, .left stage answer, rfl⟩

end Files

namespace CommandLine

open FleetJobs.Files FleetJobs.Files.FileProgram
open FleetJobs.Gateway (Remote)

/-- The command with its options, and the remote hosts as they are when it begins. -/
structure Command (σ : Type) where
  options : Options
  remote : Remote σ
  state : σ

namespace Command

variable {σ : Type}

def program (c : Command σ) : FileProgram (Result × σ) := execute c.options c.remote c.state

/-- The job is what some content of the file is read as. -/
def Loads (path : String) (j : Job) : Prop :=
  ∃ content j₀, decode Job.reader content = .ok j₀ ∧ accept path j₀ = .ok j

/-- The text is that of the records which the command has once its jobs are run on the inventory
with this content. -/
def Makes (c : Command σ) (content : ByteArray) (text : String) : Prop :=
  ∃ jobs inventory, List.Forall₂ Loads c.options.jobFiles jobs ∧
    decode Fleet.Inventory.reader content = .ok inventory ∧
    text = Yaml.write
      (c.options.passes c.remote c.state jobs inventory).2.store.toInventory.toDatum

variable {path : String} {makes : ByteArray → String → Prop}

theorem follows_loadJob (p : String) :
    Follows path makes (fun stage loaded => stage = none ∧ ∀ j, loaded = .ok j → Loads p j) none
      (loadJob p) := by
  refine (follows_loadAs Job.reader p).bind ?_
  rintro _ (e | j₀) ⟨rfl, hloaded⟩
  · exact ⟨rfl, nofun⟩
  · obtain ⟨content, hcontent⟩ := hloaded j₀ rfl
    exact ⟨rfl, fun j h => ⟨content, j₀, hcontent, h⟩⟩

theorem follows_loadJobs (files : List String) :
    Follows path makes (fun stage loaded => stage = none ∧
      ∀ jobs, loaded = .ok jobs → List.Forall₂ Loads files jobs) none (loadJobs files) := by
  induction files with
  | nil =>
    refine ⟨rfl, fun jobs h => ?_⟩
    cases h
    exact .nil
  | cons file rest ih =>
    refine (follows_loadJob file).bind ?_
    rintro _ (e | j) ⟨rfl, hj⟩
    · exact ⟨rfl, nofun⟩
    refine ih.bind ?_
    rintro _ (e | js) ⟨rfl, hjs⟩
    · exact ⟨rfl, nofun⟩
    · refine ⟨rfl, fun jobs h => ?_⟩
      cases h
      exact .cons (hj j rfl) (hjs js rfl)

theorem follows_validate (files : List String) :
    Follows path makes (fun stage _ => stage = none) none (validate files) := by
  induction files with
  | nil => exact rfl
  | cons file rest ih =>
    refine (follows_loadJob file).bind ?_
    rintro _ loaded ⟨rfl, _⟩
    refine ih.bind ?_
    rintro _ others rfl
    exact rfl

theorem follows_runLocked (c : Command σ) {jobs : List Job}
    (hjobs : List.Forall₂ Loads c.options.jobFiles jobs) :
    Follows c.options.inventory c.Makes (fun stage _ => stage.isSome = true) (some .entered)
      (runLocked c.options c.remote c.state jobs) := by
  refine follows_loadInventory.bind ?_
  rintro stage (e | inventory) ⟨hinside, hloaded⟩
  · exact hinside
  obtain ⟨content, rfl, hcontent⟩ := hloaded inventory rfl
  simp only [c.options.runAll_eq_passes]
  refine (follows_save ⟨jobs, inventory, hjobs, hcontent, rfl⟩).bind ?_
  rintro stage saved hinside
  exact hinside

/-- **The command keeps to the way through the lock**, in either mode, and is out of the lock when
it ends. -/
theorem follows_program (c : Command σ) :
    Follows c.options.inventory c.Makes (fun stage _ => stage = none) none c.program := by
  unfold program execute
  split
  · refine (follows_validate c.options.jobFiles).bind ?_
    rintro _ result rfl
    exact rfl
  · refine (follows_loadJobs c.options.jobFiles).bind ?_
    rintro _ (e | jobs) ⟨rfl, hjobs⟩
    · exact rfl
    refine (follows_withLock (c.follows_runLocked (hjobs jobs rfl))).bind ?_
    rintro _ (e | ⟨e | reports, state⟩) rfl <;> exact rfl

end Command

/-! ### The account of a history -/

/-- What a command that is inside the lock does with the content of the inventory. -/
inductive Access where
  | load (command : Nat) (content : ByteArray)
  /-- The content is what is read right after. -/
  | save (command : Nat) (content : Option ByteArray)

/-- Who has made the lock and not yet removed it, and all accesses to the inventory. -/
structure Account where
  holders : List Nat
  accesses : List Access

/-- What one operation adds to the account of the inventory at this path. -/
def Account.note (path : String) (a : Account) : FileEvent → Account
  | ⟨i, .claim p, .ok (), _⟩ => if p = lockOf path then { a with holders := i :: a.holders } else a
  | ⟨i, .remove p, _, _⟩ =>
    if p = lockOf path then { a with holders := a.holders.filter (· != i) } else a
  | ⟨i, .read p, .ok content, _⟩ =>
    if p = path ∧ i ∈ a.holders then { a with accesses := a.accesses ++ [.load i content] } else a
  | ⟨i, .rename _ p, .ok (), after⟩ =>
    if p = path then { a with accesses := a.accesses ++ [.save i (after.content? path)] } else a
  | _ => a

def Account.of (path : String) (history : List FileEvent) : Account :=
  history.foldl (note path) ⟨[], []⟩

/-- What is read outside the lock does not count. -/
theorem Account.note_outside {path : String} {a : Account} {i : Nat} {tree : Directory}
    (outside : i ∉ a.holders) (p : String) (answer : Except Fault ByteArray) :
    a.note path ⟨i, .read p, answer, tree⟩ = a := by
  cases answer with
  | error f => rfl
  | ok content => exact if_neg fun h => outside h.2

end CommandLine

end FleetJobs
