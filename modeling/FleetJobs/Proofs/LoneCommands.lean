import FleetJobs.Proofs.FileTurns

/-! Commands that meet nobody.

What a program does when it is run alone (`FileProgram.events`) it may also do in a pool, while
all others wait (`FilePool.reaches_of_run`). So a command that meets nobody inside the lock, and
whose files are there, can come to its end: it loads the inventory once, saves its records once,
and leaves the lock as free as it was (`Command.Ready.reaches`). -/
namespace FleetJobs

namespace Files

open Directory

/-! ### Programs -/

namespace FileProgram

variable {α β : Type}

/-- What the program at this place does while all others wait, up to an operation that would have
to wait itself. -/
def events (i : Nat) : FileProgram α → Directory → List FileEvent
  | done _, _ => []
  | perform o next, d =>
    match d.perform o with
    | some (answer, d') => ⟨i, o, answer, d'⟩ :: (next answer).events i d'
    | none => []

theorem events_bind {p : FileProgram α} {f : α → FileProgram β} {d d' : Directory} {a : α}
    (h : p.run d = some (a, d')) (i : Nat) :
    (p >>= f).events i d = p.events i d ++ (f a).events i d' := by
  show (p.bind f).events i d = _
  induction p generalizing d with
  | done b =>
    cases h
    rfl
  | perform o next ih =>
    unfold run at h
    cases hperform : d.perform o with
    | none =>
      rw [hperform] at h
      cases h
    | some performed =>
      obtain ⟨answer, tree⟩ := performed
      rw [hperform] at h
      simp only [FileProgram.bind, events, hperform, ih answer h, List.cons_append]

variable {d : Directory} {path : String}

theorem events_loadAs (r : Data.Reader α) (path : String) (i : Nat) (d : Directory) :
    (loadAs r path).events i d = [⟨i, .read path, d.read path, d⟩] := by
  simp only [loadAs, Bind.bind, FileProgram.bind, operate, events, Directory.perform]
  rcases d.read path with f | content
  · cases f <;> rfl
  · rfl

theorem events_save {draft names : List String} (hdraft : d.Leads (draftOf path) draft)
    (hnames : d.Leads path names) (text : String) (i : Nat) :
    (save path text).events i d =
      [⟨i, .create (draftOf path), .ok (), d.put draft (.file .empty)⟩,
        ⟨i, .fill (draftOf path) text, .ok (), d.drafted draft text⟩,
        ⟨i, .rename (draftOf path) path, .ok (), d.saved draft names text⟩] := by
  simp only [save, Bind.bind, FileProgram.bind, operate, events, Directory.perform,
    create_of_leads hdraft, changed, fill_created hdraft, rename_drafted hdraft hnames]
  rfl

theorem events_withLock {body : FileProgram α} {a : α} {d₁ d₂ : Directory}
    (hclaim : d.perform (.claim (lockOf path)) = some (.ok (), d₁)) (hbody : body.run d₁ = some (a, d₂))
    (i : Nat) :
    (withLock path body).events i d = ⟨i, .claim (lockOf path), .ok (), d₁⟩ :: (body.events i d₁ ++
      [⟨i, .remove (lockOf path), (d₂.changed (d₂.remove (lockOf path))).1,
        (d₂.changed (d₂.remove (lockOf path))).2⟩]) := by
  unfold withLock
  rw [events_bind (run_operate.mpr hclaim)]
  simp only [operate, events, hclaim]
  exact congrArg _ (events_bind hbody i)

end FileProgram

/-- A program that is run alone is one that does all its operations while the others wait. -/
theorem FilePool.reaches_of_run {α : Type} {p : FileProgram α} {q : FilePool α} {i : Nat} {a : α}
    {d : Directory} (hp : q.programs[i]? = some (some p)) (h : p.run q.tree = some (a, d)) :
    q.Reaches ⟨d, q.programs.set i (some (.done a)), q.history ++ p.events i q.tree⟩ := by
  induction p generalizing q with
  | done b =>
    cases h
    obtain ⟨hlt, hp⟩ := List.getElem?_eq_some_iff.mp hp
    rw [← hp, List.set_getElem_self, FileProgram.events, List.append_nil]
    exact .refl
  | perform o next ih =>
    unfold FileProgram.run at h
    unfold FileProgram.events
    cases hperform : q.tree.perform o with
    | none =>
      rw [hperform] at h
      cases h
    | some performed =>
      obtain ⟨answer, tree⟩ := performed
      rw [hperform] at h
      have hlt := (List.getElem?_eq_some_iff.mp hp).1
      have hmove : q.Move ⟨tree, q.programs.set i (some (next answer)),
          q.history ++ [⟨i, o, answer, tree⟩]⟩ := .turn hp (.performed hperform)
      have hrest := ih answer (q := ⟨tree, q.programs.set i (some (next answer)),
        q.history ++ [⟨i, o, answer, tree⟩]⟩) (List.getElem?_set_self hlt) h
      rw [List.set_set, List.append_assoc] at hrest
      exact .head hmove hrest

/-! ### Locks -/

namespace Directory

/-- The path of a file and those beside it lead to places for files; this stands where the lock
is made, or nothing. -/
structure Usable (d : Directory) (path : String) (held : Option Entry) : Prop where
  lock : ∃ names, d.Leads (lockOf path) names
  found : d.found? (lockOf path) = held
  draft : ∃ names, d.Leads (draftOf path) names
  file : ∃ names, d.Leads path names

namespace Usable

variable {d d' : Directory} {path text : String} {held held' : Option Entry}

theorem of_same (h : d.Usable path held) (same : d.SameDirectories d')
    (found : d'.found? (lockOf path) = held') : d'.Usable path held' where
  lock := h.lock.imp fun _ hleads => hleads.of_same same
  found := found
  draft := h.draft.imp fun _ hleads => hleads.of_same same
  file := h.file.imp fun _ hleads => hleads.of_same same

theorem claim (h : d.Usable path none) :
    ∃ d', d.perform (.claim (lockOf path)) = some (.ok (), d') ∧
      d'.Usable path (some (.file .empty)) ∧ OnlyAt [lockOf path] d d' := by
  obtain ⟨names, hlock⟩ := h.lock
  have hnone : d.find? names = none := (found?_of_resolve hlock.resolved).symm.trans h.found
  have hclaim := claim_of_leads hlock hnone
  have honly := onlyAt_perform hclaim
  refine ⟨_, hclaim, h.of_same honly.same ?_, honly⟩
  exact (found?_of_resolve (hlock.of_same honly.same).resolved).trans (hlock.find?_put d _)

theorem save (h : d.Usable path held) (hsave : (Files.save path text).run d = some (.ok (), d')) :
    d'.Usable path held ∧ OnlyAt [draftOf path, path] d d' := by
  obtain ⟨draft, names, hdraft, hnames, rfl⟩ := run_save_iff.mp hsave
  have honly := onlyAt_saved hdraft hnames text
  refine ⟨h.of_same honly.same ((honly.found? fun p hp => ?_).trans h.found), honly⟩
  rcases List.mem_pair.mp hp with rfl | rfl
  · exact (d.apart_lock_draft path).symm
  · exact (d.apart_lock p).symm

theorem remove {content : ByteArray} (h : d.Usable path (some (.file content))) :
    ∃ d', d.changed (d.remove (lockOf path)) = (.ok (), d') ∧ d'.Usable path none ∧
      OnlyAt [lockOf path] d d' := by
  obtain ⟨names, hlock⟩ := h.lock
  have hfile : d.find? names = some (.file content) :=
    (found?_of_resolve hlock.resolved).symm.trans h.found
  have honly := onlyAt_drop hlock.resolved hlock.free
  rw [remove_of_leads hlock hfile]
  refine ⟨_, rfl, h.of_same honly.same ?_, honly⟩
  refine (found?_of_resolve (hlock.of_same honly.same).resolved).trans ?_
  rw [find?_drop (not_isAtOrAbove hlock.free), if_pos rfl]

end Usable

end Directory

end Files

namespace CommandLine

open FleetJobs.Files FleetJobs.Files.Directory

/-! ### Commands -/

/-- What a program that is run alone adds to the account. -/
def Account.after (path : String) (a : Account) (i : Nat) {α : Type} (p : FileProgram α) (d : Directory) :
    Account := (p.events i d).foldl (note path) a

namespace Account

variable {path : String} {a : Account} {i : Nat} {d d' : Directory}

theorem after_bind {α β : Type} {p : FileProgram α} {f : α → FileProgram β} {x : α}
    (h : p.run d = some (x, d')) :
    a.after path i (p >>= f) d = (a.after path i p d).after path i (f x) d' := by
  simp only [after, FileProgram.events_bind h, List.foldl_append]

theorem after_loadJobs (outside : i ∉ a.holders) {files : List String} {jobs : List Job}
    (h : (loadJobs files).run d = some (.ok jobs, d')) : a.after path i (loadJobs files) d = a := by
  induction files generalizing d d' jobs with
  | nil => rfl
  | cons file rest ih =>
    obtain ⟨loaded, d₁, hload, h⟩ := FileProgram.run_bind_eq_some.mp h
    have hnote : a.after path i (loadJob file) d = a := by
      obtain ⟨read, d₀, hread, _⟩ := FileProgram.run_bind_eq_some.mp hload
      unfold loadJob
      rw [after_bind hread]
      simp only [after, FileProgram.events_loadAs]
      exact note_outside outside file _
    refine (after_bind hload).trans ?_
    rw [hnote]
    rcases loaded with e | j
    · rfl
    obtain ⟨others, d₂, hothers, h⟩ := FileProgram.run_bind_eq_some.mp h
    refine (after_bind hothers).trans ?_
    rcases others with e | js
    · cases h
    rw [ih hothers]
    rfl

theorem after_loadAs {α : Type} (r : Data.Reader α) {content : ByteArray} (inside : i ∈ a.holders)
    (h : d.read path = .ok content) :
    a.after path i (loadAs r path) d = { a with accesses := a.accesses ++ [.load i content] } := by
  simp only [after, FileProgram.events_loadAs, h]
  exact if_pos ⟨rfl, inside⟩

theorem after_save {draft names : List String} (hdraft : d.Leads (draftOf path) draft)
    (hnames : d.Leads path names) (text : String) :
    a.after path i (save path text) d =
      { a with accesses := a.accesses ++ [.save i (some text.toUTF8)] } := by
  have hsaved : (d.saved draft names text).content? path = some text.toUTF8 := by
    rw [content?, read_of_saved (run_save_of_leads hdraft hnames text)]
    rfl
  simp only [after, FileProgram.events_save hdraft hnames, ← hsaved]
  exact if_pos rfl

/-- What is done inside the lock is all that is noted, for the one that has made it removes it. -/
theorem after_withLock {α : Type} {body : FileProgram α} {x : α} {d₁ d₂ : Directory}
    {accesses : List Access} (outside : i ∉ a.holders)
    (hclaim : d.perform (.claim (lockOf path)) = some (.ok (), d₁)) (hbody : body.run d₁ = some (x, d₂))
    (hafter : ∀ a : Account, i ∈ a.holders →
      a.after path i body d₁ = { a with accesses := a.accesses ++ accesses }) :
    a.after path i (withLock path body) d = { a with accesses := a.accesses ++ accesses } := by
  have hinside := hafter { a with holders := i :: a.holders } List.mem_cons_self
  have hout : (i :: a.holders).filter (· != i) = a.holders := by
    rw [List.filter_cons_of_neg (by simp), List.filter_eq_self]
    exact fun j hj => bne_iff_ne.mpr (ne_of_mem_of_not_mem hj outside)
  unfold after at hinside ⊢
  simp only [FileProgram.events_withLock hclaim hbody, List.foldl_cons, List.foldl_append, List.foldl_nil,
    note, if_true, hinside, hout]

end Account

namespace Command

variable {σ : Type} {c : Command σ} {d : Directory} {jobs : List Job} {content : ByteArray}
  {inventory : Fleet.Inventory}

/-- The text of the records that the command has once its jobs are run on this inventory. -/
def records (c : Command σ) (jobs : List Job) (inventory : Fleet.Inventory) : String :=
  Yaml.write (c.options.passes c.remote c.state jobs inventory).2.store.toInventory.toDatum

/-- Inside the lock the inventory is loaded and the records are saved. -/
theorem exists_runLocked (jobs : List Job) {held : Option Entry}
    (usable : d.Usable c.options.inventory held) (hread : d.read c.options.inventory = .ok content)
    (hdecode : decode Fleet.Inventory.reader content = .ok inventory) :
    ∃ reports state d', (save c.options.inventory (c.records jobs inventory)).run d = some (.ok (), d') ∧
      (runLocked c.options c.remote c.state jobs).run d = some ((.ok reports, state), d') ∧
      ∀ (i : Nat) (a : Account), i ∈ a.holders →
        a.after c.options.inventory i (runLocked c.options c.remote c.state jobs) d =
          { a with accesses := a.accesses ++
            [.load i content, .save i (some (c.records jobs inventory).toUTF8)] } := by
  have hload : (loadInventory c.options.inventory).run d = some (.ok inventory, d) := by
    have hrun := run_loadAs Fleet.Inventory.reader hread
    rwa [hdecode] at hrun
  obtain ⟨draft, hdraft⟩ := usable.draft
  obtain ⟨names, hnames⟩ := usable.file
  have hsave := run_save_of_leads hdraft hnames (c.records jobs inventory)
  refine ⟨_, _, _, hsave, run_runLocked.mpr ⟨inventory, d, hload, hsave, rfl, rfl⟩, fun i a inside => ?_⟩
  unfold runLocked
  rw [Account.after_bind hload, loadInventory, Account.after_loadAs _ inside hread]
  simp only [c.options.runAll_eq_passes]
  refine (Account.after_bind hsave).trans ?_
  have hsaves := Account.after_save (a := { a with accesses := a.accesses ++ [.load i content] }) (i := i)
    hdraft hnames (c.records jobs inventory)
  rw [List.append_assoc] at hsaves
  exact hsaves

/-- Nobody is inside the lock, and the files that the command loads are there. -/
structure Ready (c : Command σ) (d : Directory) (jobs : List Job) (content : ByteArray)
    (inventory : Fleet.Inventory) : Prop where
  running : c.options.mode = .run
  loaded : (loadJobs c.options.jobFiles).run d = some (.ok jobs, d)
  free : d.Usable c.options.inventory none
  read : d.read c.options.inventory = .ok content
  decoded : decode Fleet.Inventory.reader content = .ok inventory

/-- A command that is run alone leaves its records in the inventory, and the lock free again. It
loads the inventory and then saves it. -/
theorem Ready.run (h : Ready c d jobs content inventory) :
    let path := c.options.inventory
    let text := (c.records jobs inventory).toUTF8
    ∃ result d', c.program.run d = some (result, d') ∧ d'.read path = .ok text ∧ d'.Usable path none ∧
      OnlyAt [lockOf path, draftOf path, path] d d' ∧
      ∀ (i : Nat) (a : Account), i ∉ a.holders → a.after path i c.program d =
        { a with accesses := a.accesses ++ [.load i content, .save i (some text)] } := by
  intro path text
  obtain ⟨d₁, hclaim, held, hlocked⟩ := h.free.claim
  have hread : d₁.read path = .ok content :=
    hlocked.read (List.forall_mem_singleton.mpr (d.apart_lock path)) h.read
  obtain ⟨reports, state, d₂, hsave, hbody, hafter⟩ := exists_runLocked jobs held hread h.decoded
  obtain ⟨held, hsaved⟩ := held.save hsave
  obtain ⟨d', hremove, free, hremoved⟩ := held.remove
  have htext : d'.read path = .ok text :=
    hremoved.read (List.forall_mem_singleton.mpr (d₂.apart_lock path)) (read_of_saved hsave)
  have hlock : (withLock path (runLocked c.options c.remote c.state jobs)).run d =
      some (.ok (.ok reports, state), d') :=
    run_withLock.mpr ⟨d₁, d₂, hclaim, hbody, by rw [hremove]⟩
  have hrun : (runJobs c.options c.remote c.state).run d = some ((reportResult reports, state), d') :=
    FileProgram.run_bind_eq_some.mpr ⟨.ok jobs, d, h.loaded,
      FileProgram.run_bind_eq_some.mpr ⟨_, _, hlock, rfl⟩⟩
  have hprogram : c.program = runJobs c.options c.remote c.state := by
    unfold program execute
    rw [h.running]
  rw [hprogram]
  refine ⟨_, d', hrun, htext, free, ((hlocked.trans hsaved).trans hremoved).mono (by simp [path]),
    fun i a outside => ?_⟩
  rw [runJobs, Account.after_bind h.loaded, Account.after_loadJobs outside h.loaded]
  exact (Account.after_bind hlock).trans (Account.after_withLock outside hclaim hbody (hafter i))

/-- **A command that meets nobody inside the lock can do all it has to do**, whatever the others
wait for. It comes to its end and leaves its records in the inventory; what it has loaded and saved
is in the account, and the lock is free again. -/
theorem Ready.reaches {q : FilePool (Result × σ)} {i : Nat} (h : Ready c q.tree jobs content inventory)
    (hprogram : q.programs[i]? = some (some c.program))
    (outside : i ∉ (Account.of c.options.inventory q.history).holders) :
    let path := c.options.inventory
    let text := (c.records jobs inventory).toUTF8
    let a := Account.of path q.history
    ∃ q', q.Reaches q' ∧ (∃ result, q'.programs[i]? = some (some (.done result))) ∧
      (∀ j, j ≠ i → q'.programs[j]? = q.programs[j]?) ∧
      q'.tree.read path = .ok text ∧ q'.tree.Usable path none ∧
      OnlyAt [lockOf path, draftOf path, path] q.tree q'.tree ∧
      Account.of path q'.history =
        { a with accesses := a.accesses ++ [.load i content, .save i (some text)] } := by
  obtain ⟨result, d', hrun, htext, free, honly, hafter⟩ := h.run
  have hlt := (List.getElem?_eq_some_iff.mp hprogram).1
  refine ⟨_, FilePool.reaches_of_run hprogram hrun, ⟨result, List.getElem?_set_self hlt⟩,
    fun j hj => List.getElem?_set_ne (Ne.symm hj), htext, free, honly, ?_⟩
  exact List.foldl_append.trans (hafter i _ outside)

end Command

end CommandLine

end FleetJobs
