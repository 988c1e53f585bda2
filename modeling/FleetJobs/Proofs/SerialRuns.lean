import FleetJobs.Proofs.JobFiles
import FleetJobs.Proofs.LoneCommands
import FleetJobs.Proofs.SavedInventories

/-! Runs on one inventory, one after the other.

Whatever the order of the operations, and wherever commands fail or are stopped, at most one is
inside the lock, the inventory holds what was saved last, and every text that is saved is made
from what the same command has loaded right before (`runs_are_serial`). The invariant says which
stage the one inside has reached and what that means for the files (`Agreement`). -/
namespace FleetJobs.CommandLine

open FleetJobs.Files FleetJobs.Files.Directory

/-! ### Serial accesses -/

/-- The content that the last save has left, or the one from before them all. -/
def left (initial : Option ByteArray) (accesses : List Access) : Option ByteArray :=
  accesses.foldl (fun content access =>
    match access with
    | .load .. => content
    | .save _ content => content) initial

/-- Every load finds what was left before it, and every save puts in its place what the same command
makes of what it has loaded right before. -/
inductive Serial {σ : Type} (commands : List (Command σ)) (initial : Option ByteArray) :
    List Access → Prop where
  | nil : Serial commands initial []
  | load {accesses : List Access} {i : Nat} {content : ByteArray} :
      Serial commands initial accesses → left initial accesses = some content →
      Serial commands initial (accesses ++ [.load i content])
  | save {accesses : List Access} {i : Nat} {content : ByteArray} {text : String} {c : Command σ} :
      Serial commands initial (accesses ++ [.load i content]) → commands[i]? = some c →
      c.Makes content text →
      Serial commands initial (accesses ++ [.load i content] ++ [.save i (some text.toUTF8)])

variable {σ : Type} {commands : List (Command σ)} {initial : Option ByteArray}
  {accesses : List Access}

@[simp] theorem left_append_load (i : Nat) (content : ByteArray) :
    left initial (accesses ++ [.load i content]) = left initial accesses := List.foldl_concat ..

@[simp] theorem left_append_save (i : Nat) (content : Option ByteArray) :
    left initial (accesses ++ [.save i content]) = content := List.foldl_concat ..

/-- What is left is what was there at first or the whole text of records that were saved. -/
theorem Serial.left_eq (h : Serial commands initial accesses) :
    left initial accesses = initial ∨
      ∃ (i : Nat) (c : Command σ) (content : ByteArray) (text : String), commands[i]? = some c ∧
        c.Makes content text ∧ .save i (some text.toUTF8) ∈ accesses ∧
        left initial accesses = some text.toUTF8 := by
  induction h with
  | nil => exact .inl rfl
  | load _ _ ih =>
    rw [left_append_load]
    refine ih.imp_right ?_
    rintro ⟨i, c, content, text, hc, made, hsave, hleft⟩
    exact ⟨i, c, content, text, hc, made, List.mem_append_left _ hsave, hleft⟩
  | @save _ i content text c _ hc made =>
    exact .inr ⟨i, c, content, text, hc, made, List.mem_append_right _ List.mem_cons_self,
      left_append_save i _⟩

/-! ### The one inside -/

/-- The stage that a command has reached, if it is the one inside. -/
def stageOf (inside : Option (Nat × Stage)) (i : Nat) : Option Stage :=
  match inside with
  | some (j, stage) => if j = i then some stage else none
  | none => none

variable {inside : Option (Nat × Stage)} {i j : Nat} {stage : Stage}

theorem stageOf_eq_some : stageOf inside i = some stage ↔ inside = some (i, stage) := by
  unfold stageOf
  split
  · rename_i j stage'
    by_cases hj : j = i
    · subst hj
      simp
    · simp [hj]
  · simp

@[simp] theorem stageOf_self : stageOf (some (i, stage)) i = some stage := if_pos rfl

theorem stageOf_of_ne (h : j ≠ i) : stageOf (some (i, stage)) j = none := if_neg h.symm

/-- What the stage of the command means for its accesses and for the draft. -/
def Fits (path : String) (tree : Directory) (accesses : List Access) (i : Nat) : Stage → Prop
  | .entered | .leaving => True
  | .loaded content | .drafting content => ∃ before, accesses = before ++ [.load i content]
  | .drafted content text =>
    (∃ before, accesses = before ++ [.load i content]) ∧
      tree.found? (draftOf path) = some (.file text.toUTF8)

/-- The account, the files and the one inside agree. -/
structure Agreement (commands : List (Command σ)) (path : String) (initial : Option ByteArray)
    (tree : Directory) (a : Account) (inside : Option (Nat × Stage)) : Prop where
  holders : a.holders = (inside.map Prod.fst).toList
  locked : inside.isSome = true → (tree.found? (lockOf path)).isSome = true
  fits : ∀ i stage, inside = some (i, stage) → Fits path tree a.accesses i stage
  left : tree.content? path = left initial a.accesses
  serial : Serial commands initial a.accesses

variable {path : String} {tree tree' : Directory} {a : Account} {stage' : Stage}

/-- What is done to the draft alone is seen in the draft alone. -/
theorem Agreement.draft (h : Agreement commands path initial tree a (some (i, stage)))
    (only : OnlyAt [draftOf path] tree tree') (fits : Fits path tree' a.accesses i stage') :
    Agreement commands path initial tree' a (some (i, stage')) where
  holders := h.holders
  locked _ := by
    rw [only.found? (List.forall_mem_singleton.mpr (tree.apart_lock_draft path).symm)]
    exact h.locked rfl
  fits j stage hj := by
    cases hj
    exact fits
  left := by
    rw [only.content? (List.forall_mem_singleton.mpr (tree.apart_draft path))]
    exact h.left
  serial := h.serial

/-- Who makes the lock is alone inside: there was no lock, and so nobody was inside. -/
theorem Agreement.entered (h : Agreement commands path initial tree a inside) (i : Nat)
    (happens : tree.Happens (.claim (lockOf path)) (.ok ()) tree') :
    inside = none ∧ Agreement commands path initial tree'
      (a.note path ⟨i, .claim (lockOf path), .ok (), tree'⟩) (some (i, .entered)) := by
  obtain ⟨hbefore, hafter⟩ := happens.claimed
  have houtside : inside = none := by
    rw [← Option.not_isSome_iff_eq_none]
    intro hinside
    have hlock := h.locked hinside
    rw [hbefore] at hlock
    cases hlock
  subst houtside
  have hnote : a.note path ⟨i, .claim (lockOf path), .ok (), tree'⟩ =
      { a with holders := i :: a.holders } := if_pos rfl
  rw [hnote]
  refine ⟨rfl, ?_, fun _ => hafter, ?_, ?_, h.serial⟩
  · exact congrArg (i :: ·) h.holders
  · rintro j stage ⟨⟩
    trivial
  · rw [happens.onlyAt.content? (List.forall_mem_singleton.mpr (tree.apart_lock path))]
    exact h.left

/-- What is loaded inside is what the last save has left. -/
theorem Agreement.loaded (h : Agreement commands path initial tree a (some (i, stage)))
    {content : ByteArray} (hcontent : tree.content? path = some content) :
    Agreement commands path initial tree (a.note path ⟨i, .read path, .ok content, tree⟩)
      (some (i, .loaded content)) := by
  have hholds : i ∈ a.holders := by
    rw [h.holders]
    exact List.mem_singleton_self i
  have hnote : a.note path ⟨i, .read path, .ok content, tree⟩ =
      { a with accesses := a.accesses ++ [.load i content] } := if_pos ⟨rfl, hholds⟩
  rw [hnote]
  refine ⟨h.holders, h.locked, ?_, ?_, ?_⟩
  · rintro j stage ⟨⟩
    exact ⟨a.accesses, rfl⟩
  · rw [left_append_load]
    exact h.left
  · exact h.serial.load (h.left.symm.trans hcontent)

/-- The draft takes the place of the inventory as a whole. -/
theorem Agreement.renamed {c : Command σ} {content : ByteArray} {text : String}
    (h : Agreement commands path initial tree a (some (i, .drafted content text)))
    (hc : commands[i]? = some c) (made : c.Makes content text)
    (happens : tree.Happens (.rename (draftOf path) path) (.ok ()) tree') :
    Agreement commands path initial tree'
      (a.note path ⟨i, .rename (draftOf path) path, .ok (), tree'⟩) (some (i, .leaving)) := by
  obtain ⟨⟨before, hbefore⟩, hdraft⟩ := h.fits i _ rfl
  have hcontent := happens.renamed hdraft
  have hapart : ∀ p ∈ [draftOf path, path], tree.Apart p (lockOf path) :=
    List.forall_mem_cons.mpr ⟨(tree.apart_lock_draft path).symm,
      List.forall_mem_singleton.mpr (tree.apart_lock path).symm⟩
  have hnote : a.note path ⟨i, .rename (draftOf path) path, .ok (), tree'⟩ =
      { a with accesses := a.accesses ++ [.save i (some text.toUTF8)] } := by
    rw [← hcontent]
    exact if_pos rfl
  rw [hnote]
  refine ⟨h.holders, fun _ => ?_, ?_, ?_, ?_⟩
  · rw [happens.onlyAt.found? hapart]
    exact h.locked rfl
  · rintro j stage ⟨⟩
    trivial
  · rw [left_append_save]
    exact hcontent
  · have hserial := h.serial
    rw [hbefore] at hserial ⊢
    exact hserial.save hc made

/-- With the lock the one inside is gone. -/
theorem Agreement.exited (h : Agreement commands path initial tree a (some (i, stage)))
    {answer : Except Fault Unit} (happens : tree.Happens (.remove (lockOf path)) answer tree') :
    Agreement commands path initial tree'
      (a.note path ⟨i, .remove (lockOf path), answer, tree'⟩) none := by
  have hnote : a.note path ⟨i, .remove (lockOf path), answer, tree'⟩ =
      { a with holders := a.holders.filter (· != i) } := if_pos rfl
  rw [hnote]
  refine ⟨?_, by simp, by simp, ?_, h.serial⟩
  · rw [h.holders]
    simp
  · rw [happens.onlyAt.content? (List.forall_mem_singleton.mpr (tree.apart_lock path))]
    exact h.left

theorem Agreement.note_looked (h : Agreement commands path initial tree a inside)
    (outside : stageOf inside i = none) (p : String) (answer : Except Fault ByteArray) :
    a.note path ⟨i, .read p, answer, tree⟩ = a := by
  refine Account.note_outside (fun hi => ?_) p answer
  rw [h.holders] at hi
  obtain ⟨⟨j, stage⟩, rfl, rfl⟩ := Option.map_eq_some_iff.mp (Option.mem_toList.mp hi)
  rw [stageOf_self] at outside
  cases outside

/-- **Every operation on the way through the lock leaves things as they must stand.** The one that
does it goes on to its next stage, and nobody else does. -/
theorem Agreement.step {c : Command σ} {o : Operation} {answer : o.Answer} {next : Option Stage}
    (h : Agreement commands path initial tree a inside) (hc : commands[i]? = some c)
    (hstep : Stage.Step path c.Makes (stageOf inside i) o answer next)
    (happens : tree.Happens o answer tree') :
    ∃ inside', Agreement commands path initial tree' (a.note path ⟨i, o, answer, tree'⟩) inside' ∧
      stageOf inside' i = next ∧ ∀ j, j ≠ i → stageOf inside' j = stageOf inside j := by
  -- Whatever the one inside goes on to, it is still the one inside.
  have goesOn {stage next : Stage} (hstage : stageOf inside i = some stage)
      (h' : Agreement commands path initial tree' (a.note path ⟨i, o, answer, tree'⟩) (some (i, next))) :
      ∃ inside', Agreement commands path initial tree' (a.note path ⟨i, o, answer, tree'⟩) inside' ∧
        stageOf inside' i = some next ∧ ∀ j, j ≠ i → stageOf inside' j = stageOf inside j := by
    obtain rfl := stageOf_eq_some.mp hstage
    exact ⟨_, h', stageOf_self, fun j hj => (stageOf_of_ne hj).trans (stageOf_of_ne hj).symm⟩
  generalize hstage : stageOf inside i = stage at hstep
  cases hstep with
  | looked p answer =>
    obtain rfl := happens.read
    rw [h.note_looked hstage p answer]
    exact ⟨inside, h, hstage, fun _ _ => rfl⟩
  | entered =>
    obtain ⟨rfl, hentered⟩ := h.entered i happens
    exact ⟨_, hentered, stageOf_self, fun j hj => stageOf_of_ne hj⟩
  | refused f =>
    obtain rfl := happens.unclaimed
    exact ⟨inside, h, hstage, fun _ _ => rfl⟩
  | loaded content =>
    obtain rfl := stageOf_eq_some.mp hstage
    obtain rfl := happens.read
    exact goesOn hstage (h.loaded happens.content?_of_read)
  | unread f =>
    obtain rfl := stageOf_eq_some.mp hstage
    obtain rfl := happens.read
    exact goesOn hstage (h.draft (.refl _ _) trivial)
  | created content =>
    obtain rfl := stageOf_eq_some.mp hstage
    have hfits : Fits path tree' a.accesses i (.drafting content) := h.fits i _ rfl
    exact goesOn hstage (h.draft happens.onlyAt hfits)
  | uncreated content f =>
    obtain rfl := stageOf_eq_some.mp hstage
    exact goesOn hstage (h.draft happens.onlyAt trivial)
  | filled content text =>
    obtain rfl := stageOf_eq_some.mp hstage
    exact goesOn hstage (h.draft happens.onlyAt ⟨h.fits i _ rfl, happens.filled⟩)
  | unfilled content text f =>
    obtain rfl := stageOf_eq_some.mp hstage
    exact goesOn hstage (h.draft happens.onlyAt trivial)
  | renamed answer made =>
    obtain rfl := stageOf_eq_some.mp hstage
    rcases answer with f | _
    · obtain rfl := happens.unrenamed
      exact goesOn hstage (h.draft (.refl _ _) trivial)
    · exact goesOn hstage (h.renamed hc made happens)
  | left stage answer =>
    obtain rfl := stageOf_eq_some.mp hstage
    exact ⟨none, h.exited happens, rfl, fun j hj => (stageOf_of_ne hj).symm⟩

/-! ### Runs of the pool -/

/-- Things stand as they must, and every command that is left is on the way through the lock. -/
def InOrder (commands : List (Command σ)) (path : String) (initial : Option ByteArray)
    (q : FilePool (Result × σ)) : Prop :=
  ∃ inside, Agreement commands path initial q.tree (Account.of path q.history) inside ∧
    ∀ (i : Nat) (p : FileProgram (Result × σ)), q.programs[i]? = some (some p) →
      ∃ c, commands[i]? = some c ∧
        p.Follows path c.Makes (fun stage _ => stage = none) (stageOf inside i)

theorem inOrder_start (d : Directory) (shared : ∀ c ∈ commands, c.options.inventory = path) :
    InOrder commands path (d.content? path) (.start d (commands.map Command.program)) := by
  refine ⟨none, ⟨rfl, by simp, by simp, rfl, .nil⟩, fun i p hp => ?_⟩
  simp only [FilePool.start, List.map_map, List.getElem?_map, Option.map_eq_some_iff,
    Function.comp_apply, Option.some.injEq] at hp
  obtain ⟨c, hc, rfl⟩ := hp
  have hfollows := c.follows_program
  rw [shared c (List.mem_of_getElem? hc)] at hfollows
  exact ⟨c, hc, hfollows⟩

/-- **What one operation of any command, or the end of one, leaves in order.** -/
theorem InOrder.move {q q' : FilePool (Result × σ)} (h : InOrder commands path initial q)
    (hmove : q.Move q') : InOrder commands path initial q' := by
  obtain ⟨inside, hagree, hfollows⟩ := h
  cases hmove with
  | @turn i o next answer tree hprogram happens =>
    obtain ⟨c, hc, hway⟩ := hfollows i _ hprogram
    obtain ⟨stage, hstep, hnext⟩ := hway answer
    obtain ⟨inside', hagree', hown, hothers⟩ := hagree.step hc hstep happens
    have haccount : Account.of path (q.history ++ [⟨i, o, answer, tree⟩]) =
        (Account.of path q.history).note path ⟨i, o, answer, tree⟩ := List.foldl_concat ..
    refine ⟨inside', haccount.symm ▸ hagree', fun j p hp => ?_⟩
    by_cases hj : j = i
    · subst hj
      have hlt := (List.getElem?_eq_some_iff.mp hprogram).1
      cases (List.getElem?_set_self hlt).symm.trans hp
      exact ⟨c, hc, hown ▸ hnext⟩
    · have hp : q.programs[j]? = some (some p) := (List.getElem?_set_ne (Ne.symm hj)).symm.trans hp
      rw [hothers j hj]
      exact hfollows j p hp
  | crash i =>
    refine ⟨inside, hagree, fun j p hp => hfollows j p ?_⟩
    by_cases hj : j = i
    · subst hj
      obtain ⟨_, hp⟩ := List.getElem?_eq_some_iff.mp hp
      rw [List.getElem_set_self] at hp
      cases hp
    · exact (List.getElem?_set_ne (Ne.symm hj)).symm.trans hp

theorem InOrder.reaches {q q' : FilePool (Result × σ)} (h : InOrder commands path initial q)
    (hreach : q.Reaches q') : InOrder commands path initial q' := by
  induction hreach with
  | refl => exact h
  | tail _ hmove ih => exact ih.move hmove

/-- **Runs on one inventory are serial and outlive crashes.** Let any number of commands share an
inventory, and their operations take turns in any order; let any of them fail, any draft be
torn and any command be stopped for good. Then at most one command is inside the lock, and none
that has come to its end. The inventory holds what the last save has left, which is
what was there at first or the whole text of the records of a run. And no save is lost: what a
command loads is what the last save has left, and what it saves replaces just that. -/
theorem runs_are_serial (path : String) (d : Directory) (commands : List (Command σ))
    (shared : ∀ c ∈ commands, c.options.inventory = path) {q : FilePool (Result × σ)}
    (h : (FilePool.start d (commands.map Command.program)).Reaches q) :
    let a := Account.of path q.history
    a.holders.length ≤ 1 ∧
    (∀ i r, q.programs[i]? = some (some (.done r)) → i ∉ a.holders) ∧
    Serial commands (d.content? path) a.accesses ∧
    q.tree.content? path = left (d.content? path) a.accesses ∧
    (q.tree.content? path = d.content? path ∨
      ∃ (i : Nat) (c : Command σ) (content : ByteArray) (text : String), commands[i]? = some c ∧
        c.Makes content text ∧ .save i (some text.toUTF8) ∈ a.accesses ∧
        q.tree.content? path = some text.toUTF8) := by
  intro a
  obtain ⟨inside, hagree, hfollows⟩ := (inOrder_start d shared).reaches h
  refine ⟨?_, fun i r hdone hi => ?_, hagree.serial, hagree.left, ?_⟩
  · rw [hagree.holders]
    cases inside <;> simp
  · obtain ⟨c, hc, hout⟩ := hfollows i _ hdone
    rw [hagree.holders] at hi
    obtain ⟨⟨j, stage⟩, rfl, rfl⟩ := Option.map_eq_some_iff.mp (Option.mem_toList.mp hi)
    have hout : stageOf (some (j, stage)) j = none := hout
    rw [stageOf_self] at hout
    cases hout
  · rw [hagree.left]
    exact hagree.serial.left_eq

/-- Each of two commands records the version of one management target. The second loads what the
first has saved, and so both versions are in the inventory at the end. -/
theorem both_versions_saved :
    let inventory (v w : UInt64) : Fleet.Inventory := { mgs := [⟨⟨1⟩, v⟩, ⟨⟨2⟩, w⟩] }
    let text (v w : UInt64) : ByteArray := (Yaml.write (inventory v w).toDatum).toUTF8
    let job (target : UInt32) (v : UInt64) : Job := .of 1 "Record" none [.confParamVersion ⟨target⟩ v]
    let d : Directory := ⟨[(["fleet.yaml"], .file (text 0 0)),
      (["first.yaml"], .file (Yaml.write (job 1 5).toDatum).toUTF8),
      (["second.yaml"], .file (Yaml.write (job 2 9).toDatum).toUTF8)]⟩
    let c (file : String) : Command Unit :=
      ⟨⟨.run, [file], "fleet.yaml", {}, "hydra-agent", 0⟩, ⟨fun _ _ _ => ⟨.ok ⟨0, "", ""⟩, [], ()⟩⟩, ()⟩
    let commands := [c "first.yaml", c "second.yaml"]
    (∀ c ∈ commands, c.options.inventory = "fleet.yaml") ∧
    ∃ q, (FilePool.start d (commands.map Command.program)).Reaches q ∧
      (Account.of "fleet.yaml" q.history).accesses =
        [.load 0 (text 0 0), .save 0 (some (text 5 0)), .load 1 (text 5 0), .save 1 (some (text 5 9))] ∧
      (Account.of "fleet.yaml" q.history).holders.length ≤ 1 ∧
      Serial commands (d.content? "fleet.yaml") (Account.of "fleet.yaml" q.history).accesses ∧
      q.tree.content? "fleet.yaml" = some (text 5 9) := by
  intro inventory text job d c commands
  have hshared : ∀ c ∈ commands, c.options.inventory = "fleet.yaml" := by simp [commands, c]
  have hlock : d.Leads (lockOf "fleet.yaml") [lockOf "fleet.yaml"] :=
    leads_of_isName (by decide +kernel) nofun
  -- The first is alone with its files.
  have hready₁ : (c "first.yaml").Ready d [job 1 5] (text 0 0) (inventory 0 0) := {
    running := rfl
    loaded := run_loadJobs_singleton
      (load_of_text (Job.endsFinal_of nofun) (read_of_isName (by decide +kernel) rfl))
    free := {
      lock := ⟨_, hlock⟩
      found := found?_of_resolve hlock.resolved
      draft := ⟨_, leads_of_isName (by decide +kernel) nofun⟩
      file := ⟨_, leads_of_isName (by decide +kernel) (not_directory rfl)⟩ }
    read := read_of_isName (by decide +kernel) rfl
    decoded := Fleet.Inventory.decode_write _ }
  obtain ⟨q₁, hreach₁, _, hothers, htext₁, hfree₁, honly, haccount₁⟩ :=
    hready₁.reaches (q := .start d (commands.map Command.program)) (i := 0) rfl nofun
  have hrecords₁ : (c "first.yaml").records [job 1 5] (inventory 0 0) =
      Yaml.write (inventory 5 0).toDatum :=
    congrArg (fun i : Fleet.Inventory => Yaml.write i.toDatum) (by decide +kernel)
  rw [hrecords₁] at htext₁ haccount₁
  -- The second finds its job file as it was.
  have hnames : ∀ p ∈ [lockOf "fleet.yaml", draftOf "fleet.yaml", "fleet.yaml"],
      isName p = true ∧ p ≠ "second.yaml" := by decide +kernel
  have hfile : q₁.tree.read "second.yaml" = .ok (Yaml.write (job 2 9).toDatum).toUTF8 :=
    honly.read (fun p hp => apart_of_isName (hnames p hp).1 (by decide +kernel) (hnames p hp).2)
      (read_of_isName (by decide +kernel) rfl)
  have hready₂ : (c "second.yaml").Ready q₁.tree [job 2 9] (text 5 0) (inventory 5 0) := {
    running := rfl
    loaded := run_loadJobs_singleton (load_of_text (Job.endsFinal_of nofun) hfile)
    free := hfree₁
    read := htext₁
    decoded := Fleet.Inventory.decode_write _ }
  obtain ⟨q, hreach₂, _, _, _, _, _, haccount₂⟩ :=
    hready₂.reaches (i := 1) (hothers 1 (by decide)) (haccount₁ ▸ nofun)
  have hrecords₂ : (c "second.yaml").records [job 2 9] (inventory 5 0) =
      Yaml.write (inventory 5 9).toDatum :=
    congrArg (fun i : Fleet.Inventory => Yaml.write i.toDatum) (by decide +kernel)
  rw [hrecords₂] at haccount₂
  have haccesses : (Account.of "fleet.yaml" q.history).accesses =
      [.load 0 (text 0 0), .save 0 (some (text 5 0)), .load 1 (text 5 0), .save 1 (some (text 5 9))] :=
    (congrArg Account.accesses haccount₂).trans
      (congrArg (·.accesses ++ [.load 1 (text 5 0), .save 1 (some (text 5 9))]) haccount₁)
  obtain ⟨hone, _, hserial, hleft, _⟩ :=
    runs_are_serial "fleet.yaml" d commands hshared (hreach₁.trans hreach₂)
  refine ⟨hshared, q, hreach₁.trans hreach₂, haccesses, hone, hserial, ?_⟩
  rw [hleft, haccesses]
  rfl

end FleetJobs.CommandLine
