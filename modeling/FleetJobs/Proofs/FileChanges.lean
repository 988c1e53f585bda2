import FleetJobs.Proofs.FilePlaces

/-! What file operations change.

An operation that works changes nothing but at the paths that it names, and none turns a
directory into a file or the other way round (`Directory.OnlyAt`). One that fails changes nothing,
whatever the fault; only a file that was to be filled may be left with any content
(`Directory.Happens`). What is read at a path stays the same as long as nothing happens at a
place where the path leads (`Directory.OnlyAt.content?`, `Directory.OnlyAt.read`). -/
namespace FleetJobs.Files

/-- The paths at which an operation may change something. -/
def Operation.changes : Operation → List String
  | read _ => []
  | create path | fill path _ | remove path | claim path => [path]
  | rename source target => [source, target]

/-- The answer of an operation that fails. -/
def Operation.failed (f : Fault) : (o : Operation) → o.Answer
  | read _ => .error f
  | create _ | fill .. | rename .. | remove _ | claim _ => .error f

/-- What is read at a spot that has this entry, or none. -/
def Spot.contentOf (s : Spot) : Option Entry → Option ByteArray
  | some (.file content) => if s.endsInSlash then none else some content
  | _ => none

namespace Directory

variable {d d' : Directory} {path q : String} {paths : List String}

/-! ### What paths lead to -/

/-- What a path leads to, if anything is there. -/
def found? (d : Directory) (path : String) : Option Entry :=
  (d.resolve path).toOption.bind fun s => d.find? s.names

/-- What is read at a path. -/
def content? (d : Directory) (path : String) : Option ByteArray := (d.read path).toOption

theorem content?_eq (d : Directory) (path : String) :
    d.content? path = (d.resolve path).toOption.bind fun s => s.contentOf (d.find? s.names) := by
  unfold content? read
  rcases d.resolve path with f | s
  · rfl
  · rcases hfound : d.find? s.names with _ | content | _
    · simp [bind, Except.bind, Except.toOption, hfound, Spot.contentOf, throw, throwThe, MonadExceptOf.throw]
    · cases hslash : s.endsInSlash <;>
        simp [bind, Except.bind, Except.toOption, hfound, hslash, Spot.contentOf, throw, throwThe,
          MonadExceptOf.throw, pure, Except.pure]
    · simp [bind, Except.bind, Except.toOption, hfound, Spot.contentOf, throw, throwThe, MonadExceptOf.throw]

theorem found?_of_resolve {s : Spot} (h : d.resolve path = .ok s) : d.found? path = d.find? s.names := by
  rw [found?, h]
  rfl

theorem content?_of_leads {names : List String} {content : ByteArray} (h : d.Leads path names)
    (hfile : d.find? names = some (.file content)) : d.content? path = some content := by
  rw [content?, read_of_leads h hfile]
  rfl

theorem read_of_content? {content : ByteArray} (h : d.content? path = some content) :
    d.read path = .ok content := by
  unfold Directory.content? at h
  cases hread : d.read path with
  | ok content' =>
    rw [hread] at h
    exact congrArg Except.ok (Option.some.inj h)
  | error f =>
    rw [hread] at h
    cases h

/-- Nothing changes but at the places where these paths lead, and no directory comes or goes. -/
structure OnlyAt (paths : List String) (d d' : Directory) : Prop where
  same : d.SameDirectories d'
  elsewhere : ∀ names, (∀ p ∈ paths, ∀ s, d.resolve p = .ok s → s.names ≠ names) →
    d'.find? names = d.find? names

theorem OnlyAt.refl (paths : List String) (d : Directory) : OnlyAt paths d d :=
  ⟨fun _ => Iff.rfl, fun _ _ => rfl⟩

theorem OnlyAt.mono {paths' : List String} (h : OnlyAt paths d d') (more : paths ⊆ paths') :
    OnlyAt paths' d d' where
  same := h.same
  elsewhere names hnames := h.elsewhere names fun p hp => hnames p (more hp)

theorem onlyAt_put {s : Spot} (hs : d.resolve path = .ok s) (free : d.find? s.names ≠ some .directory)
    (content : ByteArray) : OnlyAt [path] d (d.put s.names (.file content)) where
  same := same_put free content
  elsewhere names hnames := by
    rw [find?_put (not_isAtOrAbove free), if_neg (hnames path List.mem_cons_self s hs).symm]

theorem onlyAt_drop {s : Spot} (hs : d.resolve path = .ok s) (free : d.find? s.names ≠ some .directory) :
    OnlyAt [path] d (d.drop s.names) where
  same := same_drop free
  elsewhere names hnames := by
    rw [find?_drop (not_isAtOrAbove free), if_neg (hnames path List.mem_cons_self s hs).symm]

theorem SameDirectories.toOption_resolve (h : d.SameDirectories d') (path : String) :
    (d'.resolve path).toOption = (d.resolve path).toOption := by
  cases hs : d.resolve path with
  | ok s => rw [resolve_of_same h hs]
  | error f =>
    cases hs' : d'.resolve path with
    | error f' => rfl
    | ok s =>
      rw [resolve_of_same h.symm hs'] at hs
      cases hs

/-- Whatever is made of where a path leads and what is there stays the same. -/
theorem OnlyAt.lookup {α : Type} (h : OnlyAt paths d d') (apart : ∀ p ∈ paths, d.Apart p q)
    (f : Spot → Option Entry → Option α) :
    ((d'.resolve q).toOption.bind fun s => f s (d'.find? s.names)) =
      (d.resolve q).toOption.bind fun s => f s (d.find? s.names) := by
  rw [h.same.toOption_resolve]
  cases hs : d.resolve q with
  | error => rfl
  | ok s =>
    have hfound := h.elsewhere s.names fun p hp t ht => apart p hp t s ht hs
    exact congrArg (f s) hfound

theorem OnlyAt.found? (h : OnlyAt paths d d') (apart : ∀ p ∈ paths, d.Apart p q) :
    d'.found? q = d.found? q := h.lookup apart fun _ e => e

theorem OnlyAt.content? (h : OnlyAt paths d d') (apart : ∀ p ∈ paths, d.Apart p q) :
    d'.content? q = d.content? q := by
  rw [content?_eq, content?_eq, h.lookup apart Spot.contentOf]

theorem OnlyAt.read {content : ByteArray} (h : OnlyAt paths d d') (apart : ∀ p ∈ paths, d.Apart p q)
    (hread : d.read q = .ok content) : d'.read q = .ok content := by
  refine read_of_content? ?_
  rw [h.content? apart, Directory.content?, hread]
  rfl

/-! ### What operations find and leave -/

theorem createNew_eq_ok (h : d.createNew path = .ok d') :
    ∃ s, d.resolve path = .ok s ∧ d.find? s.names = none ∧ d' = d.put s.names (.file .empty) := by
  obtain ⟨⟨names, isNamed, endsInSlash⟩, hs, h⟩ := exists_spot h
  refine ⟨_, hs, ?_⟩
  rcases hfound : d.find? names with _ | e <;> cases isNamed <;> cases endsInSlash <;>
    simp_all [bind, Except.bind, throw, throwThe, MonadExceptOf.throw, pure, Except.pure]

theorem fill_eq_ok {text : String} (h : d.fill path text = .ok d') :
    ∃ s old, d.resolve path = .ok s ∧ d.find? s.names = some (.file old) ∧
      d' = d.put s.names (.file text.toUTF8) := by
  obtain ⟨s, hs, h⟩ := exists_spot h
  rcases hfound : d.find? s.names with _ | old | _ <;>
    simp [hfound, throw, throwThe, MonadExceptOf.throw, pure, Except.pure] at h
  exact ⟨s, old, hs, hfound, h.symm⟩

theorem remove_eq_ok (h : d.remove path = .ok d') :
    ∃ s old, d.resolve path = .ok s ∧ d.find? s.names = some (.file old) ∧ d' = d.drop s.names := by
  obtain ⟨s, hs, h⟩ := exists_spot h
  rcases hfound : d.find? s.names with _ | old | _ <;> cases hslash : s.endsInSlash <;>
    simp [hfound, hslash, throw, throwThe, MonadExceptOf.throw, pure, Except.pure] at h
  exact ⟨s, old, hs, hfound, h.symm⟩

theorem create_eq_ok (h : d.create path = .ok d') :
    ∃ s, d.resolve path = .ok s ∧ d.find? s.names ≠ some .directory ∧
      d' = d.put s.names (.file .empty) := by
  obtain ⟨names, hnames⟩ := leads_of_create h
  rw [create_of_leads hnames] at h
  exact ⟨_, hnames.resolved, hnames.free, (Except.ok.inj h).symm⟩

/-! ### What operations leave alone -/

theorem OnlyAt.trans {d'' : Directory} {paths' : List String} (h : OnlyAt paths d d')
    (h' : OnlyAt paths' d' d'') : OnlyAt (paths ++ paths') d d'' where
  same := h.same.trans h'.same
  elsewhere names hnames := by
    have hfirst := h.elsewhere names fun p hp => hnames p (List.mem_append_left _ hp)
    have hsecond := h'.elsewhere names fun p hp s hs =>
      hnames p (List.mem_append_right _ hp) s (resolve_of_same h.same.symm hs)
    exact hsecond.trans hfirst

theorem onlyAt_changed {r : Except Fault Directory} {answer : Except Fault Unit}
    (h : d.changed r = (answer, d')) (works : r = .ok d' → OnlyAt paths d d') : OnlyAt paths d d' := by
  cases r with
  | ok d₁ =>
    cases h
    exact works rfl
  | error f =>
    cases h
    exact .refl paths d

theorem not_directory {names : List String} {content : ByteArray}
    (h : d.find? names = some (.file content)) : d.find? names ≠ some .directory := by
  rw [h]
  nofun

theorem onlyAt_rename {source target : String} (h : d.rename source target = .ok d') :
    OnlyAt [source, target] d d' := by
  obtain ⟨s, t, content, hs, ht, hfound, rfl⟩ := rename_eq_ok h
  have hdropped := onlyAt_drop hs (not_directory hfound)
  have hleads := ht.of_same hdropped.same
  exact hdropped.trans (onlyAt_put hleads.resolved hleads.free content)

theorem onlyAt_saved {source target : String} {draft names : List String} (hdraft : d.Leads source draft)
    (hnames : d.Leads target names) (text : String) :
    OnlyAt [source, target] d (d.saved draft names text) where
  same := same_saved hdraft.free hnames.free text
  elsewhere names' hne := by
    have hne₁ : names' ≠ draft := (hne source (by simp) _ hdraft.resolved).symm
    have hne₂ : names' ≠ names := (hne target (by simp) _ hnames.resolved).symm
    simp only [saved, drafted, find?_put (not_isAtOrAbove hdraft.free),
      find?_put (not_isAtOrAbove hnames.free), find?_drop (not_isAtOrAbove hdraft.free), if_neg hne₁,
      if_neg hne₂]

theorem perform_claim {answer : Except Fault Unit}
    (h : d.perform (.claim path) = some (answer, d')) :
    d.changed (d.createNew path) = (answer, d') := by
  cases hnew : d.createNew path with
  | ok d₁ =>
    simp only [perform, hnew] at h
    exact Option.some.inj h
  | error f =>
    cases f <;> simp only [perform, hnew, reduceCtorEq] at h
    all_goals exact Option.some.inj h

theorem claim_of_leads {names : List String} (h : d.Leads path names) (hnone : d.find? names = none) :
    d.perform (.claim path) = some (.ok (), d.put names (.file .empty)) := by
  simp [perform, createNew, h.resolved, hnone, changed, bind, Except.bind, pure, Except.pure]

/-- **An operation changes nothing but at the paths that it names.** -/
theorem onlyAt_perform {o : Operation} {answer : o.Answer} (h : d.perform o = some (answer, d')) :
    OnlyAt o.changes d d' := by
  cases o with
  | read path =>
    cases h
    exact .refl [] d
  | create path =>
    refine onlyAt_changed (Option.some.inj h) fun h => ?_
    obtain ⟨s, hs, free, rfl⟩ := create_eq_ok h
    exact onlyAt_put hs free .empty
  | fill path text =>
    refine onlyAt_changed (Option.some.inj h) fun h => ?_
    obtain ⟨s, old, hs, hfound, rfl⟩ := fill_eq_ok h
    exact onlyAt_put hs (not_directory hfound) text.toUTF8
  | rename source target => exact onlyAt_changed (Option.some.inj h) onlyAt_rename
  | remove path =>
    refine onlyAt_changed (Option.some.inj h) fun h => ?_
    obtain ⟨s, old, hs, hfound, rfl⟩ := remove_eq_ok h
    exact onlyAt_drop hs (not_directory hfound)
  | claim path =>
    refine onlyAt_changed (perform_claim h) fun h => ?_
    obtain ⟨s, hs, hfound, rfl⟩ := createNew_eq_ok h
    exact onlyAt_put hs (by simp [hfound]) .empty

theorem changed_eq_ok {r : Except Fault Directory} (h : d.changed r = (.ok (), d')) : r = .ok d' := by
  cases r with
  | ok d₁ =>
    cases h
    rfl
  | error f => cases h

theorem changed_eq_error {r : Except Fault Directory} {f : Fault} (h : d.changed r = (.error f, d')) :
    d' = d := by
  cases r with
  | ok d₁ => cases h
  | error f =>
    cases h
    rfl

/-! ### Operations that may fail -/

/-- What can come of an operation. It is performed, or fails without having changed anything; a
file that was to be filled may also be left with any content at all. -/
inductive Happens (d : Directory) : (o : Operation) → o.Answer → Directory → Prop where
  | performed {o : Operation} {answer : o.Answer} {d' : Directory} :
      d.perform o = some (answer, d') → Happens d o answer d'
  | failed (o : Operation) (f : Fault) : Happens d o (o.failed f) d
  | torn {path text : String} {s : Spot} {old : ByteArray} (content : ByteArray) (f : Fault) :
      d.resolve path = .ok s → d.find? s.names = some (.file old) →
      Happens d (.fill path text) (.error f) (d.put s.names (.file content))

namespace Happens

theorem onlyAt {o : Operation} {answer : o.Answer} (h : d.Happens o answer d') :
    OnlyAt o.changes d d' := by
  cases h with
  | performed h => exact onlyAt_perform h
  | failed => exact .refl o.changes d
  | torn content f hs hfound => exact onlyAt_put hs (not_directory hfound) content

theorem read {answer : Except Fault ByteArray} (h : d.Happens (.read path) answer d') : d' = d := by
  cases h with
  | performed h =>
    cases h
    rfl
  | failed => rfl

theorem content?_of_read {content : ByteArray} (h : d.Happens (.read path) (.ok content) d') :
    d.content? path = some content := by
  cases h with
  | performed h =>
    have hread : d.read path = .ok content := congrArg Prod.fst (Option.some.inj h)
    rw [content?, hread]
    rfl

/-- Where a claim succeeds there was nothing, and now there is something. -/
theorem claimed (h : d.Happens (.claim path) (.ok ()) d') :
    d.found? path = none ∧ (d'.found? path).isSome = true := by
  have honly := h.onlyAt
  cases h with
  | performed h =>
    obtain ⟨s, hs, hfound, rfl⟩ := createNew_eq_ok (changed_eq_ok (perform_claim h))
    have free : d.find? s.names ≠ some .directory := by simp [hfound]
    have hs' := resolve_of_same honly.same hs
    rw [found?_of_resolve hs, found?_of_resolve hs', find?_put (not_isAtOrAbove free), if_pos rfl]
    exact ⟨hfound, rfl⟩

theorem unclaimed {f : Fault} (h : d.Happens (.claim path) (.error f) d') : d' = d := by
  cases h with
  | performed h => exact changed_eq_error (perform_claim h)
  | failed => rfl

theorem filled {text : String} (h : d.Happens (.fill path text) (.ok ()) d') :
    d'.found? path = some (.file text.toUTF8) := by
  have honly := h.onlyAt
  cases h with
  | performed h =>
    obtain ⟨s, old, hs, hfound, rfl⟩ := fill_eq_ok (changed_eq_ok (Option.some.inj h))
    rw [found?_of_resolve (resolve_of_same honly.same hs),
      find?_put (not_isAtOrAbove (not_directory hfound)), if_pos rfl]

/-- A file that gets another name is read under that name. -/
theorem renamed {target : String} {content : ByteArray}
    (h : d.Happens (.rename path target) (.ok ()) d') (source : d.found? path = some (.file content)) :
    d'.content? target = some content := by
  have honly := h.onlyAt
  cases h with
  | performed h =>
    obtain ⟨s, t, moved, hs, ht, hfound, rfl⟩ := rename_eq_ok (changed_eq_ok (Option.some.inj h))
    rw [found?_of_resolve hs, hfound] at source
    cases source
    exact content?_of_leads (ht.of_same honly.same) (ht.find?_put _ _)

theorem unrenamed {target : String} {f : Fault} (h : d.Happens (.rename path target) (.error f) d') :
    d' = d := by
  cases h with
  | performed h => exact changed_eq_error (Option.some.inj h)
  | failed => rfl

end Happens

end Directory

end FleetJobs.Files
