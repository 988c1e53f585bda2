import FleetJobs.Proofs.YamlScanner

/-! The tokens of data that was written. -/
namespace FleetJobs.Yaml

open FleetJobs.Data

namespace Scanner

variable {s : Scanner} {cs rest text : List Char} {c : Char} {column : Nat} {allowed : Bool} {top : Int}
  {below stack : List Int} {kinds : List TokenKind}

/-! ### One token -/

theorem dispatch_of_bare (bare : Bare cs) (h : s.rest = cs ++ rest) : s.dispatch = s.plain := by
  have hmarks := opens_of_bare bare h
  obtain ⟨c, ds, rfl, solid, hopens⟩ := bare.head
  have hch : s.ch = c := ch_of_rest h
  have hend : isEnd c = false := by
    have h := solid.not_gapEnd
    simp only [isGapEnd, isBreakEnd, Bool.or_eq_false_iff] at h
    exact h.2.2
  have hpercent : c ≠ '%' := fun heq => by simp [heq, isOpener] at hopens
  have hclear (d : Char) (hd : isIndicatorChar d = true ∨ isOpener d = true) : c ≠ d := by
    rintro rfl
    rcases hd with hd | hd
    · simp [solid.2] at hd
    · simp [hopens] at hd
  simp only [dispatch, hch, hend, hpercent, hmarks, and_false, Bool.false_eq_true, if_false]
  split
  case h_19 => rfl
  all_goals exact absurd rfl (hclear _ (by decide))

theorem Starts.halts (h : Starts cs) : Halts cs := by
  intro c hc
  have hne := h c hc
  simp only [List.mem_cons, not_or] at hne
  simp [isGap, isBreak, hne]

theorem At.plain_before_line {gap : List Char} (h : At s (cs ++ '\n' :: (gap ++ rest)) column allowed
    (top :: below) kinds) (bare : Bare cs) (inside : top ≤ column) (blank : ∀ c ∈ gap, c = ' ')
    (starts : Starts rest) (out : gap.length ≤ top) :
    ∃ t, s.plain = .ok t ∧
      At t rest gap.length true (top :: below) (.scalar true (String.ofList cs) :: kinds) := by
  obtain ⟨hindent, _⟩ := h.indent_eq
  have hinside : s.indent ≤ s.column := by rw [hindent, h.column]; exact inside
  have hout : gap.length ≤ s.indent := by rw [hindent]; exact out
  refine ⟨_, Scanner.plain_before_line bare h.rest blank starts.halts h.calm hinside hout, ?_⟩
  exact ⟨rfl, Nat.zero_add _, rfl, h.stack, congrArg (_ :: ·) h.kinds, congrArg (· + 1) h.count,
    h.calm.saved⟩

theorem At.quotedText (h : At s ('"' :: (cs.flatMap escaped ++ '"' :: text)) column allowed stack kinds) :
    ∃ t column', s.quotedText false = .ok t ∧
      At t text column' false stack (.scalar false (String.ofList cs) :: kinds) :=
  ⟨_, _, quotedText_of_escaped h.rest h.calm, rfl, rfl, rfl, h.stack, congrArg (_ :: ·) h.kinds,
    congrArg (· + 1) h.count, h.calm.saved⟩

theorem Faces.step {column' : Nat} {allowed' : Bool} {stack' : List Int} {kinds' : List TokenKind}
    {t : Scanner} (h : s.Faces rest column allowed stack kinds) (ht : s.front.dispatch = .ok t)
    (hat : At t text column' allowed' stack' kinds') (more : kinds.length < kinds'.length) : Runs s t :=
  h.run ht (hat.length ▸ more)

/-- A text without quotes, up to the end of its line. -/
theorem Faces.plain (h : s.Faces (cs ++ text) column allowed (top :: below) kinds) (bare : Bare cs)
    (inside : top ≤ column) (line : Line top text) :
    ∃ t, Runs s t ∧ Left t text top below (.scalar true (String.ofList cs) :: kinds) := by
  obtain ⟨gap, rest, rfl, blank, starts, hgap⟩ := line
  obtain ⟨t, ht, hat⟩ := h.front.plain_before_line bare inside blank starts hgap
  exact ⟨t, h.step ((dispatch_of_bare bare h.front.rest).trans ht) hat (Nat.lt_succ_self _),
    hat.left_behind (by simp) blank starts⟩

/-- A text in quotes. -/
theorem Faces.quoted (h : s.Faces ('"' :: (cs.flatMap escaped ++ '"' :: text)) column allowed
    (top :: below) kinds) (line : Line top text) :
    ∃ t, Runs s t ∧ Left t text top below (.scalar false (String.ofList cs) :: kinds) := by
  have hch : s.front.ch = '"' := ch_of_rest h.front.rest
  have hdispatch : s.front.dispatch = s.front.quotedText false := by
    simp [dispatch, hch, isEnd, isIndicator]
  obtain ⟨t, _, ht, hat⟩ := h.front.quotedText
  exact ⟨t, h.step (hdispatch.trans ht) hat (Nat.lt_succ_self _), hat.left_before (by simp) line⟩

/-! ### Keys -/

/-- The value that has just ended may be a key: the token it began with, by number, and the
column where it began. -/
def Promises (s : Scanner) (number column : Nat) : Prop :=
  ∃ index, s.keys = [⟨true, false, number, index, ⟨s.line, column⟩⟩] ∧ s.index ≤ index + keyReach

theorem At.plain_before_colon (h : At s (cs ++ ':' :: c :: rest) column true (top :: below) kinds)
    (bare : Bare cs) (inside : top ≤ column) (gap : isGapEnd c = true) (short : cs.length ≤ keyReach) :
    ∃ t, s.plain = .ok t ∧ t.Promises kinds.length column ∧
      At t (':' :: c :: rest) (column + cs.length) false (top :: below)
        (.scalar true (String.ofList cs) :: kinds) := by
  have hinside : s.indent ≤ s.column := by rw [h.indent_eq.1, h.column]; exact inside
  refine ⟨_, Scanner.plain_before_colon bare h.rest gap h.calm hinside, ⟨s.index, ?_, ?_⟩, ?_⟩
  · show s.saved.keys = [⟨true, false, kinds.length, s.index, ⟨s.line, column⟩⟩]
    rw [← h.length, ← h.column, saved, h.allowed]
    rfl
  · exact Nat.add_le_add_left short s.index
  · exact ⟨rfl, congrArg (· + cs.length) h.column, rfl, h.stack, congrArg (_ :: ·) h.kinds,
      congrArg (· + 1) h.count, h.calm.saved⟩

/-- A scanner at a token is where it faces it, if no pending key is stale. -/
theorem front_eq_self (starts : Starts s.rest) (fresh : s.keys.map s.aged = s.keys)
    (inside : s.indent ≤ s.column) : s.front = s := by
  have hsettle : s.settle = s.along [] s.rest := settle_of_gap rfl (fun _ hc => absurd hc List.not_mem_nil) starts
  have hmark : s.settle.mark = s := by
    rw [hsettle, along_nil rfl]
    exact congrArg s.setKeys fresh
  rw [front, hmark, outdent, outdentTo, if_neg fun hclose => absurd hclose.2 (Int.not_lt.mpr inside)]

theorem Promises.fresh {number : Nat} (h : s.Promises number column) : s.keys.map s.aged = s.keys := by
  obtain ⟨index, hkeys, hindex⟩ := h
  have hnear : ¬ index + keyReach < s.index := Nat.not_lt.mpr hindex
  simp [hkeys, aged, hnear]

/-- One character makes a token, and says whether a key may follow. -/
theorem At.mark_token (h : At s (c :: rest) column allowed stack kinds) (line : c ≠ '\n') (next : Bool)
    (kind : TokenKind) (p : Place) :
    At ((s.allowKey next).skip.push kind p) rest (column + 1) next stack (kind :: kinds) := by
  have hskip : (s.allowKey next).skip = (s.allowKey next).along [c] rest := skip_of_rest h.rest line
  rw [hskip]
  exact ⟨rfl, congrArg (· + 1) h.column, rfl, h.stack, congrArg (kind :: ·) h.kinds,
    congrArg (· + 1) h.count, h.calm⟩

theorem At.setTopKey (h : At s rest column allowed stack kinds) {k : PendingKey}
    (free : k.isRequired = false) : At (s.setTopKey k) rest column allowed stack kinds := by
  obtain ⟨outside, k', hk', _⟩ := h.calm
  have hkeys : (s.setTopKey k).keys = [k] := by simp [Scanner.setTopKey, hk']
  exact ⟨h.rest, h.column, h.allowed, h.stack, h.kinds, h.count, outside, k, hkeys, free⟩

/-- A token goes in front of the ones that came after it. -/
theorem At.insertAt {newer : List TokenKind} (h : At s rest column allowed stack (newer ++ kinds)) (t : Token) :
    At (s.insertAt kinds.length t) rest column allowed stack (newer ++ t.kind :: kinds) := by
  have hlater : s.count - kinds.length = newer.length := by rw [h.length, List.length_append]; omega
  refine ⟨h.rest, h.column, h.allowed, h.stack, ?_, ?_, h.calm⟩
  · simp only [Scanner.insertAt, hlater, List.map_append, List.map_take, List.map_cons, List.map_drop, h.kinds,
      List.take_left, List.drop_left]
  · simp only [Scanner.insertAt, List.length_append, List.length_cons, List.length_take,
      List.length_drop, h.count]
    have hlength : s.tokens.length = newer.length + kinds.length := by
      rw [← h.count, h.length, List.length_append]
    omega

section Indentation

variable {inner : Nat}

theorem At.deeper (h : At s rest column allowed (top :: below) kinds) :
    At { s with indents := s.indent :: s.indents, indent := inner } rest column allowed
      (inner :: top :: below) kinds :=
  ⟨h.rest, h.column, h.allowed, congrArg (_ :: ·) h.stack, h.kinds, h.count, h.calm⟩

/-- A list or map opens where a line goes further in, and its token goes where it began. -/
theorem At.indentTo {newer : List TokenKind}
    (h : At s rest column allowed (top :: below) (newer ++ kinds)) (kind : TokenKind) (p : Place) :
    At (s.indentTo inner (some kinds.length) kind p) rest column allowed
      (if top < inner then inner :: top :: below else top :: below)
      (newer ++ (if top < inner then kind :: kinds else kinds)) := by
  obtain ⟨hindent, _⟩ := h.indent_eq
  by_cases hopen : top < inner
  · rw [Scanner.indentTo, if_pos ⟨h.calm.1, hindent ▸ hopen⟩, if_pos hopen, if_pos hopen]
    exact h.deeper.insertAt ⟨kind, p⟩
  · rw [Scanner.indentTo, if_neg fun hboth => hopen (hindent ▸ hboth.2), if_neg hopen, if_neg hopen]
    exact h

theorem At.indentTo_newest (h : At s rest column allowed (top :: below) kinds) (kind : TokenKind)
    (p : Place) :
    At (s.indentTo inner none kind p) rest column allowed
      (if top < inner then inner :: top :: below else top :: below)
      (if top < inner then kind :: kinds else kinds) := by
  obtain ⟨hindent, _⟩ := h.indent_eq
  by_cases hopen : top < inner
  · rw [Scanner.indentTo, if_pos ⟨h.calm.1, hindent ▸ hopen⟩, if_pos hopen, if_pos hopen]
    exact ⟨h.rest, h.column, h.allowed, congrArg (_ :: ·) h.stack, congrArg (kind :: ·) h.kinds,
      congrArg (· + 1) h.count, h.calm⟩
  · rw [Scanner.indentTo, if_neg fun hboth => hopen (hindent ▸ hboth.2), if_neg hopen, if_neg hopen]
    exact h

end Indentation

/-- A colon makes a key of the value before it, and opens a map if that lies further in. -/
theorem At.mapValue {kind : TokenKind} {column' : Nat} (h : At s (':' :: rest) column' allowed (top :: below)
    (kind :: kinds)) (promises : s.Promises kinds.length column) :
    ∃ t, s.mapValue = .ok t ∧
      At t rest (column' + 1) false (if top < column then column :: top :: below else top :: below)
        (.value :: kind :: .key :: (if top < column then .blockMapStart :: kinds else kinds)) := by
  obtain ⟨index, hkeys, _⟩ := promises
  let key : Token := ⟨.key, ⟨s.line, column + 1⟩⟩
  have hkey : At (s.insertAt kinds.length key) (':' :: rest) column' allowed (top :: below)
      ([kind] ++ .key :: kinds) := At.insertAt h key
  have hmap : At ((s.insertAt kinds.length key).indentTo column (some kinds.length) .blockMapStart s.place)
      (':' :: rest) column' allowed (if top < column then column :: top :: below else top :: below)
      ([kind, .key] ++ (if top < column then .blockMapStart :: kinds else kinds)) :=
    At.indentTo (show At _ _ _ _ _ ([kind, .key] ++ kinds) from hkey) .blockMapStart s.place
  have hvalue := (hmap.setTopKey (k := ⟨false, false, kinds.length, index, ⟨s.line, column⟩⟩) rfl).mark_token
    (by decide) false .value s.place
  refine ⟨_, ?_, hvalue⟩
  simp only [Scanner.mapValue, topKey, hkeys, List.headD_cons, if_true]
  rfl

/-- **A key, with the colon behind it.** It opens a map if it lies further in than all before. -/
theorem Faces.key (h : s.Faces (cs ++ ':' :: c :: rest) column true (top :: below) kinds) (bare : Bare cs)
    (inside : top ≤ column) (gap : isGapEnd c = true) (short : cs.length ≤ keyReach) :
    ∃ t, Runs s t ∧ At t (c :: rest) (column + cs.length + 1) false
      (if top < column then column :: top :: below else top :: below)
      (.value :: .scalar true (String.ofList cs) :: .key ::
        (if top < column then .blockMapStart :: kinds else kinds)) := by
  obtain ⟨t, ht, promises, hat⟩ := h.front.plain_before_colon bare inside gap short
  have hstep := h.step ((dispatch_of_bare bare h.front.rest).trans ht) hat (Nat.lt_succ_self _)
  obtain ⟨u, hu, hvalue⟩ := hat.mapValue promises
  have hstarts : Starts t.rest := by
    rw [hat.rest]
    intro d hd
    obtain rfl : ':' = d := Option.some.inj hd
    decide
  have hinside : t.indent ≤ t.column := by
    rw [hat.indent_eq.1, hat.column]
    omega
  have hfront : t.front = t := front_eq_self hstarts promises.fresh hinside
  have hdispatch : t.dispatch = t.mapValue := by
    have hch : t.ch = ':' := ch_of_rest hat.rest
    have hnext : t.at_ 1 = c := at_one_of_rest hat.rest
    simp [dispatch, hch, hnext, gap, isEnd, isIndicator]
  have hfaces : t.Faces (':' :: c :: rest) (column + cs.length) false (top :: below) _ :=
    ⟨hat.calm.free, hat.not_over (by simp), Nat.le_of_eq hat.length, hfront.symm ▸ hat⟩
  refine ⟨u, hstep.trans (hfaces.step (by rw [hfront, hdispatch, hu]) hvalue ?_), hvalue⟩
  split <;> simp

theorem dropKey_of_free (free : s.Free) :
    s.dropKey = .ok (s.setTopKey { s.topKey with isPossible := false }) := by
  have htop : s.topKey.isRequired = false := by
    unfold topKey
    cases hkeys : s.keys with
    | nil => rfl
    | cons k ks => exact free k (hkeys ▸ List.mem_cons_self)
  unfold dropKey
  rw [if_neg (by simp [htop])]

theorem At.dropKey (h : At s rest column allowed stack kinds) :
    ∃ t, s.dropKey = .ok t ∧ At t rest column allowed stack kinds ∧ ∀ k ∈ t.keys, k.isPossible = false := by
  obtain ⟨_, k, hk, hfree⟩ := h.calm
  have htop : s.topKey = k := by rw [topKey, hk]; rfl
  refine ⟨_, dropKey_of_free h.calm.free, h.setTopKey (by rw [htop]; exact hfree), ?_⟩
  simp [Scanner.setTopKey, hk]

/-- **An item's dash.** It opens a list if it lies further in than all before. -/
theorem Faces.item (h : s.Faces ('-' :: ' ' :: rest) column true (top :: below) kinds) :
    ∃ t, Runs s t ∧ At t (' ' :: rest) (column + 1) true
      (if top < column then column :: top :: below else top :: below)
      (.item :: (if top < column then .blockListStart :: kinds else kinds)) := by
  have hfront := h.front
  have hch : s.front.ch = '-' := ch_of_rest hfront.rest
  have hnext : s.front.at_ 1 = ' ' := at_one_of_rest hfront.rest
  have hdispatch : s.front.dispatch = s.front.listItem := by
    simp [dispatch, hch, hnext, isEnd, isIndicator, isGapEnd, isGap]
  obtain ⟨t, ht, hdropped, _⟩ := (hfront.indentTo_newest .blockListStart s.front.place).dropKey
  have hitem := hdropped.mark_token (by decide) true .item t.place
  have hlist : s.front.listItem = .ok ((t.allowKey true).skip.push .item t.place) := by
    rw [listItem, if_neg (by simp [hfront.calm.1]), if_neg (by simp [hfront.allowed]), hfront.column, ht]
    rfl
  refine ⟨_, h.step (hdispatch.trans hlist) hitem ?_, hitem⟩
  rw [List.length_cons]
  split
  · exact Nat.lt_succ_of_lt (Nat.lt_succ_self _)
  · exact Nat.lt_succ_self _

/-! ### Brackets -/

/-- In brackets nothing is closed by indentation. -/
theorem front_of_brackets (starts : Starts s.rest) (inside : s.brackets ≠ 0) : s.front = s.mark := by
  have hsettle : s.settle = s.along [] s.rest := settle_of_gap rfl (fun _ hc => absurd hc List.not_mem_nil) starts
  have hmark : s.settle.mark = s.mark := by rw [hsettle, along_nil rfl]
  rw [front, hmark, outdent, outdentTo, if_neg fun hclose => inside hclose.1]

/-- Where the scanner is inside of one pair of brackets. -/
structure Inside (s : Scanner) (rest : List Char) (stack : List Int) (kinds : List TokenKind) : Prop where
  rest : s.rest = rest
  stack : s.indent :: s.indents = stack
  kinds : s.tokens.map (·.kind) = kinds
  count : s.count = s.tokens.length
  inside : s.brackets = 1
  keys : ∃ k k', s.keys = [k, k'] ∧ k.isRequired = false ∧ k'.isRequired = false

theorem Inside.mark (h : s.Inside rest stack kinds) : s.mark.Inside rest stack kinds := by
  obtain ⟨k, k', hkeys, hk, hk'⟩ := h.keys
  have hmarked : s.mark.keys = [s.aged k, s.aged k'] := congrArg (List.map s.aged) hkeys
  exact ⟨h.rest, h.stack, h.kinds, h.count, h.inside, _, _, hmarked, by rw [isRequired_aged, hk],
    by rw [isRequired_aged, hk']⟩

theorem Inside.free (h : s.Inside rest stack kinds) : s.Free := by
  obtain ⟨k, k', hkeys, hk, hk'⟩ := h.keys
  simp [Free, hkeys, hk, hk']

theorem Inside.length (h : s.Inside rest stack kinds) : s.count = kinds.length := by
  rw [h.count, ← h.kinds, List.length_map]

theorem At.openBracket (h : At s ('[' :: rest) column allowed stack kinds) :
    ∃ t, s.openBracket .listStart = .ok t ∧ t.Inside rest stack (.listStart :: kinds) := by
  obtain ⟨outside, k, hkeys, hk⟩ := h.calm.saved
  let u : Scanner := { s.saved with
    keys := .none :: s.saved.keys, brackets := s.saved.brackets + 1, keyAllowed := true }
  have hskip : u.skip = u.along ['['] rest := skip_of_rest h.rest (by decide)
  have hroom : s.saved.brackets ≠ bracketLimit := by
    rw [outside]
    decide
  refine ⟨u.skip.push .listStart s.saved.place, ?_, ?_⟩
  · rw [Scanner.openBracket, saveKey_of_calm h.calm]
    simp only [bind, Except.bind, if_neg hroom]
    rfl
  · rw [hskip]
    exact ⟨rfl, h.stack, congrArg (_ :: ·) h.kinds, congrArg (· + 1) h.count, congrArg (· + 1) outside,
      _, _, congrArg (_ :: ·) hkeys, rfl, hk⟩

theorem Inside.closeBracket (h : s.Inside (']' :: rest) stack kinds) :
    ∃ t column, s.closeBracket .listEnd = .ok t ∧ At t rest column false stack (.listEnd :: kinds) := by
  obtain ⟨k, k', hkeys, _, hk'⟩ := h.keys
  let u : Scanner := { s with keys := [k'], brackets := 0 }
  have hskip : (u.allowKey false).skip = (u.allowKey false).along [']'] rest := skip_of_rest h.rest (by decide)
  refine ⟨(u.allowKey false).skip.push .listEnd u.place, s.column + 1, ?_, ?_⟩
  · rw [Scanner.closeBracket, dropKey_of_free h.free]
    simp only [bind, Except.bind, setTopKey, hkeys, List.drop_one, List.tail_cons, h.inside, Nat.one_pos, if_true]
    rfl
  · rw [hskip]
    exact ⟨rfl, rfl, rfl, h.stack, congrArg (_ :: ·) h.kinds, congrArg (· + 1) h.count, rfl, k', rfl, hk'⟩

/-- An empty list. -/
theorem Faces.emptyList (h : s.Faces ('[' :: ']' :: text) column allowed (top :: below) kinds)
    (line : Line top text) :
    ∃ t, Runs s t ∧ Left t text top below (.listEnd :: .listStart :: kinds) := by
  have hch : s.front.ch = '[' := ch_of_rest h.front.rest
  have hdispatch : s.front.dispatch = s.front.openBracket .listStart := by
    simp [dispatch, hch, isEnd, isIndicator]
  obtain ⟨u, hu, hinside⟩ := h.front.openBracket
  have hopen : Runs s u := by
    refine h.run (hdispatch.trans hu) ?_
    rw [hinside.length]
    exact Nat.lt_succ_self _
  have hfront : u.front = u.mark := by
    refine front_of_brackets ?_ (by rw [hinside.inside]; decide)
    rw [hinside.rest]
    intro d hd
    obtain rfl : ']' = d := Option.some.inj hd
    decide
  have hclose : u.mark.dispatch = u.mark.closeBracket .listEnd := by
    have hch : u.mark.ch = ']' := ch_of_rest hinside.rest
    simp [dispatch, hch, isEnd, isIndicator]
  obtain ⟨t, _, ht, hat⟩ := hinside.mark.closeBracket
  have hgoes : ¬ u.IsOver := by
    rintro ⟨p, tokens, hover⟩
    have hkinds := hinside.kinds
    rw [hover] at hkinds
    cases hkinds
  refine ⟨t, hopen.trans (.one hinside.free hgoes ?_ ?_), hat.left_before (by simp) line⟩
  · rw [next_of_free hinside.free, hfront, hclose, ht]
  · rw [hat.length, hinside.length]
    exact Nat.lt_succ_self _

end Scanner

end FleetJobs.Yaml
