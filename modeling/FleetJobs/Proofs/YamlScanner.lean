import FleetJobs.Proofs.YamlScalars

/-! The course of the scanner.

The scanner is asked for tokens one by one, and before each is given out it looks whether
pending keys have become stale. That it looks makes no difference to what it does next
(`next_mark`), so its course is told by `next` alone (`Runs`), and a course that ends the
stream gives out all tokens (`giveOut_of_runs`). What `next` does is told in two parts:
where the next token begins and what has been closed by then (`front`), and the token
itself (`dispatch`). -/
namespace FleetJobs.Yaml

open FleetJobs.Data

namespace Scanner

variable {s t : Scanner} {fuel given : Nat}

/-! ### Pending keys -/

def setKeys (s : Scanner) (keys : List PendingKey) : Scanner := { s with keys }

section SetKeys

variable (s) (ks : List PendingKey)

theorem skip_setKeys : (s.setKeys ks).skip = s.skip.setKeys ks := by
  obtain ⟨rest, _⟩ := s
  rcases rest with _ | ⟨c, rest⟩
  · rfl
  · by_cases hc : c = '\n'
    · subst hc
      rfl
    · simp [skip, setKeys]

theorem skipMany_setKeys (n : Nat) : skipMany n (s.setKeys ks) = (skipMany n s).setKeys ks := by
  induction n generalizing s with
  | zero => rfl
  | succ n ih => rw [skipMany, skip_setKeys, ih, skipMany]

theorem skipBreak_setKeys : (s.setKeys ks).skipBreak = s.skipBreak.setKeys ks := by
  simp only [skipBreak, skip_setKeys, show (s.setKeys ks).ch = s.ch from rfl,
    show (s.setKeys ks).at_ 1 = s.at_ 1 from rfl]
  split
  · rfl
  · split <;> rfl

theorem skipToToken_setKeys (fuel : Nat) :
    skipToToken fuel (s.setKeys ks) = (skipToToken fuel s).setKeys ks := by
  induction fuel generalizing s with
  | zero => rfl
  | succ fuel ih =>
    have hbreak : (s.setKeys ks).skipToBreak = s.skipToBreak.setKeys ks := skipMany_setKeys s ks _
    have hallow (u : Scanner) (b : Bool) : (u.setKeys ks).allowKey b = (u.allowKey b).setKeys ks := rfl
    have hbrackets (u : Scanner) : (u.setKeys ks).brackets = u.brackets := rfl
    have hline : (if s.skipBreak.brackets = 0 then (s.skipBreak.allowKey true).setKeys ks
        else s.skipBreak.setKeys ks) =
        (if s.skipBreak.brackets = 0 then s.skipBreak.allowKey true else s.skipBreak).setKeys ks := by
      split <;> rfl
    simp only [skipToToken, show (s.setKeys ks).ch = s.ch from rfl, skip_setKeys, skipBreak_setKeys,
      hbreak, hallow, hbrackets, hline, ih, show (s.setKeys ks).keyAllowed = s.keyAllowed from rfl]
    split
    · rfl
    · split <;> rfl
    · rfl
    · rfl
    · rfl
    · rfl

end SetKeys

/-- Not before another place of the text. -/
def Onward (s t : Scanner) : Prop := s.line ≤ t.line ∧ s.index ≤ t.index

theorem Onward.refl (s : Scanner) : s.Onward s := ⟨Nat.le_refl _, Nat.le_refl _⟩

theorem Onward.trans {u : Scanner} (h : s.Onward t) (h' : t.Onward u) : s.Onward u :=
  ⟨Nat.le_trans h.1 h'.1, Nat.le_trans h.2 h'.2⟩

theorem onward_skip (s : Scanner) : s.Onward s.skip := by
  unfold skip
  split
  · exact .refl s
  · exact ⟨Nat.le_succ _, Nat.le_succ _⟩
  · exact ⟨Nat.le_refl _, Nat.le_succ _⟩

theorem onward_skipMany (s : Scanner) (n : Nat) : s.Onward (skipMany n s) := by
  induction n generalizing s with
  | zero => exact .refl s
  | succ n ih => exact (onward_skip s).trans (ih s.skip)

theorem onward_skipBreak (s : Scanner) : s.Onward s.skipBreak := by
  unfold skipBreak
  split
  · exact (onward_skip s).trans (onward_skip s.skip)
  · split
    · exact onward_skip s
    · exact .refl s

theorem onward_skipToToken (s : Scanner) (fuel : Nat) : s.Onward (skipToToken fuel s) := by
  induction fuel generalizing s with
  | zero => exact .refl s
  | succ fuel ih =>
    have hbreak : s.Onward (skipToToken fuel
        (if s.skipBreak.brackets = 0 then s.skipBreak.allowKey true else s.skipBreak)) := by
      refine (onward_skipBreak s).trans (.trans ?_ (ih _))
      split
      · exact ⟨Nat.le_refl _, Nat.le_refl _⟩
      · exact .refl _
    unfold skipToToken
    split
    · exact (onward_skip s).trans (ih s.skip)
    · split
      · exact (onward_skip s).trans (ih s.skip)
      · exact .refl s
    · exact hbreak
    · exact hbreak
    · exact (onward_skipMany s _).trans (ih s.skipToBreak)
    · exact .refl s

/-- A pending key on an earlier line or too far behind is a key no more. -/
def aged (s : Scanner) (k : PendingKey) : PendingKey :=
  if k.isPossible && (decide (k.place.line < s.line) || decide (k.index + keyReach < s.index)) then
    { k with isPossible := false }
  else k

/-- With the stale keys marked. -/
def mark (s : Scanner) : Scanner := s.setKeys (s.keys.map s.aged)

/-- No pending value has to become a key. -/
def Free (s : Scanner) : Prop := ∀ k ∈ s.keys, k.isRequired = false

theorem isRequired_aged (s : Scanner) (k : PendingKey) : (s.aged k).isRequired = k.isRequired := by
  unfold aged
  split <;> rfl

theorem Free.mark (free : s.Free) : s.mark.Free := by
  intro k hk
  obtain ⟨k', hk', rfl⟩ := List.mem_map.mp hk
  rw [isRequired_aged, free k' hk']

theorem staleKeys_of_free (free : s.Free) : s.staleKeys = .ok s.mark := by
  unfold staleKeys
  rw [if_neg]
  · rfl
  · simp only [List.any_eq_true, not_exists, not_and]
    intro k hk
    simp [free k hk]

/-- A key that was stale before is stale now. -/
theorem aged_aged (h : s.Onward t) (k : PendingKey) : t.aged (s.aged k) = t.aged k := by
  obtain ⟨hline, hindex⟩ := h
  unfold aged
  by_cases hpossible : k.isPossible
  · by_cases hstale : k.place.line < s.line ∨ k.index + keyReach < s.index
    · have hlater : k.place.line < t.line ∨ k.index + keyReach < t.index := by omega
      simp [hpossible, hstale, hlater]
    · simp [hstale]
  · simp [hpossible]

theorem map_aged (h : s.Onward t) (ks : List PendingKey) : (ks.map s.aged).map t.aged = ks.map t.aged := by
  rw [List.map_map]
  exact List.map_congr_left fun k _ => aged_aged h k

theorem mark_mark (s : Scanner) : s.mark.mark = s.mark :=
  congrArg s.setKeys (map_aged (.refl s) s.keys)

/-! ### The next token -/

/-- Where the next token begins. -/
def settle (s : Scanner) : Scanner := skipToToken (s.rest.length + 1) s

theorem settle_setKeys (s : Scanner) (ks : List PendingKey) :
    (s.setKeys ks).settle = s.settle.setKeys ks := skipToToken_setKeys s ks _

theorem keys_settle (s : Scanner) : s.settle.keys = s.keys := by
  have h : s.settle = s.settle.setKeys s.keys := settle_setKeys s s.keys
  rw [h]
  rfl

theorem settle_mark (s : Scanner) : s.mark.settle.mark = s.settle.mark := by
  have h := settle_setKeys s (s.keys.map s.aged)
  have honward : s.Onward s.settle := onward_skipToToken s _
  rw [show s.mark = s.setKeys (s.keys.map s.aged) from rfl, h]
  show s.settle.setKeys ((s.keys.map s.aged).map s.settle.aged) = s.settle.setKeys (s.settle.keys.map _)
  rw [map_aged honward, keys_settle]

/-- Before the next token, with all closed that lies further in. -/
def front (s : Scanner) : Scanner := s.settle.mark.outdent s.settle.mark.column

/-- The token that begins here. -/
def dispatch (s : Scanner) : Scan Scanner :=
  let c := s.ch
  let n := s.at_ 1
  let inBrackets := decide (0 < s.brackets)
  if isEnd c then s.streamEnd
  else if s.column = 0 ∧ c = '%' then s.directive
  else if s.isIndicator '-' then s.indicator .documentStart
  else if s.isIndicator '.' then s.indicator .documentEnd
  else
    match c with
    | '[' => s.openBracket .listStart
    | '\x7b' => s.openBracket .mapStart
    | ']' => s.closeBracket .listEnd
    | '\x7d' => s.closeBracket .mapEnd
    | ',' => s.comma
    | '*' => s.anchor true
    | '&' => s.anchor false
    | '!' => s.tag
    | '\'' => s.quotedText true
    | '"' => s.quotedText false
    | '-' => if isGapEnd n then s.listItem else s.plain
    | '?' =>
      if isGapEnd n then s.markedKey
      else s.plain
    | ':' =>
      if isGapEnd n || (inBrackets && (isBracket n || s.index == s.touchingAt)) then s.mapValue
      else s.plain
    | '|' => if inBrackets then s.plain else s.block true
    | '>' => if inBrackets then s.plain else s.block false
    | '%' | '@' | '\x60' => .error (.unexpectedCharacter c, s.place)
    | _ => s.plain

theorem Free.settle (free : s.Free) : s.settle.Free := by
  unfold Free
  rw [keys_settle]
  exact free

theorem next_of_free (free : s.Free) : s.next = s.front.dispatch := by
  change (s.settle.staleKeys >>= fun t => (t.outdent t.column).dispatch) = _
  rw [staleKeys_of_free free.settle]
  rfl

/-- To mark stale keys makes no difference to the next token. -/
theorem next_mark (free : s.Free) : s.mark.next = s.next := by
  rw [next_of_free free, next_of_free free.mark, front, front, settle_mark]

/-! ### All tokens -/

/-- The newest token ends the stream. -/
def IsOver (s : Scanner) : Prop := ∃ p rest, s.tokens = ⟨.streamEnd, p⟩ :: rest

/-- Token after token, until the stream ends. -/
inductive Runs : Scanner → Scanner → Prop
  | refl (s : Scanner) : Runs s s
  | step {s t u : Scanner} (free : s.Free) (goes : ¬ s.IsOver) (next : s.next = .ok t)
    (more : s.count < t.count) (rest : Runs t u) : Runs s u

theorem Runs.trans {u : Scanner} (h : Runs s t) (h' : Runs t u) : Runs s u := by
  induction h with
  | refl => exact h'
  | step free goes next more _ ih => exact .step free goes next more (ih h')

theorem Runs.one (free : s.Free) (goes : ¬ s.IsOver) (next : s.next = .ok t) (more : s.count < t.count) :
    Runs s t := .step free goes next more (.refl t)

theorem Runs.count_le (h : Runs s t) : s.count ≤ t.count := by
  induction h with
  | refl => exact Nat.le_refl _
  | step _ _ _ more _ ih => omega

/-- With all given out, the scanner goes on unless the stream is over. -/
theorem giveOut_of_all (hall : s.count = given) (goes : ¬ s.IsOver) (next : s.next = .ok t) :
    giveOut (fuel + 1) given s = giveOut fuel given t := by
  rw [giveOut, if_pos hall]
  split
  · rename_i p rest heq
    exact absurd ⟨p, rest, heq⟩ goes
  · rw [next]

/-- It also goes on while the token that is due could still get a key before it. -/
theorem giveOut_of_open (free : s.Free) (hsome : s.count ≠ given) (isOpen : s.mark.isOpen given = true)
    (next : s.next = .ok t) : giveOut (fuel + 1) given s = giveOut fuel given t := by
  rw [giveOut, if_neg hsome, staleKeys_of_free free]
  simp only [isOpen, if_true, next_mark free, next]

theorem giveOut_of_settled (free : s.Free) (hsome : s.count ≠ given)
    (settled : s.mark.isOpen given = false) :
    giveOut (fuel + 1) given s = giveOut fuel (given + 1) s.mark := by
  rw [giveOut, if_neg hsome, staleKeys_of_free free]
  simp [settled]

/-- The scanner is the other one, but for keys that are marked in it as stale. -/
structure MarkedFrom (m s : Scanner) : Prop where
  count : m.count = s.count
  tokens : m.tokens = s.tokens
  mark : m.mark = s.mark
  free : s.Free → m.Free
  next : s.Free → m.next = s.next

theorem MarkedFrom.refl (s : Scanner) : s.MarkedFrom s := ⟨rfl, rfl, rfl, id, fun _ => rfl⟩

theorem MarkedFrom.again {m : Scanner} (h : m.MarkedFrom s) : m.mark.MarkedFrom s where
  count := h.count
  tokens := h.tokens
  mark := (mark_mark m).trans h.mark
  free hs := (h.free hs).mark
  next hs := (next_mark (h.free hs)).trans (h.next hs)

/-- **A course that ends the stream gives out its tokens**, whatever was given out before. -/
theorem giveOut_of_runs (h : Runs s t) (ended : t.IsOver) (free : t.Free)
    (settled : ∀ k ∈ t.keys, k.isPossible = false) (hgiven : given ≤ s.count)
    (enough : (t.count - given) + (t.count - s.count) < fuel) {m : Scanner} (hm : m.MarkedFrom s) :
    ∃ u, giveOut fuel given m = (t.count, u, none) ∧ u.tokens = t.tokens := by
  induction fuel generalizing s given m with
  | zero => exact absurd enough (Nat.not_lt_zero _)
  | succ fuel ih =>
    have hle := h.count_le
    have hcount := hm.count
    cases h with
    | refl =>
      have hsettled : m.mark.isOpen given = false := by
        refine List.any_eq_false.mpr fun k hk => ?_
        obtain ⟨k', hk', rfl⟩ := List.mem_map.mp (hm.mark ▸ hk)
        simp [aged, settled k' hk']
      by_cases hall : m.count = given
      · obtain ⟨p, rest, heq⟩ := ended
        have hover : m.tokens = ⟨.streamEnd, p⟩ :: rest := hm.tokens.trans heq
        exact ⟨m, by rw [giveOut, if_pos hall, hover, ← hall, hcount], hm.tokens⟩
      · rw [giveOut_of_settled (hm.free free) hall hsettled]
        exact ih (.refl t) (by omega) (by omega) hm.again
    | @step _ s' _ sfree goes next more rest =>
      have hle' := rest.count_le
      have hgoes : ¬ m.IsOver := by rwa [IsOver, hm.tokens]
      have hnext : m.next = .ok s' := (hm.next sfree).trans next
      by_cases hall : m.count = given
      · rw [giveOut_of_all hall hgoes hnext]
        exact ih rest (by omega) (by omega) (.refl s')
      · cases hopen : m.mark.isOpen given with
        | true =>
          rw [giveOut_of_open (hm.free sfree) hall hopen hnext]
          exact ih rest (by omega) (by omega) (.refl s')
        | false =>
          rw [giveOut_of_settled (hm.free sfree) hall hopen]
          exact ih (.step sfree goes next more rest) (by omega) (by omega) hm.again

/-! ### Outside of brackets -/

/-- Where the scanner is: what is left, the column, whether a key may stand here, the columns
of the lists and maps that are open, innermost first, and the tokens, newest first. -/
structure At (s : Scanner) (rest : List Char) (column : Nat) (allowed : Bool) (stack : List Int)
    (kinds : List TokenKind) : Prop where
  rest : s.rest = rest
  column : s.column = column
  allowed : s.keyAllowed = allowed
  stack : s.indent :: s.indents = stack
  kinds : s.tokens.map (·.kind) = kinds
  count : s.count = s.tokens.length
  calm : s.Calm

variable {rest text : List Char} {column : Nat} {allowed : Bool} {top : Int} {below stack opened : List Int}
  {kinds : List TokenKind}

theorem Calm.free (calm : s.Calm) : s.Free := by
  obtain ⟨_, k, hk, hfree⟩ := calm
  intro k' hk'
  rw [hk, List.mem_singleton] at hk'
  rwa [hk']

theorem Calm.mark (calm : s.Calm) : s.mark.Calm := by
  obtain ⟨outside, k, hk, hfree⟩ := calm
  refine ⟨outside, s.aged k, ?_, (isRequired_aged s k).trans hfree⟩
  show s.keys.map s.aged = _
  rw [hk]
  rfl

theorem Calm.saved (calm : s.Calm) : s.saved.Calm := by
  obtain ⟨outside, k, hk, hfree⟩ := calm
  refine ⟨outside, ?_⟩
  cases hallowed : s.keyAllowed with
  | true => exact ⟨_, by simp [Scanner.saved, hallowed]; rfl, rfl⟩
  | false => exact ⟨k, by simp [Scanner.saved, hallowed, hk], hfree⟩

theorem At.mark (h : At s rest column allowed stack kinds) : At s.mark rest column allowed stack kinds :=
  ⟨h.rest, h.column, h.allowed, h.stack, h.kinds, h.count, h.calm.mark⟩

theorem At.indent_eq (h : At s rest column allowed (top :: below) kinds) :
    s.indent = top ∧ s.indents = below := List.cons.inj h.stack

/-- What lies further in than a column is closed there. -/
theorem At.outdentTo (h : At s rest column allowed (opened ++ top :: below) kinds) {limit : Int}
    (inside : ∀ i ∈ opened, limit < i) (outside : top ≤ limit) (enough : opened.length < fuel) :
    At (outdentTo limit fuel s) rest column allowed (top :: below)
      (List.replicate opened.length .blockEnd ++ kinds) := by
  obtain ⟨fuel, rfl⟩ := Nat.exists_eq_add_one_of_ne_zero (Nat.ne_of_gt (Nat.zero_lt_of_lt enough))
  induction opened generalizing s kinds fuel with
  | nil =>
    have hindent : ¬ limit < s.indent := by
      rw [h.indent_eq.1]
      omega
    rw [Scanner.outdentTo, if_neg fun hclose => hindent hclose.2]
    exact h
  | cons i opened ih =>
    obtain ⟨hi, hinside⟩ := List.forall_mem_cons.mp inside
    obtain ⟨hindent, hindents⟩ := List.cons.inj h.stack
    have hclose : s.brackets = 0 ∧ limit < s.indent := ⟨h.calm.1, hindent ▸ hi⟩
    rw [Scanner.outdentTo, if_pos hclose]
    obtain ⟨fuel, rfl⟩ := Nat.exists_eq_add_one_of_ne_zero (show fuel ≠ 0 from
      Nat.ne_of_gt (Nat.zero_lt_of_lt (Nat.lt_of_succ_lt_succ enough)))
    have hnext : At { s.push .blockEnd s.place with
        indent := s.indents.headD (-1), indents := s.indents.drop 1 } rest column allowed
        (opened ++ top :: below) (.blockEnd :: kinds) := by
      refine ⟨h.rest, h.column, h.allowed, ?_, ?_, congrArg (· + 1) h.count, h.calm⟩
      · rw [hindents]
        cases opened <;> rfl
      · rw [← h.kinds]
        rfl
    have hrest := ih hnext hinside fuel (Nat.lt_of_succ_lt_succ enough)
    rw [List.length_cons, List.replicate_succ', List.append_assoc]
    exact hrest

theorem At.outdent (h : At s rest column allowed (opened ++ top :: below) kinds) {limit : Int}
    (inside : ∀ i ∈ opened, limit < i) (outside : top ≤ limit) :
    At (s.outdent limit) rest column allowed (top :: below)
      (List.replicate opened.length .blockEnd ++ kinds) := by
  refine h.outdentTo inside outside ?_
  have hlength := congrArg List.length h.stack
  simp only [List.length_cons, List.length_append] at hlength
  omega

/-- What is left begins with a token. -/
def Starts (cs : List Char) : Prop := ∀ c ∈ cs.head?, c ∉ [' ', '\t', '\n', '\r', '#']

theorem skipToToken_of_gap {gap : List Char} (h : s.rest = gap ++ rest) (blank : ∀ c ∈ gap, c = ' ')
    (starts : Starts rest) (enough : gap.length < fuel) : skipToToken fuel s = s.along gap rest := by
  obtain ⟨fuel, rfl⟩ := Nat.exists_eq_add_one_of_ne_zero (Nat.ne_of_gt (Nat.zero_lt_of_lt enough))
  induction gap generalizing s fuel with
  | nil =>
    have hs : s.along [] rest = s := along_nil h
    rw [hs]
    have hch : s.ch ∉ [' ', '\t', '\n', '\r', '#'] := by
      cases rest with
      | nil => simp [ch, at_, show s.rest = [] from h]
      | cons c rest => exact (ch_of_rest h).symm ▸ starts c rfl
    simp only [List.mem_cons, not_or] at hch
    unfold skipToToken
    split <;> simp_all
  | cons c gap ih =>
    obtain ⟨rfl, hblank⟩ := List.forall_mem_cons.mp blank
    obtain ⟨fuel, rfl⟩ := Nat.exists_eq_add_one_of_ne_zero (show fuel ≠ 0 from
      Nat.ne_of_gt (Nat.zero_lt_of_lt (Nat.lt_of_succ_lt_succ enough)))
    have hch : s.ch = ' ' := ch_of_rest h
    have hskip : s.skip = s.along [' '] (gap ++ rest) := skip_of_rest h (by decide)
    rw [skipToToken, hch]
    simp only [hskip]
    rw [ih rfl hblank fuel (Nat.lt_of_succ_lt_succ enough), along_cons]

theorem settle_of_gap {gap : List Char} (h : s.rest = gap ++ rest) (blank : ∀ c ∈ gap, c = ' ')
    (starts : Starts rest) : s.settle = s.along gap rest := by
  refine skipToToken_of_gap h blank starts ?_
  rw [h, List.length_append]
  omega

/-- Behind a line break a key may stand. -/
theorem settle_of_line {gap : List Char} (h : s.rest = '\n' :: (gap ++ rest))
    (blank : ∀ c ∈ gap, c = ' ') (starts : Starts rest) (outside : s.brackets = 0) :
    s.settle = ((s.below (gap ++ rest)).allowKey true).along gap rest := by
  have hch : s.ch = '\n' := ch_of_rest h
  have hbrackets : (s.below (gap ++ rest)).brackets = 0 := outside
  have hgap : skipToToken (gap ++ rest).length.succ ((s.below (gap ++ rest)).allowKey true) = _ :=
    skipToToken_of_gap rfl blank starts (by rw [List.length_append]; omega)
  rw [settle, h, List.length_cons, skipToToken, hch]
  simp only [skipBreak_of_rest h, hbrackets, if_true]
  exact hgap

/-- What the scanner faces: the next token, with all before it behind. -/
structure Faces (s : Scanner) (rest : List Char) (column : Nat) (allowed : Bool) (stack : List Int)
    (kinds : List TokenKind) : Prop where
  free : s.Free
  goes : ¬ s.IsOver
  count : s.count ≤ kinds.length
  front : At s.front rest column allowed stack kinds

theorem At.length (h : At s rest column allowed stack kinds) : s.count = kinds.length := by
  rw [h.count, ← h.kinds, List.length_map]

theorem Faces.run (h : s.Faces rest column allowed stack kinds) (ht : s.front.dispatch = .ok t)
    (more : kinds.length < t.count) : Runs s t :=
  .one h.free h.goes ((next_of_free h.free).trans ht) (Nat.lt_of_le_of_lt h.count more)

theorem At.not_over (h : At s rest column allowed stack kinds) (goes : kinds.head? ≠ some .streamEnd) :
    ¬ s.IsOver := by
  rintro ⟨p, tokens, hover⟩
  refine goes ?_
  rw [← h.kinds, hover]
  rfl

/-- Blanks are passed on the way to the next token. -/
theorem At.faces {gap : List Char} (h : At s (gap ++ rest) column allowed (top :: below) kinds)
    (goes : kinds.head? ≠ some .streamEnd) (blank : ∀ c ∈ gap, c = ' ') (starts : Starts rest)
    (inside : top ≤ (column + gap.length : Nat)) :
    s.Faces rest (column + gap.length) allowed (top :: below) kinds := by
  have hsettle : s.settle = s.along gap rest := settle_of_gap h.rest blank starts
  have hat : At s.settle.mark rest (column + gap.length) allowed ([] ++ top :: below) kinds := by
    rw [hsettle]
    exact At.mark ⟨rfl, congrArg (· + gap.length) h.column, h.allowed, h.stack, h.kinds, h.count, h.calm⟩
  refine ⟨h.calm.free, h.not_over goes, Nat.le_of_eq h.length, ?_⟩
  rw [front, hat.column]
  exact hat.outdent (fun _ hi => absurd hi List.not_mem_nil) inside

/-- So is a line break, with the indentation behind it. -/
theorem At.faces_line {gap : List Char} (h : At s ('\n' :: (gap ++ rest)) column allowed (top :: below) kinds)
    (goes : kinds.head? ≠ some .streamEnd) (blank : ∀ c ∈ gap, c = ' ') (starts : Starts rest)
    (inside : top ≤ (gap.length : Nat)) : s.Faces rest gap.length true (top :: below) kinds := by
  have hsettle := settle_of_line h.rest blank starts h.calm.1
  have hat : At s.settle.mark rest gap.length true ([] ++ top :: below) kinds := by
    rw [hsettle]
    exact At.mark ⟨rfl, Nat.zero_add _, rfl, h.stack, h.kinds, h.count, h.calm⟩
  refine ⟨h.calm.free, h.not_over goes, Nat.le_of_eq h.length, ?_⟩
  rw [front, hat.column]
  exact hat.outdent (fun _ hi => absurd hi List.not_mem_nil) inside

/-! ### Lines -/

/-- What follows a line break and the indentation behind it. -/
def lineOf (text : List Char) : List Char := (text.drop 1).dropWhile (· == ' ')

def indentOf (text : List Char) : Nat := ((text.drop 1).takeWhile (· == ' ')).length

theorem Starts.ne_blank {c : Char} {cs : List Char} (h : Starts (c :: cs)) : c ≠ ' ' := by
  rintro rfl
  exact h ' ' rfl List.mem_cons_self

section Line

variable {gap : List Char}

theorem lineOf_line (blank : ∀ c ∈ gap, c = ' ') (starts : Starts rest) :
    lineOf ('\n' :: (gap ++ rest)) = rest := by
  have hgap : ∀ c ∈ gap, (c == ' ') = true := by simpa using blank
  show (gap ++ rest).dropWhile _ = rest
  rw [List.dropWhile_append_of_pos hgap]
  cases rest with
  | nil => rfl
  | cons c rest => exact List.dropWhile_cons_of_neg (by simpa using starts.ne_blank)

theorem indentOf_line (blank : ∀ c ∈ gap, c = ' ') (starts : Starts rest) :
    indentOf ('\n' :: (gap ++ rest)) = gap.length := by
  have hgap : ∀ c ∈ gap, (c == ' ') = true := by simpa using blank
  show ((gap ++ rest).takeWhile _).length = gap.length
  rw [List.takeWhile_append_of_pos hgap]
  cases rest with
  | nil => simp
  | cons c rest => rw [List.takeWhile_cons_of_neg (by simpa using starts.ne_blank), List.append_nil]

/-- A line break, and a line that begins no further in than a column. -/
def Line (limit : Int) (text : List Char) : Prop :=
  ∃ gap rest, text = '\n' :: (gap ++ rest) ∧ (∀ c ∈ gap, c = ' ') ∧ Starts rest ∧
    (gap.length : Int) ≤ limit

theorem Line.mono {limit limit' : Int} (h : Line limit text) (le : limit ≤ limit') : Line limit' text := by
  obtain ⟨gap, rest, heq, blank, starts, inside⟩ := h
  exact ⟨gap, rest, heq, blank, starts, Int.le_trans inside le⟩

end Line

/-- A value is left behind: the scanner is before the line break that follows it or somewhere
behind that, and the lists and maps that the value left open are closed before the next token. -/
structure Left (s : Scanner) (text : List Char) (top : Int) (below : List Int) (kinds : List TokenKind) :
    Prop where
  free : s.Free
  goes : ¬ s.IsOver
  count : s.count ≤ kinds.length
  settled : ∃ opened inner, At s.settle (lineOf text) (indentOf text) true (opened ++ top :: below) inner ∧
    (∀ i ∈ opened, top < i) ∧ kinds = List.replicate opened.length .blockEnd ++ inner

theorem At.left_before (h : At s text column allowed (top :: below) kinds)
    (goes : kinds.head? ≠ some .streamEnd) {limit : Int} (line : Line limit text) :
    Left s text top below kinds := by
  obtain ⟨gap, rest, rfl, blank, starts, _⟩ := line
  refine ⟨h.calm.free, h.not_over goes, Nat.le_of_eq h.length, [], kinds, ?_,
    fun _ hi => absurd hi List.not_mem_nil, rfl⟩
  rw [settle_of_line h.rest blank starts h.calm.1, lineOf_line blank starts, indentOf_line blank starts]
  exact ⟨rfl, Nat.zero_add _, rfl, h.stack, h.kinds, h.count, h.calm⟩

theorem At.left_behind {gap : List Char} (h : At s rest gap.length true (top :: below) kinds)
    (goes : kinds.head? ≠ some .streamEnd) (blank : ∀ c ∈ gap, c = ' ') (starts : Starts rest) :
    Left s ('\n' :: (gap ++ rest)) top below kinds := by
  refine ⟨h.calm.free, h.not_over goes, Nat.le_of_eq h.length, [], kinds, ?_,
    fun _ hi => absurd hi List.not_mem_nil, rfl⟩
  have hsettle : s.settle = s.along [] rest :=
    settle_of_gap h.rest (fun _ hc => absurd hc List.not_mem_nil) starts
  rw [hsettle, along_nil h.rest, lineOf_line blank starts, indentOf_line blank starts]
  exact h

/-- The next line of the list or map that a value is in. -/
theorem Left.faces {gap : List Char} (h : Left s ('\n' :: (gap ++ rest)) top below kinds)
    (blank : ∀ c ∈ gap, c = ' ') (starts : Starts rest) (inside : (gap.length : Int) = top) :
    s.Faces rest gap.length true (top :: below) kinds := by
  obtain ⟨free, goes, count, opened, inner, hat, hopened, rfl⟩ := h
  rw [lineOf_line blank starts, indentOf_line blank starts] at hat
  refine ⟨free, goes, count, ?_⟩
  rw [front, hat.mark.column]
  exact hat.mark.outdent (fun i hi => inside ▸ hopened i hi) (Int.le_of_eq inside.symm)

/-- The list or map that a value is in ends with it. -/
theorem Left.close {inner : Int} (h : Left s text inner (top :: below) kinds) (inside : top < inner) :
    Left s text top below (.blockEnd :: kinds) := by
  obtain ⟨free, goes, count, opened, own, hat, hopened, rfl⟩ := h
  refine ⟨free, goes, Nat.le_succ_of_le count, opened ++ [inner], own, ?_, ?_, ?_⟩
  · rwa [List.append_assoc]
  · intro i hi
    rcases List.mem_append.mp hi with hi | hi
    · exact Int.lt_trans inside (hopened i hi)
    · rwa [List.mem_singleton.mp hi]
  · rw [List.length_append, List.length_singleton, List.replicate_succ, List.cons_append]

end Scanner

end FleetJobs.Yaml
