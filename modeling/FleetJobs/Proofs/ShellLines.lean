import FleetJobs.Command.Line

/-! What a shell makes of a command line.

A shell takes words out of a line in three places: between words, in a word and in a
quotation. The lemmas follow a quoted word through these places, so that a line of quoted
words is split into the same words again, whatever they hold (`split_lineOf`). The name of
the agent is not quoted; if nothing in it means anything to the shell it is one word too.
`lines_carry_their_words` says so of every line that is sent to a host. -/
namespace FleetJobs

namespace Text.ShellWord

/-! ### Characters that stand for themselves -/

theorem isPlain_eq_false_of_isSpecial {c : Char} (h : isSpecial c = true) : isPlain c = false := by
  have hc : c ∈ "|&;<>()$`\"*?[]#~!^\x7b\x7d\n\x00".toList := List.contains_iff_mem.mp h
  have plain : ∀ d ∈ "|&;<>()$`\"*?[]#~!^\x7b\x7d\n\x00".toList, ¬ isPlain d = true :=
    List.any_eq_false.mp (by decide)
  exact Bool.eq_false_iff.mpr (plain c hc)

/-- A character that stands for itself does not move the shell out of a word. -/
theorem isPlain_ordinary {c : Char} (h : isPlain c = true) :
    ¬ (c = ' ' ∨ c = '\t') ∧ c ≠ '\'' ∧ (isSpecial c || c == '\\') = false ∧ c ≠ '\\' := by
  have other : ∀ d ∈ [' ', '\t', '\'', '\\'], c ≠ d := by
    intro d hd hcd
    have plain : ∀ d ∈ [' ', '\t', '\'', '\\'], ¬ isPlain d = true :=
      List.any_eq_false.mp (by decide)
    rw [hcd] at h
    exact plain d hd h
  have hspecial : isSpecial c = false := by
    cases hs : isSpecial c
    · rfl
    · rw [isPlain_eq_false_of_isSpecial hs] at h
      cases h
  have hbackslash : c ≠ '\\' := other _ (by simp)
  refine ⟨not_or.mpr ⟨other _ (by simp), other _ (by simp)⟩, other _ (by simp), ?_, hbackslash⟩
  simp [hspecial, hbackslash]

variable {c : Char} {w cs rest : List Char}

theorem splitFrom_gap_plain (h : isPlain c = true) :
    splitFrom .gap (c :: rest) = splitFrom (.word [c]) rest := by
  obtain ⟨hblank, hquote, hspecial, hbackslash⟩ := isPlain_ordinary h
  rw [splitFrom]
  · simp [hblank, hquote, hspecial]
  · exact fun _ _ hc => absurd hc hbackslash

theorem splitFrom_word_plain (h : isPlain c = true) :
    splitFrom (.word w) (c :: rest) = splitFrom (.word (c :: w)) rest := by
  obtain ⟨hblank, hquote, hspecial, hbackslash⟩ := isPlain_ordinary h
  rw [splitFrom]
  · simp [hblank, hquote, hspecial]
  · exact fun _ _ hc => absurd hc hbackslash

/-! ### Quoted words -/

theorem splitFrom_plains (h : ∀ c ∈ cs, isPlain c = true) :
    splitFrom (.word w) (cs ++ rest) = splitFrom (.word (cs.reverse ++ w)) rest := by
  induction cs generalizing w with
  | nil => rfl
  | cons c cs ih =>
    obtain ⟨hc, hcs⟩ := List.forall_mem_cons.mp h
    rw [List.cons_append, splitFrom_word_plain hc, ih hcs, List.reverse_cons, List.append_assoc]
    rfl

/-- A quotation goes on to its last quote, past the escaped ones. -/
theorem splitFrom_quoteInner :
    splitFrom (.quotation w) (quoteInner cs ++ '\'' :: rest) =
      splitFrom (.word (cs.reverse ++ w)) rest := by
  induction cs using quoteInner.induct generalizing w with
  | case1 => rfl
  | case2 cs ih =>
    -- close, take the escaped quote into the word, open again
    have hreopen : splitFrom (.quotation w) (quoteInner ('\'' :: cs) ++ '\'' :: rest) =
        splitFrom (.quotation ('\'' :: w)) (quoteInner cs ++ '\'' :: rest) := rfl
    rw [hreopen, ih, List.reverse_cons, List.append_assoc]
    rfl
  | case3 c cs hc ih =>
    have hinner : quoteInner (c :: cs) = c :: quoteInner cs := by
      rw [quoteInner]
      exact hc
    rw [hinner, List.cons_append, splitFrom, if_neg hc, ih, List.reverse_cons, List.append_assoc]
    rfl

/-- A word made of characters that stand for themselves. -/
theorem splitFrom_gap_plains (hne : cs ≠ []) (h : ∀ c ∈ cs, isPlain c = true) :
    splitFrom .gap (cs ++ rest) = splitFrom (.word cs.reverse) rest := by
  obtain ⟨c, cs, rfl⟩ := List.exists_cons_of_ne_nil hne
  obtain ⟨hc, hcs⟩ := List.forall_mem_cons.mp h
  rw [List.cons_append, splitFrom_gap_plain hc, splitFrom_plains hcs, List.reverse_cons]

/-- **A quoted text is one word, and the same text.** -/
theorem splitFrom_quoteChars (cs rest : List Char) :
    splitFrom .gap (quoteChars cs ++ rest) = splitFrom (.word cs.reverse) rest := by
  unfold quoteChars
  split
  · rename_i h
    rw [Bool.and_eq_true, List.all_eq_true] at h
    exact splitFrom_gap_plains (by simpa using h.1) h.2
  · have hopen : splitFrom .gap ('\'' :: (quoteInner cs ++ ['\'']) ++ rest) =
        splitFrom (.quotation []) (quoteInner cs ++ '\'' :: rest) := by
      rw [List.cons_append, List.append_assoc]
      rfl
    rw [hopen, splitFrom_quoteInner, List.append_nil]

/-! ### Lines -/

/-- A blank ends a word. -/
theorem splitFrom_word_blank :
    splitFrom (.word w) (' ' :: rest) = (splitFrom .gap rest).map (w.reverse :: ·) := rfl

theorem splitFrom_quoteChars_words (words : List (List Char)) :
    splitFrom .gap ([' '].intercalate (words.map quoteChars)) = some words := by
  induction words with
  | nil => rfl
  | cons w words ih =>
    cases words with
    | nil =>
      have hend := splitFrom_quoteChars w []
      rw [List.append_nil] at hend
      rw [List.map_singleton, List.intercalate_singleton, hend]
      simp [splitFrom]
    | cons w' words =>
      rw [List.map_cons, List.map_cons, List.intercalate_cons_cons, List.append_assoc,
        splitFrom_quoteChars, List.singleton_append, splitFrom_word_blank, ← List.map_cons, ih,
        List.reverse_reverse]
      rfl

theorem split_quote (s : String) : split (quote s) = some [s] := by
  have hword := splitFrom_quoteChars_words [s.toList]
  rw [List.map_singleton, List.intercalate_singleton] at hword
  simp [split, quote, hword]

end Text.ShellWord

namespace Command

open FleetJobs.Text

theorem toList_lineOf (words : List String) :
    (lineOf words).toList =
      [' '].intercalate ((words.map String.toList).map ShellWord.quoteChars) := by
  simp [lineOf, String.toList_intercalate, ShellWord.quote, Function.comp_def]

/-- **A line is split into the words that it was made of.** -/
theorem split_lineOf (words : List String) : ShellWord.split (lineOf words) = some words := by
  unfold ShellWord.split
  rw [toList_lineOf, ShellWord.splitFrom_quoteChars_words]
  simp

/-- The name of an agent comes before the words of a request. -/
theorem AgentRequest.split_line {agent : String} (named : agent ≠ "")
    (plain : ∀ c ∈ agent.toList, ShellWord.isPlain c = true) (r : AgentRequest) :
    ShellWord.split (r.line agent) = some (agent :: r.words) := by
  have hne : agent.toList ≠ [] := by simpa using named
  have hrest := split_lineOf r.words
  unfold ShellWord.split at hrest ⊢
  rw [Option.map_eq_some_iff] at hrest
  obtain ⟨words, hwords, hrest⟩ := hrest
  have hline : (r.line agent).toList = agent.toList ++ ' ' :: (lineOf r.words).toList := by
    simp [AgentRequest.line]
  rw [hline, ShellWord.splitFrom_gap_plains hne plain, ShellWord.splitFrom_word_blank, hwords]
  simp [← hrest]

/-- The words of a request tell what was asked. -/
theorem AgentRequest.words_injective {r r' : AgentRequest} (h : r.words = r'.words) : r = r' := by
  cases r with
  | configureHa device label primary mountPoint =>
    cases r' with
    | configureHa device' label' primary' mountPoint' =>
      -- the flag makes the list longer, so it is there in both or in neither
      cases primary <;> cases primary' <;> simp_all [words]
    | _ => simp [words] at h
  | _ => cases r' <;> simp_all [words]

/-- To set a parameter takes other words than to delete one. -/
theorem directiveWords_some_ne_none (key value key' : String) :
    directiveWords key (some value) ≠ directiveWords key' none := by
  simp [directiveWords]

end Command

open FleetJobs.Command
open FleetJobs.Text.ShellWord (isPlain quote split)

/-- **A shell takes out of every line what was put into it.** A quoted text is one word. A
line for an agent whose name stands for itself is the name, the subcommand, the flags and
the arguments, each one word and the same text, so no two requests have one line. A line
that sets a parameter tells the key and the value in one word, one that deletes it the key,
and neither is ever taken for the other. -/
theorem lines_carry_their_words :
    (∀ text, split (quote text) = some [text]) ∧
    (∀ agent : String, agent ≠ "" → (∀ c ∈ agent.toList, isPlain c = true) →
      (∀ uuid, split ((AgentRequest.locateDevice uuid).line agent) =
        some [agent, "locate-device", "--uuid", uuid]) ∧
      (∀ args, split ((AgentRequest.formatTarget args).line agent) =
        some [agent, "format-target", "--args", args]) ∧
      (∀ label, split ((AgentRequest.startTarget label).line agent) =
        some [agent, "start-target", "--label", label]) ∧
      (∀ label, split ((AgentRequest.stopTarget label).line agent) =
        some [agent, "stop-target", "--label", label]) ∧
      (∀ device mountPoint, split ((AgentRequest.registerTarget device mountPoint).line agent) =
        some [agent, "register-target", "--device", device, "--mountpoint", mountPoint]) ∧
      (∀ device label primary mountPoint,
        split ((AgentRequest.configureHa device label primary mountPoint).line agent) =
          some ([agent, "configure-ha", "--device", device, "--label", label] ++
            (if primary then ["--primary"] else []) ++ ["--mountpoint", mountPoint])) ∧
      ∀ r r' : AgentRequest, r.line agent = r'.line agent → r = r') ∧
    (∀ key value, split (directive key (some value)) =
      some ["lctl", "conf_param", key ++ "=" ++ value]) ∧
    (∀ key, split (directive key none) = some ["lctl", "conf_param", "-d", key]) ∧
    ∀ key value key', directive key (some value) ≠ directive key' none := by
  refine ⟨Text.ShellWord.split_quote, fun agent named plain => ?_, fun _ _ => split_lineOf _,
    fun _ => split_lineOf _, fun key value key' h => ?_⟩
  · have requests := AgentRequest.split_line named plain
    refine ⟨fun _ => requests _, fun _ => requests _, fun _ => requests _, fun _ => requests _,
      fun _ _ => requests _, fun _ _ _ _ => requests _, fun r r' h => ?_⟩
    have hwords := requests r
    rw [h, requests r', Option.some.injEq, List.cons.injEq] at hwords
    exact AgentRequest.words_injective hwords.2.symm
  · have hwords := split_lineOf (directiveWords key (some value))
    unfold directive at h
    rw [h, split_lineOf, Option.some.injEq] at hwords
    exact directiveWords_some_ne_none key value key' hwords.symm

/-- A label that holds a quote, a blank and a second command stays one word. -/
theorem hostile_label_is_one_word :
    let agent := "hydra-agent"
    let label := "it's; reboot"
    agent ≠ "" ∧ (∀ c ∈ agent.toList, isPlain c = true) ∧
      (AgentRequest.startTarget label).line agent =
        "hydra-agent start-target --label 'it'\\''s; reboot'" ∧
      split ((AgentRequest.startTarget label).line agent) =
        some [agent, "start-target", "--label", label] := by
  intro agent label
  have named : agent ≠ "" := by decide
  have plain : ∀ c ∈ agent.toList, isPlain c = true := List.all_eq_true.mp (by decide)
  obtain ⟨_, requests, _⟩ := lines_carry_their_words
  exact ⟨named, plain, by decide +kernel, (requests agent named plain).2.2.1 label⟩

end FleetJobs
