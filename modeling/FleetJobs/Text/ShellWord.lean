/-! Words of a command line, as a POSIX shell splits it.

`quote` writes any text as one word: texts made of characters that mean nothing
to the shell stand as they are, all others go between single quotes, where only
the quote itself needs an escape. `split` reads a line back into words; a
character that is special to the shell outside quotes has no place in a line. -/
namespace FleetJobs.Text.ShellWord

/-- Characters that stand for themselves anywhere in a word. -/
def isPlain (c : Char) : Bool :=
  c.isAlphanum || "_-./=@:,+%".toList.contains c

/-- The inside of a single-quoted text: a quote closes, stands escaped, and opens again. -/
def quoteInner : List Char → List Char
  | [] => []
  | '\'' :: rest => '\'' :: '\\' :: '\'' :: '\'' :: quoteInner rest
  | c :: rest => c :: quoteInner rest

def quoteChars (cs : List Char) : List Char :=
  if !cs.isEmpty && cs.all isPlain then cs else '\'' :: (quoteInner cs ++ ['\''])

/-- The text as one word of a command line. -/
def quote (s : String) : String := String.ofList (quoteChars s.toList)

/-- Characters that mean something to the shell when they stand unquoted. -/
def isSpecial (c : Char) : Bool :=
  "|&;<>()$`\"*?[]#~!^\x7b\x7d\n\x00".toList.contains c

/-- Where a line stands between two characters: between words, in a word, or in a
single-quoted part of one. The word so far is kept in reverse. -/
inductive Place where
  | gap
  | word (soFar : List Char)
  | quotation (soFar : List Char)

/-- The words of a line, or none if it has an unquoted special character, an open
quotation or a backslash with nothing after it. A backslash makes the next character
stand for itself, but takes the end of a line away. -/
def splitFrom : Place → List Char → Option (List (List Char))
  | .gap, [] => some []
  | .word w, [] => some [w.reverse]
  | .quotation _, [] => none
  | .quotation w, c :: rest =>
    if c = '\'' then splitFrom (.word w) rest else splitFrom (.quotation (c :: w)) rest
  | .gap, '\\' :: c :: rest => if c = '\n' then splitFrom .gap rest else splitFrom (.word [c]) rest
  | .word w, '\\' :: c :: rest =>
    if c = '\n' then splitFrom (.word w) rest else splitFrom (.word (c :: w)) rest
  | .gap, c :: rest =>
    if c = ' ' ∨ c = '\t' then splitFrom .gap rest
    else if c = '\'' then splitFrom (.quotation []) rest
    else if isSpecial c || c == '\\' then none
    else splitFrom (.word [c]) rest
  | .word w, c :: rest =>
    if c = ' ' ∨ c = '\t' then (splitFrom .gap rest).map (w.reverse :: ·)
    else if c = '\'' then splitFrom (.quotation w) rest
    else if isSpecial c || c == '\\' then none
    else splitFrom (.word (c :: w)) rest

def split (line : String) : Option (List String) :=
  (splitFrom .gap line.toList).map (·.map String.ofList)

end FleetJobs.Text.ShellWord
