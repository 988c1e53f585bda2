import FleetJobs.Yaml.Scalar

/-! The tokens of a YAML text.

Structure that a text shows by indentation alone becomes tokens of its own: a list or
map opens where a line goes further in and closes where one goes back out. Whether a
value is a key is known only at the colon after it; until then the place where a key
token would go is kept (`PendingKey`), and the colon fills it in. -/
namespace FleetJobs.Yaml

open FleetJobs.Data

/-- How a text fails to be YAML. -/
inductive Flaw where
  | keyWithoutColon
  | keyExpected
  | unexpectedCharacter (c : Char)
  | directiveEnd
  | directiveName
  | directiveNameEnd
  | versionPoint
  | versionTooLong
  | versionMissing
  | tagDirectiveEnd
  | tagClosing
  | tagEnd
  | tagMark
  | tagDirectiveMark
  | tagName
  | tagEscape
  | tagLeadingOctet
  | tagTrailingOctet
  | tagCharacter
  | anchorName
  | tooManyBrackets
  | itemNotAllowed
  | itemInBrackets
  | zeroIndentation
  | blockHeader
  | blockTab
  | quotedIndicator
  | quotedEnd
  | quotedEscape
  | quotedDigits
  | quotedCharacter
  | plainTab
  | keyNotAllowed
  | valueNotAllowed
  | documentStart
  | unknownAnchor
  | nodeExpected
  | mapKeyExpected
  | mapCommaExpected
  | listCommaExpected
  | itemExpected
  deriving DecidableEq, Repr

def Flaw.message : Flaw → String
  | keyWithoutColon => "simple key expect ':'"
  | keyExpected => "simple key expected"
  | unexpectedCharacter c => "unexpected character: `" ++ String.singleton c ++ "'"
  | directiveEnd => "while scanning a directive, did not find expected comment or line break"
  | directiveName => "while scanning a directive, could not find expected directive name"
  | directiveNameEnd => "while scanning a directive, found unexpected non-alphabetical character"
  | versionPoint => "while scanning a YAML directive, did not find expected digit or '.' character"
  | versionTooLong => "while scanning a YAML directive, found extremely long version number"
  | versionMissing => "while scanning a YAML directive, did not find expected version number"
  | tagDirectiveEnd => "while scanning TAG, did not find expected whitespace or line break"
  | tagClosing => "while scanning a tag, did not find the expected '>'"
  | tagEnd => "while scanning a tag, did not find expected whitespace or line break"
  | tagMark => "while scanning a tag, did not find expected '!'"
  | tagDirectiveMark => "while parsing a tag directive, did not find expected '!'"
  | tagName => "while parsing a tag, did not find expected tag URI"
  | tagEscape => "while parsing a tag, did not find URI escaped octet"
  | tagLeadingOctet => "while parsing a tag, found an incorrect leading UTF-8 octet"
  | tagTrailingOctet => "while parsing a tag, found an incorrect trailing UTF-8 octet"
  | tagCharacter => "while parsing a tag, found an invalid UTF-8 codepoint"
  | anchorName =>
    "while scanning an anchor or alias, did not find expected alphabetic or numeric character"
  | tooManyBrackets => "recursion limit exceeded"
  | itemNotAllowed => "block sequence entries are not allowed in this context"
  | itemInBrackets => "\"-\" is only valid inside a block"
  | zeroIndentation =>
    "while scanning a block scalar, found an indentation indicator equal to 0"
  | blockHeader => "while scanning a block scalar, did not find expected comment or line break"
  | blockTab =>
    "while scanning a block scalar, found a tab character where an indentation space is expected"
  | quotedIndicator => "while scanning a quoted scalar, found unexpected document indicator"
  | quotedEnd => "while scanning a quoted scalar, found unexpected end of stream"
  | quotedEscape => "while parsing a quoted scalar, found unknown escape character"
  | quotedDigits => "while parsing a quoted scalar, did not find expected hexadecimal number"
  | quotedCharacter =>
    "while parsing a quoted scalar, found invalid Unicode character escape code"
  | plainTab => "while scanning a plain scalar, found a tab"
  | keyNotAllowed => "mapping keys are not allowed in this context"
  | valueNotAllowed => "mapping values are not allowed in this context"
  | documentStart => "did not find expected <document start>"
  | unknownAnchor => "while parsing node, found unknown anchor"
  | nodeExpected => "while parsing a node, did not find expected node content"
  | mapKeyExpected => "while parsing a block mapping, did not find expected key"
  | mapCommaExpected => "while parsing a flow mapping, did not find expected ',' or '\x7d'"
  | listCommaExpected => "while parsing a flow sequence, expectd ',' or ']'"
  | itemExpected => "while parsing a block collection, did not find expected '-' indicator"

inductive TokenKind where
  | streamEnd
  | directive
  | documentStart
  | documentEnd
  | blockListStart
  | blockMapStart
  | blockEnd
  | listStart
  | listEnd
  | mapStart
  | mapEnd
  | item
  | comma
  | key
  | value
  | alias (name : String)
  | anchor (name : String)
  | tag (tag : Tag)
  | scalar (isPlain : Bool) (text : String)
  | broken (cause : Flaw)
  deriving DecidableEq, Repr

structure Token where
  kind : TokenKind
  place : Place
  deriving DecidableEq, Repr

/-- A value that may turn out to be a key: the token it starts with, by number, and
where it stands. A required key must be followed by a colon. -/
structure PendingKey where
  isPossible : Bool
  isRequired : Bool
  number : Nat
  index : Nat
  place : Place

def PendingKey.none : PendingKey := ⟨false, false, 0, 0, ⟨0, 0⟩⟩

/-- A text being split into tokens. Places count columns from zero here. `tokens` has
the newest first; `keys` has one pending key for every open bracket and one outside. -/
structure Scanner where
  rest : List Char
  index : Nat
  line : Nat
  column : Nat
  tokens : List Token
  count : Nat
  keyAllowed : Bool
  keys : List PendingKey
  indent : Int
  indents : List Int
  brackets : Nat
  /-- Where a colon may touch the value after it, behind a quoted key in brackets. -/
  touchingAt : Nat

namespace Scanner

def ofText (s : String) : Scanner :=
  ⟨s.toList, 0, 1, 0, [], 0, true, [.none], -1, [], 0, 0⟩

/-- The character `k` after the next; a text ends like one that has a zero there. -/
def at_ (s : Scanner) (k : Nat) : Char := (s.rest[k]?).getD '\x00'

def ch (s : Scanner) : Char := s.at_ 0

def isEnd (c : Char) : Bool := c == '\x00'
def isBreak (c : Char) : Bool := c == '\n' || c == '\r'
def isBreakEnd (c : Char) : Bool := isBreak c || isEnd c
def isGap (c : Char) : Bool := c == ' ' || c == '\t'
def isGapEnd (c : Char) : Bool := isGap c || isBreakEnd c
def isNameChar (c : Char) : Bool := c.isAlphanum || c == '_' || c == '-'
def isBracket (c : Char) : Bool := [',', '[', ']', '\x7b', '\x7d'].contains c

/-- Places in messages count columns from one. -/
def place (s : Scanner) : Place := ⟨s.line, s.column + 1⟩

def skip (s : Scanner) : Scanner :=
  match s.rest with
  | [] => s
  | '\n' :: rest => { s with rest, index := s.index + 1, line := s.line + 1, column := 0 }
  | _ :: rest => { s with rest, index := s.index + 1, column := s.column + 1 }

def skipMany : Nat → Scanner → Scanner
  | 0, s => s
  | n + 1, s => skipMany n s.skip

/-- Past a line break, in any of its spellings. -/
def skipBreak (s : Scanner) : Scanner :=
  if s.ch = '\r' ∧ s.at_ 1 = '\n' then s.skip.skip
  else if isBreak s.ch then s.skip
  else s

/-- Past all characters of a kind. -/
def skipWhile (p : Char → Bool) (s : Scanner) : Scanner :=
  skipMany (s.rest.takeWhile p).length s

def skipGaps (s : Scanner) : Scanner := s.skipWhile isGap

def skipToBreak (s : Scanner) : Scanner := s.skipWhile fun c => !isBreakEnd c

/-- Past a comment, if there is one. -/
def skipComment (s : Scanner) : Scanner := if s.ch = '#' then s.skipToBreak else s

abbrev Scan := Except (Flaw × Place)

def push (s : Scanner) (kind : TokenKind) (p : Place) : Scanner :=
  { s with tokens := ⟨kind, p⟩ :: s.tokens, count := s.count + 1 }

/-- Puts a token in front of the one with this number. -/
def insertAt (s : Scanner) (number : Nat) (t : Token) : Scanner :=
  let later := s.count - number
  { s with tokens := s.tokens.take later ++ t :: s.tokens.drop later, count := s.count + 1 }

def allowKey (s : Scanner) (allowed : Bool) : Scanner := { s with keyAllowed := allowed }

def topKey (s : Scanner) : PendingKey := s.keys.headD .none

def setTopKey (s : Scanner) (k : PendingKey) : Scanner := { s with keys := k :: s.keys.drop 1 }

/-- The value that was pending is no key. -/
def dropKey (s : Scanner) : Scan Scanner :=
  let k := s.topKey
  if k.isPossible && k.isRequired then .error (.keyExpected, s.place)
  else .ok (s.setTopKey { k with isPossible := false })

/-- The next value may be a key. -/
def saveKey (s : Scanner) : Scan Scanner :=
  if s.keyAllowed then do
    let t ← s.dropKey
    .ok (t.setTopKey
      ⟨true, decide (0 < s.brackets) && s.indent == (s.column : Int), s.count, s.index,
        ⟨s.line, s.column⟩⟩)
  else .ok s

/-- How far behind a pending key may lie. -/
def keyReach : Nat := 1024

/-- Pending keys that lie on an earlier line or too far behind are keys no more. -/
def staleKeys (s : Scanner) : Scan Scanner := do
  let isStale (k : PendingKey) : Bool :=
    k.isPossible && (decide (k.place.line < s.line) || decide (k.index + keyReach < s.index))
  if s.keys.any fun k => isStale k && k.isRequired then .error (.keyWithoutColon, s.place)
  else
    .ok { s with keys := s.keys.map fun k => if isStale k then { k with isPossible := false } else k }

/-- Opens a list or map if the column lies further in than all before. -/
def indentTo (s : Scanner) (column : Nat) (number : Option Nat) (kind : TokenKind) (p : Place) : Scanner :=
  if s.brackets = 0 ∧ s.indent < column then
    let s := { s with indents := s.indent :: s.indents, indent := column }
    match number with
    | some n => s.insertAt n ⟨kind, p⟩
    | none => s.push kind p
  else s

/-- Closes the lists and maps that lie further in than the column. -/
def outdentTo (column : Int) : Nat → Scanner → Scanner
  | 0, s => s
  | fuel + 1, s =>
    if s.brackets = 0 ∧ column < s.indent then
      outdentTo column fuel
        { s.push .blockEnd s.place with indent := s.indents.headD (-1), indents := s.indents.drop 1 }
    else s

def outdent (s : Scanner) (column : Int) : Scanner := outdentTo column (s.indents.length + 1) s

/-- Past blanks, comments and line breaks. A tab may not stand where a key may. -/
def skipToToken : Nat → Scanner → Scanner
  | 0, s => s
  | fuel + 1, s =>
    match s.ch with
    | ' ' => skipToToken fuel s.skip
    | '\t' => if 0 < s.brackets ∨ !s.keyAllowed then skipToToken fuel s.skip else s
    | '\n' | '\r' =>
      let s := s.skipBreak
      skipToToken fuel (if s.brackets = 0 then s.allowKey true else s)
    | '#' => skipToToken fuel s.skipToBreak
    | _ => s

/-! ### Directives -/

def versionNumber (start : Place) (s : Scanner) : Scan Scanner :=
  let n := (s.rest.takeWhile Char.isDigit).length
  if 9 < n then .error (.versionTooLong, start)
  else if n = 0 then .error (.versionMissing, start)
  else .ok (skipMany n s)

def versionDirective (start : Place) (s : Scanner) : Scan Scanner := do
  let s ← versionNumber start s.skipGaps
  if s.ch ≠ '.' then .error (.versionPoint, start)
  else versionNumber start s.skip

/-- The owner of a tag: a mark, letters, and perhaps another mark. -/
def tagHandle (isDirective : Bool) (start : Place) (s : Scanner) : Scan (String × Scanner) :=
  if s.ch ≠ '!' then .error (.tagMark, start)
  else
    let s := s.skip
    let name := s.rest.takeWhile isNameChar
    let s := skipMany name.length s
    if s.ch = '!' then .ok (String.ofList ('!' :: name ++ ['!']), s.skip)
    else if isDirective && !name.isEmpty then .error (.tagDirectiveMark, start)
    else .ok (String.ofList ('!' :: name), s)

def isTagChar (c : Char) : Bool := isNameChar c || ";/?:@&=+$,.!~*'()[]%".toList.contains c

/-- Octets of one escaped character: its width comes with the first. -/
def tagEscape (start : Place) : Nat → Option Nat → Nat → Scanner → Scan (Char × Scanner)
  | 0, _, _, _ => .error (.tagEscape, start)
  | fuel + 1, width, code, s => do
    match s.ch, digitValue? 16 (s.at_ 1), digitValue? 16 (s.at_ 2) with
    | '%', some a, some b =>
      let octet := a * 16 + b
      let (left, code) ← match width with
        | none =>
          if octet < 0x80 then .ok (0, octet)
          else if octet / 0x20 = 6 then .ok (1, octet)
          else if octet / 0x10 = 14 then .ok (2, octet)
          else if octet / 8 = 30 then .ok (3, octet)
          else .error (.tagLeadingOctet, start)
        | some w =>
          if octet / 0x40 = 2 then .ok (w - 1, code * 256 + octet)
          else .error (.tagTrailingOctet, start)
      let s := skipMany 3 s
      if left = 0 then
        if h : code.isValidChar then .ok (Char.ofNatAux code h, s) else .error (.tagCharacter, start)
      else tagEscape start fuel (some left) code s
    | _, _, _ => .error (.tagEscape, start)

/-- The name of a tag, after what its handle had of it. -/
def tagUri (start : Place) (head : List Char) : Nat → List Char → Scanner → Scan (String × Scanner)
  | 0, soFar, s => .ok (String.ofList (head.drop 1 ++ soFar.reverse), s)
  | fuel + 1, soFar, s => do
    if s.ch = '%' then
      let (c, s) ← tagEscape start 4 none 0 s
      tagUri start head fuel (c :: soFar) s
    else if isTagChar s.ch then tagUri start head fuel (s.ch :: soFar) s.skip
    else if head.isEmpty && soFar.isEmpty then .error (.tagName, start)
    else .ok (String.ofList (head.drop 1 ++ soFar.reverse), s)

def tagDirective (start : Place) (s : Scanner) : Scan Scanner := do
  let (_, s) ← tagHandle true start s.skipGaps
  let s := s.skipGaps
  let (_, s) ← tagUri start [] (s.rest.length + 1) [] s
  if isGapEnd s.ch then .ok s else .error (.tagDirectiveEnd, start)

/-- A line that tells about the document to come. Its content means nothing here, but
it must be well formed. -/
def directive (s : Scanner) : Scan Scanner := do
  let s ← (s.outdent (-1)).dropKey
  let s := s.allowKey false
  let start := s.place
  let s := s.skip
  let name := s.rest.takeWhile isNameChar
  if name.isEmpty then .error (.directiveName, s.place)
  else
    let t := skipMany name.length s
    if !isGapEnd t.ch then .error (.directiveNameEnd, s.place)
    else
      let t ← match String.ofList name with
        | "YAML" => versionDirective start t
        | "TAG" => tagDirective start t
        | _ => .ok t.skipToBreak
      let t := t.skipGaps.skipComment
      if !isBreakEnd t.ch then .error (.directiveEnd, start)
      else .ok (t.skipBreak.push .directive start)

/-! ### Tags and anchors -/

def tag (s : Scanner) : Scan Scanner := do
  let s ← s.saveKey
  let s := s.allowKey false
  let start := s.place
  let fuel := s.rest.length + 1
  let (t, s) ←
    if s.at_ 1 = '<' then do
      let (suffix, s) ← tagUri start [] fuel [] s.skip.skip
      if s.ch ≠ '>' then .error (.tagClosing, start)
      else .ok (Tag.mk "" suffix, s.skip)
    else do
      let (handle, s) ← tagHandle false start s
      let cs := handle.toList
      if 2 ≤ cs.length ∧ cs.getLast? = some '!' then
        let (suffix, s) ← tagUri start [] fuel [] s
        .ok (Tag.mk handle suffix, s)
      else
        let (suffix, s) ← tagUri start cs fuel [] s
        .ok (if suffix.isEmpty then Tag.mk "" "!" else Tag.mk "!" suffix, s)
  if isGapEnd s.ch then .ok (s.push (.tag t) start) else .error (.tagEnd, start)

def anchor (isAlias : Bool) (s : Scanner) : Scan Scanner := do
  let s ← s.saveKey
  let s := s.allowKey false
  let start := s.place
  let s := s.skip
  let name := s.rest.takeWhile isNameChar
  let s := skipMany name.length s
  if name.isEmpty || !(isGapEnd s.ch || "?:,]\x7d%@`".toList.contains s.ch) then
    .error (.anchorName, start)
  else
    let name := String.ofList name
    .ok (s.push (if isAlias then .alias name else .anchor name) start)

/-! ### Lists and maps -/

/-- How many brackets may be open at once. -/
def bracketLimit : Nat := 255

def openBracket (kind : TokenKind) (s : Scanner) : Scan Scanner := do
  let s ← s.saveKey
  if s.brackets = bracketLimit then .error (.tooManyBrackets, s.place)
  else
    let s := { s with keys := .none :: s.keys, brackets := s.brackets + 1, keyAllowed := true }
    .ok (s.skip.push kind s.place)

def closeBracket (kind : TokenKind) (s : Scanner) : Scan Scanner := do
  let s ← s.dropKey
  let s := if 0 < s.brackets then { s with keys := s.keys.drop 1, brackets := s.brackets - 1 } else s
  .ok ((s.allowKey false).skip.push kind s.place)

def comma (s : Scanner) : Scan Scanner := do
  let s ← s.dropKey
  .ok ((s.allowKey true).skip.push .comma s.place)

def listItem (s : Scanner) : Scan Scanner := do
  if 0 < s.brackets then .error (.itemInBrackets, s.place)
  else if !s.keyAllowed then .error (.itemNotAllowed, s.place)
  else
    let s ← (s.indentTo s.column none .blockListStart s.place).dropKey
    .ok ((s.allowKey true).skip.push .item s.place)

/-- A key that is announced by a mark. -/
def markedKey (s : Scanner) : Scan Scanner := do
  let start := s.place
  if s.brackets = 0 ∧ !s.keyAllowed then .error (.keyNotAllowed, start)
  else
    let s ← (s.indentTo s.column none .blockMapStart start).dropKey
    .ok ((s.allowKey (s.brackets == 0)).skip.push .key start)

/-- A colon makes a key of the pending value; without one it must follow a marked key. -/
def mapValue (s : Scanner) : Scan Scanner := do
  let k := s.topKey
  let start := s.place
  if k.isPossible then
    let s := s.insertAt k.number ⟨.key, ⟨k.place.line, k.place.column + 1⟩⟩
    let s := s.indentTo k.place.column (some k.number) .blockMapStart start
    .ok (((s.setTopKey { k with isPossible := false }).allowKey false).skip.push .value start)
  else if s.brackets = 0 then
    if !s.keyAllowed then .error (.valueNotAllowed, start)
    else
      let s := s.indentTo s.column none .blockMapStart start
      .ok ((s.allowKey true).skip.push .value start)
  else .ok ((s.allowKey false).skip.push .value start)

/-! ### Documents -/

/-- Three marks at the start of a line, and nothing after them in their word. -/
def isIndicator (c : Char) (s : Scanner) : Bool :=
  s.column == 0 && s.ch == c && s.at_ 1 == c && s.at_ 2 == c && isGapEnd (s.at_ 3)

def indicator (kind : TokenKind) (s : Scanner) : Scan Scanner := do
  let s ← (s.outdent (-1)).dropKey
  .ok ((skipMany 3 (s.allowKey false)).push kind s.place)

def streamEnd (s : Scanner) : Scan Scanner := do
  let s := if s.column = 0 then s else { s with column := 0, line := s.line + 1 }
  let s ← (s.outdent (-1)).dropKey
  .ok ((s.allowKey false).push .streamEnd s.place)

/-! ### Texts -/

/-- Line breaks and blanks between two words of a text: the blanks before the first
break, whether a break came, and how many came after it. `folds` is off after a break
that was escaped, which leaves no blank behind. -/
structure Between where
  blanks : List Char
  broken : Bool
  folds : Bool
  further : Nat

def Between.none : Between := ⟨[], false, false, 0⟩

/-- What stands for it in the text. -/
def Between.text (b : Between) : List Char :=
  if !b.broken then b.blanks.reverse
  else if b.further = 0 then (if b.folds then [' '] else [])
  else List.replicate b.further '\n'

/-- Past blanks and breaks. `tabLimit` is the column before which a tab may not begin
a line. -/
def between (tabLimit : Option (Int × Place)) : Nat → Between → Scanner → Scan (Between × Scanner)
  | 0, b, s => .ok (b, s)
  | fuel + 1, b, s =>
    let isBadTab := b.broken && s.ch == '\t' &&
      match tabLimit with
      | some (limit, _) => decide ((s.column : Int) < limit)
      | none => false
    if isBadTab then .error (.plainTab, (tabLimit.map (·.2)).getD s.place)
    else if isGap s.ch then
      between tabLimit fuel (if b.broken then b else { b with blanks := s.ch :: b.blanks }) s.skip
    else if isBreak s.ch then
      let b := if b.broken then { b with further := b.further + 1 }
        else { b with blanks := [], broken := true, folds := true }
      between tabLimit fuel b s.skipBreak
    else .ok (b, s)

/-- Whether an unquoted word ends before the next character. -/
def endsWord (s : Scanner) : Bool :=
  isGapEnd s.ch ||
    (s.ch == ':' && (isGapEnd (s.at_ 1) || (decide (0 < s.brackets) && isBracket (s.at_ 1)))) ||
    (decide (0 < s.brackets) && isBracket s.ch)

/-- The characters of an unquoted word, newest first. -/
def word : Nat → List Char → Scanner → List Char × Scanner
  | 0, soFar, s => (soFar, s)
  | fuel + 1, soFar, s => if s.endsWord then (soFar, s) else word fuel (s.ch :: soFar) s.skip

/-- An unquoted text: its words, and whether it ends behind a line break. -/
def plainWords (start : Place) : Nat → List Char → Between → Scanner → Scan (List Char × Bool × Scanner)
  | 0, soFar, b, s => .ok (soFar, b.broken, s)
  | fuel + 1, soFar, b, s => do
    if s.isIndicator '-' || s.isIndicator '.' || s.ch == '#' then .ok (soFar, b.broken, s)
    else
      let (soFar, b, s) :=
        if s.endsWord then (soFar, b, s)
        else
          let (soFar, s) := word fuel (b.text.reverse ++ soFar) s
          (soFar, Between.none, s)
      if !(isGap s.ch || isBreak s.ch) then .ok (soFar, b.broken, s)
      else
        let (b, s) ← between (some (s.indent + 1, start)) fuel b s
        if s.brackets = 0 ∧ (s.column : Int) < s.indent + 1 then .ok (soFar, b.broken, s)
        else plainWords start fuel soFar b s

def plain (s : Scanner) : Scan Scanner := do
  let s ← s.saveKey
  let s := s.allowKey false
  let start := s.place
  let (text, broken, s) ← plainWords start (s.rest.length + 1) [] .none s
  let s := if broken then s.allowKey true else s
  .ok (s.push (.scalar true (String.ofList text.reverse)) start)

/-- The character of an escape that has no digits. -/
def simpleEscape? : Char → Option Char
  | '0' => some '\x00'
  | 'a' => some '\x07'
  | 'b' => some '\x08'
  | 't' | '\t' => some '\t'
  | 'n' => some '\n'
  | 'v' => some '\x0b'
  | 'f' => some '\x0c'
  | 'r' => some '\r'
  | 'e' => some '\x1b'
  | ' ' => some ' '
  | '"' => some '"'
  | '\'' => some '\''
  | '\\' => some '\\'
  | 'N' => some '\u0085'
  | '_' => some '\u00a0'
  | 'L' => some '\u2028'
  | 'P' => some '\u2029'
  | _ => none

/-- How many digits an escape has. -/
def escapeWidth? : Char → Option Nat
  | 'x' => some 2
  | 'u' => some 4
  | 'U' => some 8
  | _ => none

/-- The character that an escape stands for, from its backslash. -/
def escape (start : Place) (s : Scanner) : Scan (Char × Scanner) :=
  match simpleEscape? (s.at_ 1), escapeWidth? (s.at_ 1) with
  | some c, _ => .ok (c, s.skip.skip)
  | none, some width =>
    let s := s.skip.skip
    match (s.rest.take width).mapM (digitValue? 16) with
    | none => .error (.quotedDigits, start)
    | some ds =>
      let code := ds.foldl (fun n d => n * 16 + d) 0
      if ds.length < width then .error (.quotedDigits, start)
      else if h : code.isValidChar then .ok (Char.ofNatAux code h, skipMany width s)
      else .error (.quotedCharacter, start)
  | none, none => .error (.quotedEscape, start)

/-- The characters of a word in quotes, newest first, and whether an escaped line break
ends it. -/
def quotedWord (single : Bool) (start : Place) : Nat → List Char → Scanner →
    Scan (List Char × Bool × Scanner)
  | 0, soFar, s => .ok (soFar, false, s)
  | fuel + 1, soFar, s => do
    if isGapEnd s.ch then .ok (soFar, false, s)
    else if single then
      if s.ch = '\'' then
        if s.at_ 1 = '\'' then quotedWord single start fuel ('\'' :: soFar) s.skip.skip
        else .ok (soFar, false, s)
      else quotedWord single start fuel (s.ch :: soFar) s.skip
    else if s.ch = '"' then .ok (soFar, false, s)
    else if s.ch = '\\' then
      if isBreak (s.at_ 1) then .ok (soFar, true, s.skip.skipBreak)
      else
        let (c, s) ← escape start s
        quotedWord single start fuel (c :: soFar) s
    else quotedWord single start fuel (s.ch :: soFar) s.skip

/-- The words of a text in quotes, from behind the opening one to the closing one. -/
def quotedWords (single : Bool) (start : Place) : Nat → List Char → Scanner → Scan (List Char × Scanner)
  | 0, _, _ => .error (.quotedEnd, start)
  | fuel + 1, soFar, s => do
    if s.isIndicator '-' || s.isIndicator '.' then .error (.quotedIndicator, start)
    else if isEnd s.ch then .error (.quotedEnd, start)
    else
      let (soFar, escapedBreak, s) ← quotedWord single start (s.rest.length + 1) soFar s
      if s.ch = (if single then '\'' else '"') then .ok (soFar, s)
      else
        let (b, s) ← between none (s.rest.length + 1) ⟨[], escapedBreak, false, 0⟩ s
        quotedWords single start fuel (b.text.reverse ++ soFar) s

def quotedText (single : Bool) (s : Scanner) : Scan Scanner := do
  let s ← s.saveKey
  let s := s.allowKey false
  let start := s.place
  let (text, s) ← quotedWords single start (s.rest.length + 1) [] s.skip
  let s := s.skip
  .ok ({ s with touchingAt := s.index }.push (.scalar false (String.ofList text.reverse)) start)

/-- What becomes of the line breaks at the end of a block of text. -/
inductive Chomping where
  | strip
  | clip
  | keep
  deriving DecidableEq

/-- The marks behind the one that opens a block: how it ends, and its indentation. -/
def blockHeader (start : Place) (s : Scanner) : Scan (Chomping × Nat × Scanner) :=
  let chomping? : Char → Option Chomping
    | '+' => some .keep
    | '-' => some .strip
    | _ => none
  let digit? (s : Scanner) : Scan (Nat × Scanner) :=
    if !s.ch.isDigit then .ok (0, s)
    else if s.ch = '0' then .error (.zeroIndentation, start)
    else .ok (s.ch.toNat - 48, s.skip)
  match chomping? s.ch with
  | some chomping => do
    let (n, s) ← digit? s.skip
    .ok (chomping, n, s)
  | none => do
    let (n, s) ← digit? s
    if n = 0 then .ok (.clip, 0, s)
    else
      match chomping? s.ch with
      | some chomping => .ok (chomping, n, s.skip)
      | none => .ok (.clip, n, s)

/-- Past empty lines and the indentation of the next: how many lines there were, and
the widest indentation. With `indent` zero all blanks count as indentation. -/
def blockBreaks (indent : Nat) : Nat → Nat → Nat → Scanner → Scan (Nat × Nat × Scanner)
  | 0, breaks, widest, s => .ok (breaks, widest, s)
  | fuel + 1, breaks, widest, s =>
    let blanks := (s.rest.takeWhile (· == ' ')).length
    let s := skipMany (if indent = 0 then blanks else min blanks (indent - s.column)) s
    let widest := max widest s.column
    if (indent = 0 ∨ s.column < indent) ∧ s.ch = '\t' then .error (.blockTab, s.place)
    else if isBreak s.ch then blockBreaks indent fuel (breaks + 1) widest s.skipBreak
    else .ok (breaks, widest, s)

/-- The lines of a block, from its first character. `pending` says whether a break is
due before the next line, `breaks` how many empty lines came after it, and `wasBlank`
whether the line before began with a blank. -/
def blockLines (literal : Bool) (indent : Nat) : Nat → List Char → Bool → Nat → Bool → Scanner →
    Scan (List Char × Bool × Nat × Scanner)
  | 0, soFar, pending, breaks, _, s => .ok (soFar, pending, breaks, s)
  | fuel + 1, soFar, pending, breaks, wasBlank, s => do
    if s.column = indent ∧ !isEnd s.ch then
      let isBlank := isGap s.ch
      let joint : List Char :=
        if !literal && pending && !wasBlank && !isBlank then (if breaks = 0 then [' '] else [])
        else if pending then ['\n'] else []
      let line := s.rest.takeWhile fun c => !isBreakEnd c
      let soFar := line.reverse ++ (List.replicate breaks '\n' ++ (joint ++ soFar))
      let s := skipMany line.length s
      if isEnd s.ch then .ok (soFar, false, 0, s)
      else
        let s := s.skipBreak
        let (breaks, _, s) ← blockBreaks indent (s.rest.length + 1) 0 0 s
        blockLines literal indent fuel soFar true breaks isBlank s
    else .ok (soFar, pending, breaks, s)

/-- A block of text: its lines as they are, or folded into one. -/
def block (literal : Bool) (s : Scanner) : Scan Scanner := do
  let s ← s.saveKey
  let s := s.allowKey true
  let start := s.place
  let (chomping, increment, s) ← blockHeader start s.skip
  let s := s.skipGaps.skipComment
  if !isBreakEnd s.ch then .error (.blockHeader, start)
  else
    let s := s.skipBreak
    let told : Nat :=
      if increment = 0 then 0
      else if 0 ≤ s.indent then (s.indent + increment).toNat
      else increment
    let (breaks, widest, s) ← blockBreaks told (s.rest.length + 1) 0 0 s
    let indent := if told ≠ 0 then told else max (max widest (s.indent + 1).toNat) 1
    let start := s.place
    let (text, pending, breaks, s) ←
      blockLines literal indent (s.rest.length + 1) [] false breaks false s
    let text := if pending ∧ chomping ≠ .strip then '\n' :: text else text
    let text := if chomping = .keep then List.replicate breaks '\n' ++ text else text
    .ok (s.push (.scalar false (String.ofList text.reverse)) start)

/-! ### The whole text -/

/-- The next token, with those that indentation makes. -/
def next (s : Scanner) : Scan Scanner := do
  let s := skipToToken (s.rest.length + 1) s
  let s ← s.staleKeys
  let s := s.outdent s.column
  let c := s.ch
  let n := s.at_ 1
  let inBrackets := decide (0 < s.brackets)
  if isEnd c then s.streamEnd
  else if s.column = 0 ∧ c = '%' then s.directive
  else if s.isIndicator '-' then s.indicator .documentStart
  else if s.isIndicator '.' then s.indicator .documentEnd
  else
    match c with
    | '[' => s.openBracket .listStart
    | '\x7b' => s.openBracket .mapStart
    | ']' => s.closeBracket .listEnd
    | '\x7d' => s.closeBracket .mapEnd
    | ',' => s.comma
    | '*' => s.anchor true
    | '&' => s.anchor false
    | '!' => s.tag
    | '\'' => s.quotedText true
    | '"' => s.quotedText false
    | '-' => if isGapEnd n then s.listItem else s.plain
    | '?' =>
      if isGapEnd n then s.markedKey
      else s.plain
    | ':' =>
      if isGapEnd n || (inBrackets && (isBracket n || s.index == s.touchingAt)) then s.mapValue
      else s.plain
    | '|' => if inBrackets then s.plain else s.block true
    | '>' => if inBrackets then s.plain else s.block false
    | '%' | '@' | '\x60' => .error (.unexpectedCharacter c, s.place)
    | _ => s.plain

/-- Whether a key token could still come in front of the token with this number. -/
def isOpen (s : Scanner) (number : Nat) : Bool :=
  s.keys.any fun k => k.isPossible && k.number == number

/-- Gives the tokens out one by one, `given` of them so far, and reads on only when the
next one is missing or not settled: how many could be given, and the flaw that stops
them, if one does. -/
def giveOut : Nat → Nat → Scanner → Nat × Scanner × Option (Flaw × Place)
  | 0, given, s => (given, s, none)
  | fuel + 1, given, s =>
    if s.count = given then
      match s.tokens with
      | ⟨.streamEnd, _⟩ :: _ => (given, s, none)
      | _ =>
        match s.next with
        | .error e => (given, s, some e)
        | .ok s => giveOut fuel given s
    else
      match s.staleKeys with
      | .error e => (given, s, some e)
      | .ok s =>
        if s.isOpen given then
          match s.next with
          | .error e => (given, s, some e)
          | .ok s => giveOut fuel given s
        else giveOut fuel (given + 1) s

end Scanner

/-- The tokens of a text, in order; the last one ends the stream or tells the flaw that
breaks it off. A flaw thus matters only to one who gets that far. -/
def tokens (text : String) : List Token :=
  let (given, s, flaw) := Scanner.giveOut (8 * text.length + 16) 0 (.ofText text)
  match flaw with
  | none => s.tokens.reverse
  | some (f, p) => s.tokens.reverse.take given ++ [⟨.broken f, p⟩]

end FleetJobs.Yaml
