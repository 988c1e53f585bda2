/-! Blank characters: those with the Unicode property White_Space.

A text that is blank throughout counts as no text at all where an answer may be
left out. The property is wider than the ASCII test of the core library, and
contains it (`isBlank_of_isWhitespace`). -/
namespace FleetJobs.Text

/-- The ranges of White_Space, first and last code point. -/
def blankRanges : List (Nat × Nat) :=
  [(0x09, 0x0D), (0x20, 0x20), (0x85, 0x85), (0xA0, 0xA0), (0x1680, 0x1680), (0x2000, 0x200A),
    (0x2028, 0x2029), (0x202F, 0x202F), (0x205F, 0x205F), (0x3000, 0x3000)]

def isBlank (c : Char) : Bool :=
  blankRanges.any fun r => decide (r.1 ≤ c.toNat) && decide (c.toNat ≤ r.2)

/-- Nothing but blanks, or nothing. -/
def allBlank (s : String) : Bool := s.toList.all isBlank

/-- The text from its first character that is not blank. -/
def dropBlanks (cs : List Char) : List Char := cs.dropWhile isBlank

theorem isBlank_of_isWhitespace {c : Char} (h : c.isWhitespace = true) : isBlank c = true := by
  simp only [Char.isWhitespace, Bool.or_eq_true, decide_eq_true_eq] at h
  rcases h with ((rfl | rfl) | rfl) | rfl <;> decide

end FleetJobs.Text
