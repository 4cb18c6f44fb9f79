/-!
# White space

A character is blank when Unicode gives it the property White_Space. Trimming removes blank
characters at both ends of a text. A gap, the space between the words of a line, is made of
spaces and tabs only.
-/

namespace UmlText.Text

/-- The code points with the property White_Space. -/
def blankCodes : List Nat :=
  [0x09, 0x0A, 0x0B, 0x0C, 0x0D, 0x20, 0x85, 0xA0, 0x1680,
    0x2000, 0x2001, 0x2002, 0x2003, 0x2004, 0x2005, 0x2006, 0x2007, 0x2008, 0x2009, 0x200A,
    0x2028, 0x2029, 0x202F, 0x205F, 0x3000]

/-- White space of any kind. -/
def isBlank (c : Char) : Bool := c.toNat ∈ blankCodes

/-- A space or a tab. -/
def isGap (c : Char) : Bool := c = ' ' || c = '\t'

theorem isBlank_of_isGap {c : Char} (h : isGap c = true) : isBlank c = true := by
  simp only [isGap, Bool.or_eq_true, decide_eq_true_eq] at h
  rcases h with rfl | rfl <;> decide

/-- Removes blank characters in front. -/
def trimStart (cs : List Char) : List Char := cs.dropWhile isBlank

/-- Removes blank characters behind. -/
def trimEnd (cs : List Char) : List Char := (cs.reverse.dropWhile isBlank).reverse

/-- Removes blank characters at both ends. -/
def trim (cs : List Char) : List Char := trimEnd (trimStart cs)

/-- Whether a text has no character but blank ones. -/
def allBlank (cs : List Char) : Bool := cs.all isBlank

end UmlText.Text
