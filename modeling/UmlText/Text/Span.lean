import UmlText.Text.Blank

/-!
# Spans and located lines

A span is a half-open range of byte offsets into a text, counted in its UTF-8 form. The lines of a
text are located by such spans: each line is trimmed, and its span covers what is left of it.
-/

namespace UmlText.Text

/-- The bytes from `start` up to but not including `stop`. -/
structure Span where
  start : Nat
  stop : Nat
deriving DecidableEq, Repr, Inhabited

namespace Span

/-- A span between two offsets; an inverted range is empty at its start. -/
def ofRange (start stop : Nat) : Span := ⟨start, max start stop⟩

def length (s : Span) : Nat := s.stop - s.start

def isEmpty (s : Span) : Bool := s.start = s.stop

end Span

/-- The number of bytes of a text in UTF-8. -/
def byteLength : List Char → Nat
  | [] => 0
  | c :: cs => c.utf8Size + byteLength cs

/-- A trimmed line and the bytes it covers. -/
structure Line where
  text : List Char
  span : Span
deriving DecidableEq, Repr

/-- Locates lines that stand one after the other from a byte offset on. -/
def locateFrom (offset : Nat) : List (List Char) → List Line
  | [] => []
  | raw :: rest =>
    let start := offset + byteLength (raw.takeWhile isBlank)
    let text := trim raw
    ⟨text, .ofRange start (start + byteLength text)⟩ ::
      locateFrom (offset + byteLength raw + 1) rest

/-- The lines of a text, each up to a line feed or the end, trimmed and located. -/
def locatedLines (cs : List Char) : List Line :=
  locateFrom 0 (cs.splitOn '\n')

/-- The empty span behind the last character. -/
def endSpan (cs : List Char) : Span := ⟨byteLength cs, byteLength cs⟩

end UmlText.Text
