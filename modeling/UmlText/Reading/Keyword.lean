import UmlText.Model.Diagram
import UmlText.Reading.Line

/-!
# The kind of diagram a text asks for

A text that mentions `usecase` or `actor`, in any case and as a word of its own followed by white
space or by the end of the text, describes a use case diagram. Every other text describes a class
diagram.
-/

namespace UmlText

open Text

/-- Whether `word` stands at the front of a text and is followed by white space or the end. -/
def startsWithWord (word cs : List Char) : Bool :=
  match word.isPrefixOf? cs with
  | some rest => rest.head?.all isBlank
  | none => false

/-- Whether a text, read behind the character `before`, has `word` as a word of its own. -/
def hasWordAfter (word : List Char) (before : Option Char) : List Char → Bool
  | [] => false
  | c :: cs =>
    (startsWithWord word (c :: cs) && !before.any Line.isIdentifierChar)
      || hasWordAfter word (some c) cs

/-- Whether a text names an actor or a use case. -/
def mentionsUseCases (source : List Char) : Bool :=
  let lower := source.map Char.toLower
  hasWordAfter "usecase".toList none lower || hasWordAfter "actor".toList none lower

/-- The kind of diagram that a text describes. -/
def detectDiagramKind (source : String) : DiagramKind :=
  if mentionsUseCases source.toList then .useCaseDiagram else .classDiagram

end UmlText
