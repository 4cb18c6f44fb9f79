import UmlText.Failure
import UmlText.Import
import UmlText.Writing

/-!
# Exchange with clipboards

The two commands a host offers: importing the text on a clipboard, and putting the selected elements
on it as text.
-/

namespace UmlText

universe u

variable {σ : Type u} [ModelStore σ] [ViewStore σ]

/-- Imports what was read from a clipboard. Nothing is imported if that is no text, or only white
space. -/
def importFrom (store : σ) (read : Except ClipboardError (Option String))
    (settings : LayoutSettings) : Except Failure (Option ImportOutcome) × σ :=
  match read with
  | .error error => (.error (.clipboard error), store)
  | .ok none => (.ok none, store)
  | .ok (some text) =>
    if Text.allBlank text.toList then (.ok none, store)
    else
      let (outcome, store) := importText store text settings
      (.ok (some outcome), store)

omit [ViewStore σ] in
/-- The selected elements as text. -/
def selectionText (store : σ) : String :=
  Writing.writeText store (ModelStore.selection store)

omit [ViewStore σ] in
/-- Puts the selected elements on a clipboard, and returns what was written. -/
def exportSelection (store : σ) (clipboard : Clipboard) :
    Except Failure (String × Clipboard) :=
  let text := selectionText store
  match clipboard.write text with
  | .error error => .error (.clipboard error)
  | .ok clipboard => .ok (text, clipboard)

end UmlText
