import UmlText.Reading.Keyword
import UmlText.Reading.Reader

/-!
# Parsed texts

`parse` reads a text into a store and returns what later stages need: the kind of diagram, the
table of names, the relationships and the diagnostics.
-/

namespace UmlText

universe u

/-- What reading a text produced, apart from the elements in the store. -/
structure Parsed where
  diagramKind : DiagramKind
  aliases : OrderedMap String ElementId
  blueprints : List Blueprint
  diagnostics : List Diagnostic

namespace Parsed

/-- The declared elements, each once, in the order of the table of names. -/
def uniqueElements (p : Parsed) : List ElementId := p.aliases.values.eraseDups

/-- The element declared under a name or an alias. -/
def element? (p : Parsed) (name : String) : Option ElementId := p.aliases.get? name

end Parsed

/-- Reads `source` and creates what it declares under `root`. -/
def parse {σ : Type u} [ModelStore σ] (store : σ) (root : ElementId) (source : String) :
    Parsed × σ :=
  let r := Reader.readText store root source.toList
  ({ diagramKind := detectDiagramKind source
     aliases := r.aliases
     blueprints := r.blueprints
     diagnostics := r.diagnostics }, r.store)

end UmlText
