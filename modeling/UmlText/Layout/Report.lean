import UmlText.Layout.Placement
import UmlText.Reading.Parsed

/-!
# Layout reports

What a layout run placed, with its final geometry, and what it skipped.
-/

namespace UmlText

universe u

/-- How the elements of a diagram are arranged. -/
inductive Strategy where
  | grid
  | useCase
deriving DecidableEq, Repr, Inhabited

namespace Strategy

def text : Strategy → String
  | grid => "grid"
  | useCase => "use case"

/-- The strategy for a kind of diagram. -/
def ofDiagram : DiagramKind → Strategy
  | .classDiagram => grid
  | .useCaseDiagram => useCase

end Strategy

/-- The final geometry of a placed element. -/
structure LayoutEntry where
  element : ElementId
  view : ViewId
  position : Point
  size : Size
  /-- The package view around the element. -/
  container : Option ViewId
deriving DecidableEq, Repr, Inhabited

/-- The rectangle of an entry. -/
def LayoutEntry.bounds (e : LayoutEntry) : Bounds := e.position.toBounds e.size

/-- The result of a layout run. -/
structure LayoutReport where
  /-- None if there was no diagram to place anything on. -/
  diagram : Option DiagramId
  strategy : Strategy
  /-- Packages first, then everything else in placement order. -/
  entries : List LayoutEntry := []
  relationships : List RelationshipView := []
  skippedElements : List ElementId := []
  skippedRelationships : Nat := 0
deriving DecidableEq, Repr, Inhabited

namespace LayoutReport

/-- The report for a text without a diagram: everything is skipped. -/
def unplaced (parsed : Parsed) : LayoutReport :=
  { diagram := none
    strategy := .ofDiagram parsed.diagramKind
    skippedElements := parsed.uniqueElements
    skippedRelationships := parsed.blueprints.length }

/-- The entry of an element. -/
def entryOf? (r : LayoutReport) (element : ElementId) : Option LayoutEntry :=
  r.entries.find? fun e => e.element = element

end LayoutReport

/-- The entries of a run, as the store has them. -/
def Placement.entries {σ : Type u} [ViewStore σ] (p : Placement σ) : List LayoutEntry :=
  p.views.entries.filterMap fun (element, view) =>
    (ViewStore.view? p.store view).map fun v =>
      { element, view, position := v.position, size := v.size, container := v.container }

end UmlText
