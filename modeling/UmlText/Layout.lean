import UmlText.Layout.Grid
import UmlText.Layout.Packages
import UmlText.Layout.Relationships
import UmlText.Layout.Report
import UmlText.Layout.UseCases

/-!
# Laying out a diagram

1. Packages get their views, so that what they own can be placed inside.
2. The strategy of the diagram places everything else.
3. Packages are fitted around what is inside them, the deepest first.
4. Relationships between placed elements are realized.

A store that refuses a view or a relationship does not stop the run.
-/

namespace UmlText

universe u

variable {σ : Type u} [ModelStore σ] [ViewStore σ]

/-- Places everything but packages, by the given strategy. -/
def Strategy.arrange (strategy : Strategy) (p : Placement σ) (parsed : Parsed)
    (s : LayoutSettings) : Placement σ :=
  match strategy with
  | .grid => Grid.arrange p parsed.uniqueElements s.grid s.packages
  | .useCase => UseCases.arrange p parsed.uniqueElements parsed.blueprints s.useCase

/-- Where a strategy starts. -/
def Strategy.origin (strategy : Strategy) (s : LayoutSettings) : Point :=
  match strategy with
  | .grid => ⟨s.grid.originX, s.grid.originY⟩
  | .useCase => ⟨s.useCase.originX, s.useCase.originY⟩

/-- Places everything a text declared, packages included. -/
def placeAll (store : σ) (diagram : DiagramId) (parsed : Parsed) (s : LayoutSettings) :
    Placement σ :=
  let strategy := Strategy.ofDiagram parsed.diagramKind
  let (p, packages) := Packages.openViews { store, diagram } parsed.uniqueElements
  let p := strategy.arrange p parsed s
  Packages.fit p packages (strategy.origin s) s.packages

/-- Lays out everything a text declared on a diagram. -/
def layout (store : σ) (diagram : DiagramId) (parsed : Parsed) (s : LayoutSettings) :
    LayoutReport × σ :=
  let r := Relationships.realize (placeAll store diagram parsed s) parsed.blueprints
  ({ diagram := some diagram
     strategy := .ofDiagram parsed.diagramKind
     entries := r.placement.entries
     relationships := r.created
     skippedElements := r.placement.skipped
     skippedRelationships := r.skipped }, r.placement.store)

end UmlText
