import UmlText.OrderedMap
import UmlText.Store

/-!
# Placing views

A `Placement` is a layout run in progress: the store, the diagram, and which element got which view
so far. Placing an element asks the store for a view inside the view of the package that owns the
element. If the store refuses, the element is skipped and the run goes on.

The views of a run form a forest under containment, and a container always stands before what is
inside it. So one pass over the views finds everything inside a view, and moving a view moves all of
that by the same distance.
-/

namespace UmlText

universe u

/-- A layout run in progress. -/
structure Placement (σ : Type u) where
  store : σ
  diagram : DiagramId
  /-- The placed elements with their views, in placement order. -/
  views : OrderedMap ElementId ViewId := {}
  /-- The elements the store refused, in order. -/
  skipped : List ElementId := []

namespace Placement

variable {σ : Type u} [ModelStore σ] [ViewStore σ]

def kind? (p : Placement σ) (element : ElementId) : Option ElementKind :=
  ModelStore.kind? p.store element

def nameOf (p : Placement σ) (element : ElementId) : String :=
  ModelStore.nameOf p.store element

omit [ModelStore σ] [ViewStore σ] in
/-- The view an element got in this run. -/
def viewOf? (p : Placement σ) (element : ElementId) : Option ViewId :=
  p.views.get? element

def boundsOf? (p : Placement σ) (view : ViewId) : Option Bounds :=
  (ViewStore.view? p.store view).map View.bounds

/-- The view that a view of the store is inside of. -/
def containerOf? (p : Placement σ) (view : ViewId) : Option ViewId :=
  (ViewStore.view? p.store view).bind View.container

/-- The view of the package that owns an element, if it got one. -/
def containerFor? (p : Placement σ) (element : ElementId) : Option ViewId :=
  (ModelStore.owningPackage? p.store element).bind p.viewOf?

/-- The views of this run directly inside a view. -/
def children (p : Placement σ) (container : ViewId) : List ViewId :=
  p.views.values.filter fun view => p.containerOf? view = some container

/-- The views of this run inside a view, at any depth. -/
def inside (p : Placement σ) (container : ViewId) : List ViewId :=
  p.views.values.foldl
    (fun found view =>
      if (p.containerOf? view).any fun c => c = container || c ∈ found then found ++ [view]
      else found)
    []

/-- Changes a view of the store. -/
def updateView (p : Placement σ) (view : ViewId) (f : View → View) : Placement σ :=
  { p with store := ViewStore.updateView p.store view f }

/-- A view just created for this run: without its namespace, and as wide as asked. -/
def prepare (width : Option Int) (v : View) : View :=
  { v with
    showNamespace := false
    size := ⟨width.getD v.size.width, v.size.height⟩ }

/-- Places an element at a position, or skips it. -/
def place (p : Placement σ) (element : ElementId) (position : Point) (width : Option Int) :
    Option ViewId × Placement σ :=
  let request : NewView :=
    { model := element, diagram := p.diagram, position, container := p.containerFor? element }
  match ViewStore.createView p.store request with
  | (.ok view, store) =>
    let placed := { p with store }.updateView view (prepare width)
    (some view, { placed with views := placed.views.insert element view })
  | (.error _, store) => (none, { p with store, skipped := p.skipped ++ [element] })

/-- Moves a view and everything inside it. -/
def translate (p : Placement σ) (view : ViewId) (dx dy : Int) : Placement σ :=
  if dx = 0 ∧ dy = 0 then p
  else (view :: p.inside view).foldl (fun p v => p.updateView v (·.shift dx dy)) p

/-- The bounds around those of the given views that the store knows. -/
def mergedBounds? (p : Placement σ) (views : List ViewId) : Option Bounds :=
  Bounds.mergeAll (views.filterMap p.boundsOf?)

end Placement

end UmlText
