import UmlText.Geometry
import UmlText.Model.Element

/-!
# Diagrams and views

A view shows one element on one diagram, possibly inside a container view (a package box).
A relationship view joins the views of the two ends of a relationship.
-/

namespace UmlText

/-- What a diagram is for. -/
inductive DiagramKind where
  | classDiagram
  | useCaseDiagram
deriving DecidableEq, Repr, Inhabited

/-- The name of a kind in messages. -/
def DiagramKind.text : DiagramKind → String
  | classDiagram => "class diagram"
  | useCaseDiagram => "use case diagram"

/-- The number a store gave to a diagram. -/
structure DiagramId where
  index : Nat
deriving DecidableEq, Repr, Inhabited

/-- The number a store gave to a view or to a relationship view. -/
structure ViewId where
  index : Nat
deriving DecidableEq, Repr, Inhabited

/-- How a view is named in messages. -/
def ViewId.text (id : ViewId) : String := s!"view#{id.index}"

/-- A diagram, owned by an element. -/
structure Diagram where
  id : DiagramId
  kind : DiagramKind
  owner : ElementId
deriving DecidableEq, Repr, Inhabited

/-- The picture of an element on a diagram. -/
structure View where
  id : ViewId
  diagram : DiagramId
  model : ElementId
  position : Point
  size : Size
  showNamespace : Bool := true
  container : Option ViewId := none
deriving DecidableEq, Repr, Inhabited

namespace View

/-- The rectangle that a view fills. -/
def bounds (v : View) : Bounds := v.position.toBounds v.size

/-- Gives a view the position and the size of a rectangle. -/
def setBounds (v : View) (b : Bounds) : View :=
  { v with position := b.minPoint, size := b.toSize }

/-- Moves a view without changing its size. -/
def shift (v : View) (dx dy : Int) : View :=
  { v with position := ⟨v.position.x + dx, v.position.y + dy⟩ }

@[simp]
theorem bounds_shift (v : View) (dx dy : Int) :
    (v.shift dx dy).bounds = v.bounds.shift dx dy := by
  simp only [bounds, shift, Point.toBounds, Bounds.shift, Bounds.mk.injEq]
  refine ⟨trivial, trivial, ?_, ?_⟩ <;> omega

@[simp]
theorem bounds_setBounds (v : View) (b : Bounds) : (v.setBounds b).bounds = b := by
  cases b
  simp only [bounds, setBounds, Point.toBounds, Bounds.minPoint, Bounds.toSize, Bounds.width,
    Bounds.height, Bounds.mk.injEq]
  refine ⟨trivial, trivial, ?_, ?_⟩ <;> omega

end View

/-- The line of a relationship, from the view of its source to the view of its target. -/
structure RelationshipView where
  id : ViewId
  diagram : DiagramId
  model : ElementId
  tail : ViewId
  head : ViewId
deriving DecidableEq, Repr, Inhabited

end UmlText
