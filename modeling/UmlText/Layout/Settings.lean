import UmlText.Geometry.Saturating

/-!
# Layout settings

The distances used when a diagram is laid out. Every field has a default, so `{}` is the usual
layout.
-/

namespace UmlText

/-- The number of characters of a name as a coordinate. -/
def nameLength (name : String) : Int :=
  Saturating.ofNat name.length (Saturating.highest / 16)

/-- Placement on a uniform grid: left to right, `columns` to a row. -/
structure GridSettings where
  originX : Int := 100
  originY : Int := 100
  columnSpacing : Int := 800
  rowSpacing : Int := 400
  columns : Nat := 6
  minWidth : Int := 100
  charWidth : Int := 10
deriving DecidableEq, Repr, Inhabited

/-- The width of a view: room for its name, but not less than the minimum. -/
def GridSettings.widthFor (g : GridSettings) (name : String) : Int :=
  max g.minWidth (Saturating.mul (nameLength name) g.charWidth)

/-- Placement of use case diagrams around their actors. -/
structure UseCaseSettings where
  originX : Int := 100
  originY : Int := 100
  /-- How far an actor is moved right for each of its generalizations. -/
  depthIndent : Int := 50
  /-- From the top of an actor to its vertical center. -/
  actorCenterOffset : Int := 40
  /-- The least distance between the tops of two actors. -/
  minActorAdvance : Int := 225
  /-- The left edge of the first column of exclusive use cases. -/
  exclusiveX : Int := 450
  exclusiveColumns : Nat := 2
  columnSpacing : Int := 200
  rowSpacing : Int := 150
  /-- The leftmost place of the column of shared use cases. -/
  sharedMinX : Int := 800
  /-- Between exclusive use cases and the shared column. -/
  sharedGap : Int := 50
  /-- Remaining elements go on in a new row once the next place is right of this. -/
  wrapX : Int := 900
  minUseCaseWidth : Int := 120
  useCaseCharWidth : Int := 8
  useCaseTextPadding : Int := 30
deriving DecidableEq, Repr, Inhabited

/-- The width of a use case: room for its name and padding, but not less than the minimum. -/
def UseCaseSettings.useCaseWidth (u : UseCaseSettings) (name : String) : Int :=
  max u.minUseCaseWidth
    (Saturating.add (Saturating.mul (nameLength name) u.useCaseCharWidth) u.useCaseTextPadding)

/-- The boxes of packages. -/
structure PackageSettings where
  /-- Between the border of a package and what is inside. -/
  padding : Int := 30
  /-- Further space at the top, for the name. -/
  header : Int := 30
  /-- The size of a package with nothing inside. -/
  minWidth : Int := 200
  minHeight : Int := 150
  /-- Between packages that stand in a row. -/
  spacing : Int := 50
deriving DecidableEq, Repr, Inhabited

/-- The distances of a layout. -/
structure LayoutSettings where
  grid : GridSettings := {}
  useCase : UseCaseSettings := {}
  packages : PackageSettings := {}
deriving DecidableEq, Repr, Inhabited

end UmlText
