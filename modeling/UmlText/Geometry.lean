/-!
# Integer geometry

Diagrams are drawn on an integer grid whose origin is the top-left corner; `y` grows downward.
A `Bounds` is a rectangle given by its two corners, so that merging, padding and containment are
comparisons of coordinates. Coordinates are exact integers here: the operations that a 32-bit
grid clamps are in `UmlText.Geometry.Saturating`.
-/

namespace UmlText

/-- A position on the diagram grid. -/
structure Point where
  x : Int
  y : Int
deriving DecidableEq, Repr, Inhabited

/-- A width and a height. -/
structure Size where
  width : Int
  height : Int
deriving DecidableEq, Repr, Inhabited

/-- A rectangle between a top-left and a bottom-right corner. -/
structure Bounds where
  minX : Int
  minY : Int
  maxX : Int
  maxY : Int
deriving DecidableEq, Repr, Inhabited

/-- Padding on the four sides of a rectangle. -/
structure Insets where
  top : Int
  right : Int
  bottom : Int
  left : Int
deriving DecidableEq, Repr, Inhabited

/-- The larger width and the larger height of two sizes. -/
def Size.max (s t : Size) : Size :=
  ⟨Max.max s.width t.width, Max.max s.height t.height⟩

/-- The same padding on every side. -/
def Insets.uniform (value : Int) : Insets :=
  ⟨value, value, value, value⟩

/-- The rectangle of size `s` whose top-left corner is `p`. -/
def Point.toBounds (p : Point) (s : Size) : Bounds :=
  ⟨p.x, p.y, p.x + s.width, p.y + s.height⟩

namespace Bounds

def width (b : Bounds) : Int := b.maxX - b.minX

def height (b : Bounds) : Int := b.maxY - b.minY

/-- The top-left corner. -/
def minPoint (b : Bounds) : Point := ⟨b.minX, b.minY⟩

/-- The midpoint; half of an odd extent is rounded toward zero. -/
def center (b : Bounds) : Point :=
  ⟨b.minX + b.width.tdiv 2, b.minY + b.height.tdiv 2⟩

def toSize (b : Bounds) : Size := ⟨b.width, b.height⟩

/-- The smallest rectangle around both. -/
def merge (a b : Bounds) : Bounds :=
  ⟨min a.minX b.minX, min a.minY b.minY, max a.maxX b.maxX, max a.maxY b.maxY⟩

/-- The smallest rectangle around a list of rectangles, none for the empty list. -/
def mergeAll : List Bounds → Option Bounds
  | [] => none
  | b :: bs => some (bs.foldl merge b)

/-- Moves every side outward by its inset. -/
def pad (b : Bounds) (i : Insets) : Bounds :=
  ⟨b.minX - i.left, b.minY - i.top, b.maxX + i.right, b.maxY + i.bottom⟩

/-- Whether `b` lies inside `a`, borders included. -/
def contains (a b : Bounds) : Bool :=
  a.minX ≤ b.minX && a.minY ≤ b.minY && b.maxX ≤ a.maxX && b.maxY ≤ a.maxY

/-- Moves a rectangle without changing its size. -/
def shift (b : Bounds) (dx dy : Int) : Bounds :=
  ⟨b.minX + dx, b.minY + dy, b.maxX + dx, b.maxY + dy⟩

end Bounds

end UmlText
