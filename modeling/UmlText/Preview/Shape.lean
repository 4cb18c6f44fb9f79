import UmlText.Model.Diagram
import UmlText.Preview.Markup

/-!
# Shapes

The shapes that a preview is made of, with integer coordinates, and their markup.
-/

namespace UmlText

/-- How the ends of a line are drawn. -/
inductive LineMarker where
  | triangle
  | arrow
  | filledDiamond
  | diamond
deriving DecidableEq, Repr, Inhabited

/-- The name of a marker in the markup. -/
def LineMarker.name : LineMarker → String
  | triangle => "triangle"
  | arrow => "arrow"
  | filledDiamond => "diamond-filled"
  | diamond => "diamond"

/-- Where the anchor of a text is. -/
inductive TextAnchor where
  | start
  | middle
deriving DecidableEq, Repr, Inhabited

def TextAnchor.name : TextAnchor → String
  | start => "start"
  | middle => "middle"

/-- The look of a text. -/
structure TextStyle where
  anchor : TextAnchor := .start
  bold : Bool := false
  italic : Bool := false
  /-- Whether the text is centered on the height of its anchor. -/
  vertical : Bool := false
deriving DecidableEq, Repr, Inhabited

/-- A shape of a preview. -/
inductive Shape where
  | rectangle (bounds : Bounds) (fill : String)
  | ellipse (center : Point) (radiusX radiusY : Int)
  | circle (center : Point) (radius : Int)
  | line (start stop : Point) (dashed : Bool) (startMarker stopMarker : Option LineMarker)
  | text (anchor : Point) (content : String) (style : TextStyle)
deriving DecidableEq, Repr, Inhabited

namespace Shape

/-- The fill of shapes other than packages. -/
def plainFill : String := "white"

/-- A solid line without markers. -/
def plainLine (x1 y1 x2 y2 : Int) : Shape := line ⟨x1, y1⟩ ⟨x2, y2⟩ false none none

/-- The points between which a shape is drawn: the corners of a rectangle, the extremes of an
ellipse or a circle, the ends of a line, the anchor of a text. -/
def extremes : Shape → List Point
  | rectangle b _ => [⟨b.minX, b.minY⟩, ⟨b.maxX, b.maxY⟩]
  | ellipse c rx ry => [⟨c.x - rx, c.y - ry⟩, ⟨c.x + rx, c.y + ry⟩]
  | circle c r => [⟨c.x - r, c.y - r⟩, ⟨c.x + r, c.y + r⟩]
  | line start stop _ _ _ => [start, stop]
  | text anchor _ _ => [anchor]

/-- The markup of a shape drawn with the given stroke. -/
def markup (stroke : String) : Shape → Markup
  | rectangle b fill =>
    .element "rect" [
      ("x", toString b.minX), ("y", toString b.minY),
      ("width", toString b.width), ("height", toString b.height),
      ("fill", fill), ("stroke", stroke)] []
  | ellipse c rx ry =>
    .element "ellipse" [
      ("cx", toString c.x), ("cy", toString c.y), ("rx", toString rx), ("ry", toString ry),
      ("fill", plainFill), ("stroke", stroke)] []
  | circle c r =>
    .element "circle" [
      ("cx", toString c.x), ("cy", toString c.y), ("r", toString r),
      ("fill", plainFill), ("stroke", stroke)] []
  | line start stop dashed startMarker stopMarker =>
    let dashes := if dashed then [("stroke-dasharray", "6 4")] else []
    let marker (place : String) (m : Option LineMarker) : List (String × String) :=
      m.toList.map fun m => (place, s!"url(#{m.name})")
    .element "line"
      ([("x1", toString start.x), ("y1", toString start.y),
        ("x2", toString stop.x), ("y2", toString stop.y), ("stroke", stroke)]
        ++ dashes ++ marker "marker-start" startMarker ++ marker "marker-end" stopMarker)
      []
  | text anchor content style =>
    .element "text"
      ([("x", toString anchor.x), ("y", toString anchor.y), ("text-anchor", style.anchor.name)]
        ++ (if style.bold then [("font-weight", "bold")] else [])
        ++ (if style.italic then [("font-style", "italic")] else [])
        ++ (if style.vertical then [("dominant-baseline", "middle")] else []))
      [.text content]

end Shape

end UmlText
