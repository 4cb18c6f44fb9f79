import Mathlib
import UmlText.Proofs.Preview.Shapes

/-!
# UmlText.Proofs.Preview.Coordinates

**What a document says about places.** A reader of a document knows nothing of shapes. It finds a
group by its identifier, a tag by its name, and numbers in the attributes of the tag. The points
between which a tag is drawn are read off these numbers (`Markup.extremes?`). What is read off the
markup of a shape are the extremes of the shape (`Shape.extremes?_markup`), so a tag is drawn inside
a rectangle as soon as the shape is (`Bounds.encloses_markup`).
-/

namespace UmlText

namespace Markup

/-- The name of a tag. -/
def name? : Markup → Option String
  | element name _ _ => some name
  | text _ => none

/-- The value of an attribute of a tag. -/
def attribute? (name : String) : Markup → Option String
  | element _ attributes _ => attributes.lookup name
  | text _ => none

/-- What stands directly inside a tag. -/
def children : Markup → List Markup
  | element _ _ children => children
  | text _ => []

/-- The number in an attribute of a tag. -/
def number? (node : Markup) (name : String) : Option Int :=
  (node.attribute? name).bind String.toInt?

/-- The points between which a tag is drawn: the corners of a rectangle, the extremes of an ellipse
or a circle, the ends of a line, the anchor of a text. -/
def extremes? (node : Markup) : Option (List Point) := do
  match ← node.name? with
  | "rect" =>
    let x ← node.number? "x"
    let y ← node.number? "y"
    let width ← node.number? "width"
    let height ← node.number? "height"
    return [⟨x, y⟩, ⟨x + width, y + height⟩]
  | "ellipse" =>
    let cx ← node.number? "cx"
    let cy ← node.number? "cy"
    let rx ← node.number? "rx"
    let ry ← node.number? "ry"
    return [⟨cx - rx, cy - ry⟩, ⟨cx + rx, cy + ry⟩]
  | "circle" =>
    let cx ← node.number? "cx"
    let cy ← node.number? "cy"
    let r ← node.number? "r"
    return [⟨cx - r, cy - r⟩, ⟨cx + r, cy + r⟩]
  | "line" =>
    let x1 ← node.number? "x1"
    let y1 ← node.number? "y1"
    let x2 ← node.number? "x2"
    let y2 ← node.number? "y2"
    return [⟨x1, y1⟩, ⟨x2, y2⟩]
  | "text" =>
    let x ← node.number? "x"
    let y ← node.number? "y"
    return [⟨x, y⟩]
  | _ => none

/-- What is in the part of a document with an identifier. -/
def part (document : Markup) (id : String) : List Markup :=
  ((document.children.find? fun node => node.attribute? "id" = some id).map children).getD []

end Markup

/-- **The coordinates of a shape are the numbers in its markup.** -/
theorem Shape.extremes?_markup (shape : Shape) (stroke : String) :
    (shape.markup stroke).extremes? = some shape.extremes := by
  have hmaxX : ∀ b : Bounds, b.minX + b.width = b.maxX := fun b => by unfold Bounds.width; omega
  have hmaxY : ∀ b : Bounds, b.minY + b.height = b.maxY := fun b => by unfold Bounds.height; omega
  cases shape <;>
    simp [markup, extremes, Markup.extremes?, Markup.name?, Markup.number?, Markup.attribute?,
      List.lookup, Int.toInt?_repr, hmaxX, hmaxY]

/-! ### Tags in rectangles -/

namespace Bounds

/-- Whether a tag is drawn, and between points of a rectangle. -/
def encloses (b : Bounds) (node : Markup) : Prop :=
  ∃ points, node.extremes? = some points ∧ ∀ p ∈ points, b.covers p

theorem encloses_markup {b : Bounds} {shape : Shape} {stroke : String} :
    b.encloses (shape.markup stroke) ↔ b.holds shape := by
  unfold encloses
  rw [shape.extremes?_markup stroke]
  simp [holds]

end Bounds

namespace Drawing

/-- A tag that writes a line, with its anchor strictly inside a rectangle. -/
structure LineInside (b : Bounds) (line : String) (node : Markup) : Prop where
  name?_eq : node.name? = some "text"
  children_eq : node.children = [.text line]
  anchor : ∃ p, node.extremes? = some [p] ∧ b.surrounds p

theorem WritesInside.markup {b : Bounds} {line : String} {shape : Shape}
    (h : WritesInside b line shape) (stroke : String) : LineInside b line (shape.markup stroke) := by
  obtain ⟨p, rfl, hp⟩ := h
  exact ⟨rfl, rfl, p, Shape.extremes?_markup _ stroke, hp⟩

/-! ### Groups -/

theorem children_groupNode (stroke : String) (shapes : List Shape) :
    (groupNode stroke shapes).children = shapes.map (Shape.markup stroke) :=
  rfl

/-- A group for some shapes, with the coordinates of each. -/
structure Shows (stroke : String) (shapes : List Shape) (group : Markup) : Prop where
  group_eq : group = groupNode stroke shapes
  extremes?_eq : group.children.map Markup.extremes? = shapes.map fun shape => some shape.extremes

theorem shows_groupNode (stroke : String) (shapes : List Shape) :
    Shows stroke shapes (groupNode stroke shapes) := by
  refine ⟨rfl, ?_⟩
  rw [children_groupNode, List.map_map]
  exact List.map_congr_left fun shape _ => shape.extremes?_markup stroke

/-- Tags are inside a rectangle if the shapes that they are written for are. -/
theorem encloses_of_mem_groups {box : Bounds} {stroke : String} {groups : List (List Shape)}
    (h : ∀ shapes ∈ groups, ∀ shape ∈ shapes, box.holds shape) {group node : Markup}
    (hgroup : group ∈ groups.map (groupNode stroke)) (hnode : node ∈ group.children) :
    box.encloses node := by
  obtain ⟨shapes, hshapes, rfl⟩ := List.mem_map.1 hgroup
  obtain ⟨shape, hshape, rfl⟩ := List.mem_map.1 hnode
  exact Bounds.encloses_markup.2 (h shapes hshapes shape hshape)

/-! ### Parts of a preview -/

section

variable (d : Drawing) (stroke : String) (background : Option String)

theorem viewBox_markup : (d.markup stroke background).attribute? "viewBox"
    = some s!"{d.viewBox.minX} {d.viewBox.minY} {d.viewBox.width} {d.viewBox.height}" :=
  rfl

theorem part_elements :
    (d.markup stroke background).part "elements" = d.elements.map (groupNode stroke) := by
  cases background <;> rfl

theorem part_relationships :
    (d.markup stroke background).part "relationships" = d.relationships.map (groupNode stroke) := by
  cases background <;> rfl

end

end Drawing

end UmlText
