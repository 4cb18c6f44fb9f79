import UmlText.Layout.Report
import UmlText.Preview.Shape
import UmlText.Settings

/-!
# Previews

A preview draws a layout report: a group of shapes for every entry, and one for every relationship
view. `Drawing.ofReport` computes the shapes, `Drawing.markup` writes them as an SVG document.
-/

namespace UmlText

universe u

/-- The colors of a preview. -/
structure Palette where
  background : Option Color
  line : Color
  package : Option Color

/-- The colors that style settings give. -/
def Palette.ofStyle (s : StyleSettings) : Except PreviewError Palette :=
  match s.background, s.line, s.package with
  | .error message, _, _ => .error (.render message)
  | .ok _, .error message, _ => .error (.render message)
  | .ok _, .ok _, .error message => .error (.render message)
  | .ok background, .ok line, .ok package =>
    .ok { background, line := line.getD Color.standard, package }

/-- The shapes of a preview. -/
structure Drawing where
  /-- The rectangle that is visible. -/
  viewBox : Bounds
  /-- A group for each drawn element. -/
  elements : List (List Shape)
  /-- A group for each drawn relationship. -/
  relationships : List (List Shape)
deriving DecidableEq, Repr

namespace Drawing

/-- The free space around the content. -/
def margin : Int := 20

def fontSize : Int := 12

/-- The distance between the base lines of members. -/
def lineHeight : Int := 15

/-- The height of the compartment with the name of a classifier. -/
def nameHeight : Int := 25

/-! ### Elements -/

/-- The members of an element as they are drawn. -/
def memberLines (body : Body) : List String :=
  match body.literals?, body.classifier? with
  | some literals, _ => literals
  | none, some classifier =>
    let suffix (typeName : Option String) : String := typeName.elim "" fun text => s!": {text}"
    let attributes := classifier.attributes.map fun a =>
      s!"{a.visibility.marker} {a.name}{suffix a.typeName}"
    let operations := classifier.operations.map fun o =>
      let parameters := ", ".intercalate (o.inputs.filterMap Parameter.name?)
      s!"{o.visibility.marker} {o.name}({parameters}){suffix o.returnType?}"
    attributes ++ operations
  | none, none => []

/-- The title of a classifier, with its kind unless it is a class. -/
def classifierTitle (name : String) : Body → String
  | .interface _ => s!"«interface» {name}"
  | .enumeration _ => s!"«enum» {name}"
  | _ => name

/-- The texts of members, one below the other from the base line `y` on. -/
def memberShapes (x y : Int) : List String → List Shape
  | [] => []
  | member :: rest => .text ⟨x, y⟩ member {} :: memberShapes x (y + lineHeight) rest

/-- A box with a title, a divider and the members. -/
def classifierShapes (b : Bounds) (name : String) (body : Body) : List Shape :=
  let divider := b.minY + nameHeight
  let isAbstract := body.classifier?.any Classifier.isAbstract
  [.rectangle b Shape.plainFill,
    .text ⟨b.center.x, b.minY + 17⟩ (classifierTitle name body)
      { anchor := .middle, bold := true, italic := isAbstract },
    Shape.plainLine b.minX divider b.maxX divider]
    ++ memberShapes (b.minX + 5) (divider + lineHeight) (memberLines body)

/-- A stick figure over its name. -/
def actorShapes (b : Bounds) (name : String) : List Shape :=
  let x := b.center.x
  let radius := b.width.tdiv 4
  let neck := b.minY + 2 * radius
  let hip := b.minY + (b.height * 5).tdiv 8
  let arms := neck + (hip - neck).tdiv 3
  [.circle ⟨x, b.minY + radius⟩ radius,
    Shape.plainLine x neck x hip,
    Shape.plainLine b.minX arms b.maxX arms,
    Shape.plainLine x hip b.minX b.maxY,
    Shape.plainLine x hip b.maxX b.maxY,
    .text ⟨x, b.maxY + lineHeight⟩ name { anchor := .middle }]

/-- An ellipse around its name. -/
def useCaseShapes (b : Bounds) (name : String) : List Shape :=
  [.ellipse b.center (b.width.tdiv 2) (b.height.tdiv 2),
    .text b.center name { anchor := .middle, vertical := true }]

/-- A box with a name in its upper left corner. -/
def packageShapes (fill : String) (b : Bounds) (name : String) : List Shape :=
  [.rectangle b fill, .text ⟨b.minX + 8, b.minY + 18⟩ name {}]

/-- The shapes of an element inside its bounds. -/
def elementShapes (packageFill : String) (b : Bounds) (e : Element) : List Shape :=
  match e.body with
  | .package => packageShapes packageFill b e.name
  | .actor => actorShapes b e.name
  | .useCase => useCaseShapes b e.name
  | .umlClass _ | .interface _ | .enumeration _ => classifierShapes b e.name e.body
  | .project | .relationship _ => []

/-! ### Relationships -/

/-- Whether the line of a relationship is dashed. -/
def isDashed : RelationshipKind → Bool
  | .interfaceRealization | .dependency | .inclusion | .extension => true
  | .generalization | .association => false

/-- The marker at an end of an association. -/
def endMarker (s : EndSpec) : Option LineMarker :=
  match s.aggregation with
  | .composite => some .filledDiamond
  | .shared => some .diamond
  | .none => if s.navigable then some .arrow else none

/-- The markers at the source and at the target of a relationship. -/
def lineMarkers (r : Relationship) : Option LineMarker × Option LineMarker :=
  match r.kind with
  | .generalization | .interfaceRealization => (none, some .triangle)
  | .dependency | .inclusion | .extension => (none, some .arrow)
  | .association => (endMarker r.end1.spec, endMarker r.end2.spec)

/-- The text beside a relationship: its stereotype, or its name. -/
def relationshipLabel (name : String) : RelationshipKind → String
  | .inclusion => "«include»"
  | .extension => "«extend»"
  | _ => name

/-- A line between the centers of two views, and the label over its middle. -/
def relationshipShapes (tail head : Point) (name : String) (r : Relationship) : List Shape :=
  let (startMarker, stopMarker) := lineMarkers r
  let label := relationshipLabel name r.kind
  let middle : Point := ⟨(tail.x + head.x).tdiv 2, (tail.y + head.y).tdiv 2 - 4⟩
  .line tail head (isDashed r.kind) startMarker stopMarker ::
    if label = "" then [] else [.text middle label { anchor := .middle }]

/-! ### Reports -/

/-- The rectangle around all entries of a report; without entries it is empty. -/
def content (report : LayoutReport) : Bounds :=
  (Bounds.mergeAll (report.entries.map LayoutEntry.bounds)).getD ⟨0, 0, 0, 0⟩

/-- The bounds of a view of a report. A view stands in a report once. -/
def boundsOf? (report : LayoutReport) (view : ViewId) : Option Bounds :=
  (report.entries.find? fun e => e.view = view).map LayoutEntry.bounds

variable {σ : Type u} [ModelStore σ]

/-- The shapes of one entry, if the store knows its element. -/
def entryGroup? (store : σ) (packageFill : String) (entry : LayoutEntry) : Option (List Shape) :=
  (ModelStore.element? store entry.element).map (elementShapes packageFill entry.bounds)

/-- The shapes of one relationship view, if both of its ends are in the report. -/
def relationshipGroup? (store : σ) (report : LayoutReport) (view : RelationshipView) :
    Option (List Shape) := do
  let tail ← boundsOf? report view.tail
  let head ← boundsOf? report view.head
  let element ← ModelStore.element? store view.model
  let relationship ← element.body.relationship?
  return relationshipShapes tail.center head.center element.name relationship

/-- The shapes of a report. -/
def ofReport (store : σ) (report : LayoutReport) (packageFill : String) : Drawing :=
  { viewBox := (content report).pad (.uniform margin)
    elements := report.entries.filterMap (entryGroup? store packageFill)
    relationships := report.relationships.filterMap (relationshipGroup? store report) }

/-! ### Documents -/

/-- A marker for the ends of lines. -/
def markerNode (stroke : String) (marker : LineMarker) (path fill : String) (tip : Int) : Markup :=
  .element "marker" [
    ("id", marker.name), ("viewBox", "0 0 20 10"), ("refX", toString tip), ("refY", "5"),
    ("markerWidth", "12"), ("markerHeight", "6"), ("orient", "auto-start-reverse")]
    [.element "path" [("d", path), ("fill", fill), ("stroke", stroke)] []]

/-- All markers, in the colors of the lines. -/
def markerNodes (stroke : String) : Markup :=
  .element "defs" [] [
    markerNode stroke .triangle "M 0 0 L 10 5 L 0 10 z" Shape.plainFill 10,
    markerNode stroke .arrow "M 0 0 L 10 5 L 0 10" "none" 10,
    markerNode stroke .filledDiamond "M 0 5 L 10 0 L 20 5 L 10 10 z" stroke 20,
    markerNode stroke .diamond "M 0 5 L 10 0 L 20 5 L 10 10 z" Shape.plainFill 20]

/-- A group of shapes. -/
def groupNode (stroke : String) (shapes : List Shape) : Markup :=
  .element "g" [] (shapes.map (Shape.markup stroke))

/-- A drawing as an SVG document. -/
def markup (d : Drawing) (stroke : String) (background : Option String) : Markup :=
  let box := d.viewBox
  let width := toString box.width
  let height := toString box.height
  let backdrop := background.toList.map fun fill =>
    Markup.element "rect" [
      ("x", toString box.minX), ("y", toString box.minY),
      ("width", width), ("height", height), ("fill", fill)] []
  .element "svg" [
    ("xmlns", "http://www.w3.org/2000/svg"),
    ("viewBox", s!"{box.minX} {box.minY} {width} {height}"),
    ("width", width), ("height", height),
    ("font-family", "sans-serif"), ("font-size", toString fontSize)]
    (backdrop
      ++ [markerNodes stroke,
        .element "g" [("id", "elements")] (d.elements.map (groupNode stroke)),
        .element "g" [("id", "relationships")] (d.relationships.map (groupNode stroke))])

end Drawing

/-- The fill of packages where no color is set. -/
def Palette.packageFill (p : Palette) : String := p.package.elim "whitesmoke" Color.text

/-- The SVG document of a report. -/
def Palette.render {σ : Type u} [ModelStore σ] (p : Palette) (store : σ) (report : LayoutReport) :
    String :=
  let drawing := Drawing.ofReport store report p.packageFill
  (drawing.markup p.line.text (p.background.map Color.text)).render

/-- The SVG document of a report in the colors of some settings. -/
def renderPreview {σ : Type u} [ModelStore σ] (store : σ) (report : LayoutReport)
    (style : StyleSettings) : Except PreviewError String :=
  (Palette.ofStyle style).map (·.render store report)

end UmlText
