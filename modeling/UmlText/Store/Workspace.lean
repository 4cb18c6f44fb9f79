import UmlText.Geometry.Saturating
import UmlText.Store

/-!
# Workspaces

A `Workspace` holds a model and its diagrams in lists indexed by id, so an id stays valid for as
long as the workspace lives. Element `0` is the project. Views and relationship views are numbered
by one counter. A request that is refused leaves the workspace as it was.
-/

namespace UmlText

/-- A model, its diagrams, and what the user has selected. -/
structure Workspace where
  elements : List Element
  diagrams : List Diagram := []
  views : List View := []
  relationshipViews : List RelationshipView := []
  nextView : Nat := 0
  current : Option DiagramId := none
  selection : List ElementId := []
  repaints : Nat := 0
deriving DecidableEq, Repr, Inhabited

namespace Workspace

/-- A workspace that holds only a project element. -/
def new (projectName : String := "Model") : Workspace :=
  { elements := [{ id := ⟨0⟩, name := projectName, body := .project }] }

/-- The project element. -/
def root : ElementId := ⟨0⟩

/-! ### Lookup -/

def element? (w : Workspace) (id : ElementId) : Option Element :=
  w.elements[id.index]?

def kind? (w : Workspace) (id : ElementId) : Option ElementKind :=
  (w.element? id).bind Element.kind?

/-- The first element with the given name. -/
def findByName? (w : Workspace) (name : String) : Option Element :=
  w.elements.find? fun e => e.name = name

def diagram? (w : Workspace) (id : DiagramId) : Option Diagram :=
  w.diagrams[id.index]?

def currentDiagram? (w : Workspace) : Option Diagram :=
  w.current.bind w.diagram?

def view? (w : Workspace) (id : ViewId) : Option View :=
  w.views.find? fun v => v.id = id

/-- The views placed on a diagram, oldest first. -/
def viewsOn (w : Workspace) (diagram : DiagramId) : List View :=
  w.views.filter fun v => v.diagram = diagram

/-- The relationship views drawn on a diagram, oldest first. -/
def relationshipViewsOn (w : Workspace) (diagram : DiagramId) : List RelationshipView :=
  w.relationshipViews.filter fun v => v.diagram = diagram

/-- The first view of an element on a diagram. -/
def viewOf? (w : Workspace) (model : ElementId) (diagram : DiagramId) : Option View :=
  (w.viewsOn diagram).find? fun v => v.model = model

/-! ### Editing in place -/

/-- Changes an element, if there is one with that number. -/
def updateElement (w : Workspace) (id : ElementId) (f : Element → Element) : Workspace :=
  { w with elements := w.elements.modify id.index f }

/-- Changes a view, if there is one with that number. -/
def updateView (w : Workspace) (id : ViewId) (f : View → View) : Workspace :=
  { w with views := w.views.map fun v => if v.id = id then f v else v }

def select (w : Workspace) (elements : List ElementId) : Workspace :=
  { w with selection := elements }

def repaint (w : Workspace) : Workspace :=
  { w with repaints := w.repaints + 1 }

/-! ### Elements and members -/

/-- Adds an element at the end and lists it as the last one its parent owns. -/
def pushElement (w : Workspace) (parent : ElementId) (name : String) (body : Body) :
    ElementId × Workspace :=
  let id : ElementId := ⟨w.elements.length⟩
  let element : Element := { id, name, parent := some parent, body }
  (id, { w with
    elements := (w.elements ++ [element]).modify parent.index fun e =>
      { e with owned := e.owned ++ [id] } })

/-- Everything but a relationship can own elements. -/
def createElement (w : Workspace) (request : NewElement) :
    Except StoreError ElementId × Workspace :=
  match w.element? request.parent with
  | none => (.error (.unknownElement request.parent), w)
  | some parent =>
    if parent.body.relationship?.isSome then
      (.error (.invalidOwner request.parent .elements), w)
    else
      let (id, w') := w.pushElement request.parent request.name
        (.empty request.kind request.isAbstract)
      (.ok id, w')

/-- Adds a member behind those that an element has. -/
def addMember (w : Workspace) (owner : ElementId) (member : Member) :
    Except StoreError Unit × Workspace :=
  match w.element? owner with
  | none => (.error (.unknownElement owner), w)
  | some element =>
    match element.body.withMember? member with
    | none => (.error (.invalidOwner owner (.ofMember member)), w)
    | some body => (.ok (), w.updateElement owner fun e => { e with body })

/-! ### Diagrams and views -/

/-- A new diagram becomes the current one. -/
def createDiagram (w : Workspace) (kind : DiagramKind) (owner : ElementId) :
    Except StoreError DiagramId × Workspace :=
  match w.element? owner with
  | none => (.error (.unknownElement owner), w)
  | some _ =>
    let id : DiagramId := ⟨w.diagrams.length⟩
    (.ok id, { w with diagrams := w.diagrams ++ [{ id, kind, owner }], current := some id })

/-- Makes a diagram the current one. -/
def setCurrentDiagram (w : Workspace) (id : DiagramId) : Except StoreError Unit × Workspace :=
  match w.diagram? id with
  | none => (.error (.unknownDiagram id), w)
  | some _ => (.ok (), { w with current := some id })

/-- The size a new view gets: a box for packages, actors and use cases, and a box that grows with
the members for everything that has members. -/
def nodeSize (element : Element) : Size :=
  match element.kind? with
  | some .package => ⟨200, 150⟩
  | some .actor => ⟨40, 80⟩
  | some .useCase => ⟨120, 60⟩
  | some .umlClass | some .interface | some .enumeration =>
    let members := Saturating.ofNat element.memberCount (Saturating.highest / 2)
    ⟨100, Saturating.add 45 (Saturating.mul members 15)⟩
  | none => ⟨100, 45⟩

/-- Whether a container given for a view on `diagram` is a view of that diagram. -/
def acceptsContainer (w : Workspace) (diagram : DiagramId) (container : ViewId) : Bool :=
  (w.view? container).any fun v => v.diagram = diagram

/-- Places a view of an element that has a kind, on a known diagram, inside a view of that
diagram if a container is given. -/
def createView (w : Workspace) (request : NewView) : Except StoreError ViewId × Workspace :=
  match w.diagram? request.diagram, w.element? request.model with
  | none, _ => (.error (.unknownDiagram request.diagram), w)
  | some _, none => (.error (.unknownElement request.model), w)
  | some _, some element =>
    if element.kind?.isNone then
      (.error (.rejected s!"element {request.model.text} has no node view"), w)
    else
      match request.container.filter fun c => !w.acceptsContainer request.diagram c with
      | some container => (.error (.unknownView container), w)
      | none =>
        let id : ViewId := ⟨w.nextView⟩
        let view : View := {
          id
          diagram := request.diagram
          model := request.model
          position := request.position
          size := nodeSize element
          container := request.container }
        (.ok id, { w with views := w.views ++ [view], nextView := w.nextView + 1 })

/-- Whether `view` shows `model`. -/
def shows (w : Workspace) (view : ViewId) (model : ElementId) : Bool :=
  (w.view? view).any fun v => v.model = model

/-- The first fault of a request for a relationship view. -/
def relationshipFault? (w : Workspace) (request : NewRelationship) : Option StoreError :=
  if (w.diagram? request.diagram).isNone then
    some (.unknownDiagram request.diagram)
  else if (w.kind? request.source).isNone then
    some (.unknownElement request.source)
  else if (w.kind? request.target).isNone then
    some (.unknownElement request.target)
  else if !w.shows request.sourceView request.source then
    some (.unknownView request.sourceView)
  else if !w.shows request.targetView request.target then
    some (.unknownView request.targetView)
  else
    none

/-- Creates a nameless relationship element under its source, and the view between its ends. -/
def createRelationshipView (w : Workspace) (request : NewRelationship) :
    Except StoreError RelationshipView × Workspace :=
  match w.relationshipFault? request with
  | some fault => (.error fault, w)
  | none =>
    let relationship : Relationship :=
      { kind := request.kind, end1 := ⟨request.source, {}⟩, end2 := ⟨request.target, {}⟩ }
    let (model, w') := w.pushElement request.source "" (.relationship relationship)
    let view : RelationshipView := {
      id := ⟨w.nextView⟩
      diagram := request.diagram
      model
      tail := request.sourceView
      head := request.targetView }
    (.ok view, { w' with
      relationshipViews := w'.relationshipViews ++ [view]
      nextView := w.nextView + 1 })

instance : ModelStore Workspace where
  projectRoot _ := root
  selection := Workspace.selection
  element? := element?
  updateElement := updateElement
  createElement := createElement
  addMember := addMember

instance : ViewStore Workspace where
  currentDiagram? := currentDiagram?
  createDiagram := createDiagram
  setCurrentDiagram := setCurrentDiagram
  createView := createView
  view? := view?
  updateView := updateView
  createRelationshipView := createRelationshipView
  repaint := repaint

end Workspace

end UmlText
