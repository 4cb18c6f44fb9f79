import UmlText.Model.Diagram

/-!
# Model and view stores

Models and diagrams belong to a host. Reading and layout reach them only through two interfaces:
`ModelStore` creates and looks up elements, `ViewStore` creates diagrams and places views. Every
request answers with a result and with the store after it, because a host may keep records even of
what it refuses.
-/

namespace UmlText

universe u

/-- What an element may be asked to own. -/
inductive Ownable where
  | elements
  | attributes
  | operations
  | literals
deriving DecidableEq, Repr, Inhabited

def Ownable.text : Ownable → String
  | elements => "model elements"
  | attributes => "attributes"
  | operations => "operations"
  | literals => "enumeration literals"

/-- What the owner of a member must be able to own. -/
def Ownable.ofMember : Member → Ownable
  | .ofAttribute _ => attributes
  | .ofOperation _ => operations
  | .ofLiteral _ => literals

/-- Why a store did not carry out a request. -/
inductive StoreError where
  | unknownElement (id : ElementId)
  | unknownView (id : ViewId)
  | unknownDiagram (id : DiagramId)
  | invalidOwner (owner : ElementId) (item : Ownable)
  | rejected (reason : String)
deriving DecidableEq, Repr, Inhabited

def StoreError.message : StoreError → String
  | unknownElement id => s!"unknown model element {id.text}"
  | unknownView id => s!"unknown view {id.text}"
  | unknownDiagram id => s!"unknown diagram #{id.index}"
  | invalidOwner owner item => s!"element {owner.text} cannot own {item.text}"
  | rejected reason => s!"store rejected the operation: {reason}"

/-- A request for an element under `parent`. -/
structure NewElement where
  kind : ElementKind
  parent : ElementId
  name : String
  isAbstract : Bool := false
deriving DecidableEq, Repr, Inhabited

/-- A request for a view of `model`, inside `container` if one is given. -/
structure NewView where
  model : ElementId
  diagram : DiagramId
  position : Point
  container : Option ViewId := none
deriving DecidableEq, Repr, Inhabited

/-- A request for a relationship element together with its view. -/
structure NewRelationship where
  kind : RelationshipKind
  diagram : DiagramId
  source : ElementId
  target : ElementId
  sourceView : ViewId
  targetView : ViewId
deriving DecidableEq, Repr, Inhabited

/-- The host's model. -/
class ModelStore (σ : Type u) where
  /-- The project element that owns everything else. -/
  projectRoot : σ → ElementId
  /-- The elements the user selected, in selection order. -/
  selection : σ → List ElementId
  element? : σ → ElementId → Option Element
  /-- Changes an element in place; an unknown one is left alone. -/
  updateElement : σ → ElementId → (Element → Element) → σ
  /-- Creates an element as the last one its parent owns. -/
  createElement : σ → NewElement → Except StoreError ElementId × σ
  /-- Gives an element one more member. -/
  addMember : σ → ElementId → Member → Except StoreError Unit × σ

/-- The host's diagrams and views. -/
class ViewStore (σ : Type u) where
  currentDiagram? : σ → Option Diagram
  createDiagram : σ → DiagramKind → ElementId → Except StoreError DiagramId × σ
  setCurrentDiagram : σ → DiagramId → Except StoreError Unit × σ
  /-- Places a view; the store chooses its size. -/
  createView : σ → NewView → Except StoreError ViewId × σ
  view? : σ → ViewId → Option View
  /-- Changes a view in place; an unknown one is left alone. -/
  updateView : σ → ViewId → (View → View) → σ
  /-- Creates a relationship element and the view between its ends. -/
  createRelationshipView : σ → NewRelationship → Except StoreError RelationshipView × σ
  /-- Asks the host to redraw the current diagram. -/
  repaint : σ → σ

namespace ModelStore

variable {σ : Type u} [ModelStore σ]

/-- The kind of an element that diagram text could declare. -/
def kind? (s : σ) (id : ElementId) : Option ElementKind :=
  (element? s id).bind Element.kind?

/-- The name of an element, empty for an unknown one. -/
def nameOf (s : σ) (id : ElementId) : String :=
  ((element? s id).map Element.name).getD ""

/-- The package that directly owns an element. -/
def owningPackage? (s : σ) (id : ElementId) : Option ElementId := do
  let parent ← (← element? s id).parent
  if kind? s parent = some .package then some parent else none

end ModelStore

end UmlText
