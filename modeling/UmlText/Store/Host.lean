import UmlText.Store.Workspace

/-!
# Hosts that refuse

A host keeps its model in a workspace but may refuse any request before the workspace sees it.
What it refuses is a `Policy`: for every kind of request, a function from the workspace and the
request to the reason for a refusal. `Refusals` are policies written as lists of names and kinds.
-/

namespace UmlText

/-- For each kind of request, the reason to refuse it, if there is one. -/
structure Policy where
  element : Workspace → NewElement → Option String := fun _ _ => none
  member : Workspace → ElementId → Member → Option String := fun _ _ _ => none
  diagram : Workspace → DiagramKind → ElementId → Option String := fun _ _ _ => none
  opening : Workspace → DiagramId → Option String := fun _ _ => none
  view : Workspace → NewView → Option String := fun _ _ => none
  relationship : Workspace → NewRelationship → Option String := fun _ _ => none

/-- A workspace behind a policy. -/
structure Host where
  workspace : Workspace
  policy : Policy := {}

namespace Host

/-- Carries a request out on the workspace, unless there is a reason to refuse it. -/
def guarded {α : Type} (h : Host) (reason : Option String)
    (request : Workspace → Except StoreError α × Workspace) : Except StoreError α × Host :=
  match reason with
  | some text => (.error (.rejected text), h)
  | none =>
    let (result, workspace) := request h.workspace
    (result, { h with workspace })

instance : ModelStore Host where
  projectRoot _ := Workspace.root
  selection h := h.workspace.selection
  element? h := h.workspace.element?
  updateElement h id f := { h with workspace := h.workspace.updateElement id f }
  createElement h request :=
    h.guarded (h.policy.element h.workspace request) (·.createElement request)
  addMember h owner member :=
    h.guarded (h.policy.member h.workspace owner member) (·.addMember owner member)

instance : ViewStore Host where
  currentDiagram? h := h.workspace.currentDiagram?
  createDiagram h kind owner :=
    h.guarded (h.policy.diagram h.workspace kind owner) (·.createDiagram kind owner)
  setCurrentDiagram h id :=
    h.guarded (h.policy.opening h.workspace id) (·.setCurrentDiagram id)
  createView h request :=
    h.guarded (h.policy.view h.workspace request) (·.createView request)
  view? h := h.workspace.view?
  updateView h id f := { h with workspace := h.workspace.updateView id f }
  createRelationshipView h request :=
    h.guarded (h.policy.relationship h.workspace request) (·.createRelationshipView request)
  repaint h := { h with workspace := h.workspace.repaint }

end Host

/-- What a host refuses, as lists. -/
structure Refusals where
  /-- Elements whose name starts with one of these. -/
  elements : List String := []
  /-- Members with one of these names. -/
  members : List String := []
  /-- Views of elements with one of these names. -/
  views : List String := []
  /-- Relationships of one of these kinds, given by the text of the kind. -/
  relationships : List String := []
  /-- Whether new diagrams are refused. -/
  diagrams : Bool := false
  /-- Whether making a diagram current is refused. -/
  opening : Bool := false
deriving DecidableEq, Repr, Inhabited

/-- The policy that refuses what is listed. A view of an unknown element is left to the
workspace. -/
def Refusals.policy (r : Refusals) : Policy where
  element _ request :=
    if r.elements.any fun start => start.toList.isPrefixOf request.name.toList then
      some s!"{request.name} is broken"
    else
      none
  member _ _ member :=
    if member.name ∈ r.members then some s!"{member.name} is refused" else none
  diagram _ _ _ := if r.diagrams then some "diagrams are read-only" else none
  opening _ _ := if r.opening then some "diagrams cannot be opened" else none
  view w request :=
    (w.element? request.model).bind fun element =>
      if element.name ∈ r.views then some s!"{element.name} is hidden" else none
  relationship _ request :=
    if request.kind.text ∈ r.relationships then
      some s!"{request.kind.text} is not supported"
    else
      none

end UmlText
