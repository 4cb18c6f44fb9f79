import UmlText.Proofs.Store.Requests

/-!
# UmlText.Proofs.Store.Reachable

The workspaces that a host can get to: a new workspace, and what any sequence of requests makes of
it. Edits in place carry the proof that they leave alone what a workspace relies on.

The invariant needed by layouts is `Numbered`: numbers grow with time, so an owner has a smaller
number than what it owns, and the counter for views is ahead of every view. It is proved for one
request at a time (`Numbered.after`) and lifted to every reachable workspace.
-/

namespace UmlText

/-- An edit of an element that leaves its number, its place in the model and what it joins. -/
structure ElementEdit where
  apply : Element → Element
  id_apply : ∀ e, (apply e).id = e.id
  parent_apply : ∀ e, (apply e).parent = e.parent
  owned_apply : ∀ e, (apply e).owned = e.owned
  kind?_apply : ∀ e, (apply e).kind? = e.kind?
  ends_apply : ∀ e, (apply e).body.relationship?.map (fun r => (r.kind, r.source, r.target))
    = e.body.relationship?.map fun r => (r.kind, r.source, r.target)

/-- An edit of a view that leaves what it shows and where it belongs: only its geometry and whether
it names its owner may change. -/
structure ViewEdit where
  apply : View → View
  id_apply : ∀ v, (apply v).id = v.id
  diagram_apply : ∀ v, (apply v).diagram = v.diagram
  model_apply : ∀ v, (apply v).model = v.model
  container_apply : ∀ v, (apply v).container = v.container

/-- The requests that a workspace can be sent. -/
inductive Request where
  | createElement (request : NewElement)
  | addMember (owner : ElementId) (member : Member)
  | editElement (id : ElementId) (edit : ElementEdit)
  | createDiagram (kind : DiagramKind) (owner : ElementId)
  | openDiagram (id : DiagramId)
  | createView (request : NewView)
  | editView (id : ViewId) (edit : ViewEdit)
  | createRelationshipView (request : NewRelationship)
  | select (elements : List ElementId)
  | repaint

namespace Workspace

/-- A workspace after a request, whether that was granted or not. -/
def after (w : Workspace) : Request → Workspace
  | .createElement request => (w.createElement request).2
  | .addMember owner member => (w.addMember owner member).2
  | .editElement id edit => w.updateElement id edit.apply
  | .createDiagram kind owner => (w.createDiagram kind owner).2
  | .openDiagram id => (w.setCurrentDiagram id).2
  | .createView request => (w.createView request).2
  | .editView id edit => w.updateView id edit.apply
  | .createRelationshipView request => (w.createRelationshipView request).2
  | .select elements => w.select elements
  | .repaint => w.repaint

/-- What any sequence of requests makes of a new workspace. -/
inductive Reachable : Workspace → Prop
  | new (projectName : String) : Reachable (.new projectName)
  | step {w : Workspace} (h : Reachable w) (request : Request) : Reachable (w.after request)

/-! ### Numbers grow with time -/

/-- Owners have smaller numbers than what they own, and no view has reached the counter. -/
structure Numbered (w : Workspace) : Prop where
  /-- The parent of an element was there before it. -/
  parent_lt : ∀ id e parent, w.element? id = some e → e.parent = some parent →
    parent.index < id.index
  /-- The counter is ahead of every view. -/
  view_lt : ∀ v ∈ w.views, v.id.index < w.nextView

/-- A package that owns an element was there before it. -/
theorem Numbered.owner_lt {w : Workspace} (h : w.Numbered) {element package : ElementId}
    (hown : ModelStore.owningPackage? w element = some package) :
    package.index < element.index := by
  simp only [ModelStore.owningPackage?, Option.bind_eq_bind, Option.bind_eq_some_iff] at hown
  obtain ⟨e, he, parent, hparent, hpackage⟩ := hown
  split at hpackage
  · obtain rfl := Option.some.inj hpackage
    exact h.parent_lt element e parent he hparent
  · cases hpackage

theorem numbered_new (projectName : String) : (new projectName).Numbered where
  parent_lt := by
    intro id e parent he hp
    obtain ⟨i⟩ := id
    cases i with
    | zero => simp [element?, new] at he; simp [← he] at hp
    | succ i => simp [element?, new] at he
  view_lt := by simp [new]

/-- An element that is pushed under one that exists keeps the numbers in order. -/
theorem Numbered.pushElement {w : Workspace} (h : w.Numbered) {parent : ElementId}
    {owner : Element} (howner : w.element? parent = some owner) (name : String) (body : Body) :
    (w.pushElement parent name body).2.Numbered where
  parent_lt := by
    intro id e p he hp
    have hlt : parent.index < w.elements.length := (List.getElem?_eq_some_iff.1 howner).1
    rw [element?_pushElement] at he
    obtain ⟨e', he', rfl⟩ := Option.map_eq_some_iff.1 he
    have hp' : e'.parent = some p := by
      by_cases hj : parent = id <;> simpa [hj] using hp
    by_cases hid : id.index = w.elements.length
    · rw [if_pos hid] at he'
      obtain rfl := Option.some.inj he'
      obtain rfl := Option.some.inj hp'
      omega
    · rw [if_neg hid] at he'
      exact h.parent_lt id e' p he' hp'
  view_lt := h.view_lt

/-- An edit of an element that leaves its parent keeps the numbers in order. -/
theorem Numbered.updateElement {w : Workspace} (h : w.Numbered) (id : ElementId)
    {f : Element → Element} (hf : ∀ e, (f e).parent = e.parent) :
    (w.updateElement id f).Numbered where
  parent_lt := by
    intro j e p he hp
    rw [element?_updateElement] at he
    obtain ⟨e', he', rfl⟩ := Option.map_eq_some_iff.1 he
    refine h.parent_lt j e' p he' ?_
    by_cases hj : id = j <;> simpa [hj, hf] using hp
  view_lt := h.view_lt

/-- A view under the number of the counter keeps the numbers in order. -/
theorem Numbered.withView {w : Workspace} (h : w.Numbered) {v : View}
    (hv : v.id = ⟨w.nextView⟩) : (w.withView v).Numbered :=
  { h with view_lt := view_lt_withView h.view_lt hv }

theorem Numbered.updateView {w : Workspace} (h : w.Numbered) (id : ViewId) {f : View → View}
    (hf : ∀ v, (f v).id = v.id) : (w.updateView id f).Numbered :=
  { h with view_lt := view_lt_updateView h.view_lt id hf }

theorem Numbered.withRelationship {w : Workspace} (h : w.Numbered) {request : NewRelationship}
    (hfault : w.relationshipFault? request = none) : (w.withRelationship request).Numbered := by
  obtain ⟨owner, howner, -⟩ := Option.bind_eq_some_iff.1
    (Option.isSome_iff_exists.1 (relationshipFault?_eq_none.1 hfault).2.1).choose_spec
  have hpushed := h.pushElement howner "" (.relationship
    { kind := request.kind, end1 := ⟨request.source, {}⟩, end2 := ⟨request.target, {}⟩ })
  exact ⟨hpushed.parent_lt, fun v hv => Nat.lt_succ_of_lt (h.view_lt v hv)⟩

/-- One request keeps the numbers in order. -/
theorem Numbered.after {w : Workspace} (h : w.Numbered) (request : Request) :
    (w.after request).Numbered := by
  cases request with
  | createElement request =>
      simp only [Workspace.after]
      rcases w.createElement_cases request with ⟨error, he⟩ | ⟨owner, howner, hbody⟩
      · rw [he]; exact h
      · rw [createElement_granted howner hbody]
        exact h.pushElement howner _ _
  | addMember owner member =>
      simp only [Workspace.after]
      rcases w.addMember_cases owner member with ⟨error, he⟩ | ⟨element, body, howner, hbody⟩
      · rw [he]; exact h
      · rw [addMember_granted howner hbody]
        exact h.updateElement owner (f := fun e => { e with body }) fun _ => rfl
  | editElement id edit => exact h.updateElement id edit.parent_apply
  | createDiagram kind owner =>
      simp only [Workspace.after]
      rcases w.createDiagram_cases kind owner with ⟨error, he⟩ | ⟨element, -, he⟩
      · rw [he]; exact h
      · rw [he]; exact ⟨h.parent_lt, h.view_lt⟩
  | openDiagram id =>
      simp only [Workspace.after]
      rcases w.setCurrentDiagram_cases id with ⟨error, he⟩ | ⟨diagram, -, he⟩
      · rw [he]; exact h
      · rw [he]; exact ⟨h.parent_lt, h.view_lt⟩
  | createView request =>
      simp only [Workspace.after]
      rcases w.createView_cases request with ⟨error, he⟩ | ⟨element, hgrants⟩
      · rw [he]; exact h
      · rw [hgrants.createView]
        exact h.withView rfl
  | editView id edit => exact h.updateView id edit.id_apply
  | createRelationshipView request =>
      simp only [Workspace.after]
      rcases w.createRelationshipView_cases request with ⟨error, he⟩ | ⟨hfault, he⟩
      · rw [he]; exact h
      · rw [he]; exact h.withRelationship hfault
  | select elements => exact ⟨h.parent_lt, h.view_lt⟩
  | repaint => exact ⟨h.parent_lt, h.view_lt⟩

/-- In every reachable workspace numbers grow with time. -/
theorem Reachable.numbered {w : Workspace} (h : w.Reachable) : w.Numbered := by
  induction h with
  | new projectName => exact numbered_new projectName
  | step _ request ih => exact ih.after request

end Workspace

end UmlText
