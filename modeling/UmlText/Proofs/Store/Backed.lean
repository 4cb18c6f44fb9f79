import UmlText.Proofs.Store.Reachable
import UmlText.Store.Host

/-!
# UmlText.Proofs.Store.Backed

**Stores that keep a workspace.** A store is backed by a workspace if its lookups are those of the
workspace, and if every request is either carried out by the workspace or refused without a trace.
A workspace is such a store, and so is a workspace behind any policy; what is proved of backed
stores holds under every pattern of refusals.
-/

namespace UmlText

universe u

/-- What a store may answer to a request that a workspace `w` could carry out: the answer of the
workspace, or a refusal that leaves it as it was. -/
def Answers {α : Type} (w : Workspace) (request : Workspace → Except StoreError α × Workspace)
    (result : Except StoreError α) (w' : Workspace) : Prop :=
  (result, w') = request w ∨ ∃ error, result = .error error ∧ w' = w

/-- A store only adds to the refusals of its workspace: what it carries out, the workspace does. -/
theorem Answers.cases {α : Type} {w w' : Workspace}
    {request : Workspace → Except StoreError α × Workspace} {result : Except StoreError α}
    (h : Answers w request result w') {P : Prop}
    (hcases : (∃ error, request w = (.error error, w)) ∨ P) :
    (∃ error, result = .error error ∧ w' = w) ∨ P ∧ (result, w') = request w := by
  rcases h with hgranted | hrefused
  · rcases hcases with ⟨error, he⟩ | hp
    · exact .inl ⟨error, Prod.mk.inj (hgranted.trans he)⟩
    · exact .inr ⟨hp, hgranted⟩
  · exact .inl hrefused

/-- What holds before a request and after it was carried out holds whatever the answer is. -/
theorem Answers.keeps {α : Type} {w w' : Workspace}
    {request : Workspace → Except StoreError α × Workspace} {result : Except StoreError α}
    {P : Workspace → Prop} (h : Answers w request result w') (hbefore : P w)
    (hafter : P (request w).2) : P w' := by
  rcases h with hgranted | ⟨error, -, rfl⟩
  · obtain rfl : w' = (request w).2 := congrArg Prod.snd hgranted
    exact hafter
  · exact hbefore

/-- A store that keeps its model and its diagrams in a workspace. -/
class BackedStore (σ : Type u) [ModelStore σ] [ViewStore σ] where
  workspace : σ → Workspace
  projectRoot_eq (s : σ) : ModelStore.projectRoot s = Workspace.root
  selection_eq (s : σ) : ModelStore.selection s = (workspace s).selection
  element?_eq (s : σ) (id : ElementId) : ModelStore.element? s id = (workspace s).element? id
  workspace_updateElement (s : σ) (id : ElementId) (f : Element → Element) :
    workspace (ModelStore.updateElement s id f) = (workspace s).updateElement id f
  createElement_answers (s : σ) (request : NewElement) :
    Answers (workspace s) (·.createElement request) (ModelStore.createElement s request).1
      (workspace (ModelStore.createElement s request).2)
  addMember_answers (s : σ) (owner : ElementId) (member : Member) :
    Answers (workspace s) (·.addMember owner member) (ModelStore.addMember s owner member).1
      (workspace (ModelStore.addMember s owner member).2)
  currentDiagram?_eq (s : σ) : ViewStore.currentDiagram? s = (workspace s).currentDiagram?
  createDiagram_answers (s : σ) (kind : DiagramKind) (owner : ElementId) :
    Answers (workspace s) (·.createDiagram kind owner) (ViewStore.createDiagram s kind owner).1
      (workspace (ViewStore.createDiagram s kind owner).2)
  setCurrentDiagram_answers (s : σ) (id : DiagramId) :
    Answers (workspace s) (·.setCurrentDiagram id) (ViewStore.setCurrentDiagram s id).1
      (workspace (ViewStore.setCurrentDiagram s id).2)
  createView_answers (s : σ) (request : NewView) :
    Answers (workspace s) (·.createView request) (ViewStore.createView s request).1
      (workspace (ViewStore.createView s request).2)
  view?_eq (s : σ) (id : ViewId) : ViewStore.view? s id = (workspace s).view? id
  workspace_updateView (s : σ) (id : ViewId) (f : View → View) :
    workspace (ViewStore.updateView s id f) = (workspace s).updateView id f
  createRelationshipView_answers (s : σ) (request : NewRelationship) :
    Answers (workspace s) (·.createRelationshipView request)
      (ViewStore.createRelationshipView s request).1
      (workspace (ViewStore.createRelationshipView s request).2)
  workspace_repaint (s : σ) : workspace (ViewStore.repaint s) = (workspace s).repaint

namespace BackedStore

attribute [simp] projectRoot_eq selection_eq element?_eq workspace_updateElement
  currentDiagram?_eq view?_eq workspace_updateView workspace_repaint

/-- A workspace is backed by itself and refuses nothing. -/
instance : BackedStore Workspace where
  workspace w := w
  projectRoot_eq _ := rfl
  selection_eq _ := rfl
  element?_eq _ _ := rfl
  workspace_updateElement _ _ _ := rfl
  createElement_answers _ _ := .inl rfl
  addMember_answers _ _ _ := .inl rfl
  currentDiagram?_eq _ := rfl
  createDiagram_answers _ _ _ := .inl rfl
  setCurrentDiagram_answers _ _ := .inl rfl
  createView_answers _ _ := .inl rfl
  view?_eq _ _ := rfl
  workspace_updateView _ _ _ := rfl
  createRelationshipView_answers _ _ := .inl rfl
  workspace_repaint _ := rfl

@[simp] theorem workspace_self (w : Workspace) : workspace w = w := rfl

/-- A guarded request is carried out by the workspace, or refused without a trace. -/
theorem guarded_answers {α : Type} (h : Host) (reason : Option String)
    (request : Workspace → Except StoreError α × Workspace) :
    Answers h.workspace request (h.guarded reason request).1
      (h.guarded reason request).2.workspace := by
  cases reason with
  | none => exact .inl rfl
  | some text => exact .inr ⟨.rejected text, rfl, rfl⟩

/-- A host is backed by its workspace, whatever its policy refuses. -/
instance : BackedStore Host where
  workspace := Host.workspace
  projectRoot_eq _ := rfl
  selection_eq _ := rfl
  element?_eq _ _ := rfl
  workspace_updateElement _ _ _ := rfl
  createElement_answers h _ := guarded_answers h _ _
  addMember_answers h _ _ := guarded_answers h _ _
  currentDiagram?_eq _ := rfl
  createDiagram_answers h _ _ := guarded_answers h _ _
  setCurrentDiagram_answers h _ := guarded_answers h _ _
  createView_answers h _ := guarded_answers h _ _
  view?_eq _ _ := rfl
  workspace_updateView _ _ _ := rfl
  createRelationshipView_answers h _ := guarded_answers h _ _
  workspace_repaint _ := rfl

@[simp] theorem workspace_host (h : Host) : workspace h = h.workspace := rfl

variable {σ : Type u} [ModelStore σ] [ViewStore σ] [BackedStore σ]

/-! ### Lookups through the workspace -/

@[simp] theorem kind?_eq (s : σ) (id : ElementId) :
    ModelStore.kind? s id = (workspace s).kind? id := by
  simp [ModelStore.kind?, Workspace.kind?]

@[simp] theorem nameOf_eq (s : σ) (id : ElementId) :
    ModelStore.nameOf s id = ModelStore.nameOf (workspace s) id := by
  simp [ModelStore.nameOf]

theorem owningPackage?_eq (s : σ) (id : ElementId) :
    ModelStore.owningPackage? s id = ModelStore.owningPackage? (workspace s) id := by
  simp [ModelStore.owningPackage?]

/-! ### Requests seen from the workspace -/

/-- An element is refused without a trace, or is pushed below one that can own it. -/
theorem createElement_cases (s : σ) (request : NewElement) :
    (∃ error store, ModelStore.createElement s request = (.error error, store) ∧
        workspace store = workspace s) ∨
      ∃ owner store, (workspace s).element? request.parent = some owner ∧
        owner.body.relationship? = none ∧
        ModelStore.createElement s request = (.ok ⟨(workspace s).elements.length⟩, store) ∧
        workspace store = ((workspace s).pushElement request.parent request.name
          (.empty request.kind request.isAbstract)).2 := by
  have hans := createElement_answers s request
  rcases hc : ModelStore.createElement s request with ⟨result, store⟩
  rw [hc] at hans
  rcases hans.cases ((workspace s).createElement_cases request) with
    ⟨error, rfl, hw⟩ | ⟨⟨owner, howner, hbody⟩, hgranted⟩
  · exact .inl ⟨error, store, rfl, hw⟩
  · obtain ⟨rfl, hw⟩ := Prod.mk.inj
      (hgranted.trans (Workspace.createElement_granted howner hbody))
    exact .inr ⟨owner, store, howner, hbody, rfl, hw⟩

/-- A member is refused without a trace, or goes into the body of its owner. -/
theorem addMember_cases (s : σ) (id : ElementId) (member : Member) :
    (∃ error store, ModelStore.addMember s id member = (.error error, store) ∧
        workspace store = workspace s) ∨
      ∃ element body store, (workspace s).element? id = some element ∧
        element.body.withMember? member = some body ∧
        ModelStore.addMember s id member = (.ok (), store) ∧
        workspace store = (workspace s).updateElement id fun e => { e with body } := by
  have hans := addMember_answers s id member
  rcases hc : ModelStore.addMember s id member with ⟨result, store⟩
  rw [hc] at hans
  rcases hans.cases ((workspace s).addMember_cases id member) with
    ⟨error, rfl, hw⟩ | ⟨⟨element, body, helement, hbody⟩, hgranted⟩
  · exact .inl ⟨error, store, rfl, hw⟩
  · obtain ⟨rfl, hw⟩ := Prod.mk.inj
      (hgranted.trans (Workspace.addMember_granted helement hbody))
    exact .inr ⟨element, body, store, helement, hbody, rfl, hw⟩

/-- A diagram is refused without a trace, or is a new one, and is open then. -/
theorem createDiagram_cases (s : σ) (kind : DiagramKind) (owner : ElementId) :
    (∃ error store, ViewStore.createDiagram s kind owner = (.error error, store) ∧
        workspace store = workspace s) ∨
      ∃ (d : Diagram) (store : σ), ViewStore.createDiagram s kind owner = (.ok d.id, store) ∧
        d.kind = kind ∧ d.owner = owner ∧
        (workspace store).diagrams = (workspace s).diagrams ++ [d] ∧
        (workspace store).current = some d.id ∧ (workspace store).diagram? d.id = some d := by
  have hans := createDiagram_answers s kind owner
  rcases hc : ViewStore.createDiagram s kind owner with ⟨result, store⟩
  rw [hc] at hans
  rcases hans.cases ((workspace s).createDiagram_cases kind owner) with
    ⟨error, rfl, hw⟩ | ⟨⟨-, -, he⟩, hgranted⟩
  · exact .inl ⟨error, store, rfl, hw⟩
  · obtain ⟨rfl, hw⟩ := Prod.mk.inj (hgranted.trans he)
    refine .inr ⟨⟨⟨(workspace s).diagrams.length⟩, kind, owner⟩, store, rfl, rfl, rfl, ?_⟩
    rw [hw]
    exact ⟨rfl, rfl, List.getElem?_concat_length⟩

/-- Opening a diagram is refused without a trace, or makes it the current one. -/
theorem setCurrentDiagram_cases (s : σ) (id : DiagramId) :
    (∃ error store, ViewStore.setCurrentDiagram s id = (.error error, store) ∧
        workspace store = workspace s) ∨
      ∃ store, ViewStore.setCurrentDiagram s id = (.ok (), store) ∧
        workspace store = { workspace s with current := some id } := by
  have hans := setCurrentDiagram_answers s id
  rcases hc : ViewStore.setCurrentDiagram s id with ⟨result, store⟩
  rw [hc] at hans
  rcases hans.cases ((workspace s).setCurrentDiagram_cases id) with
    ⟨error, rfl, hw⟩ | ⟨⟨-, -, he⟩, hgranted⟩
  · exact .inl ⟨error, store, rfl, hw⟩
  · obtain ⟨rfl, hw⟩ := Prod.mk.inj (hgranted.trans he)
    exact .inr ⟨store, rfl, hw⟩

end BackedStore

end UmlText
