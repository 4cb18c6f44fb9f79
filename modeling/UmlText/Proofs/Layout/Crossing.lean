import UmlText.Proofs.Layout.Relating

/-!
# UmlText.Proofs.Layout.Crossing

**Relationship views and their diagrams.** A relationship view names a diagram and two views, its
tail and its head. A container of a view has to stand on the diagram of the view; the two views of a
relationship are only asked what they show. So a host can draw a relationship across diagrams.

No request moves a view to another diagram (`diagramOf?_after`) and none changes a relationship view
once it is drawn. Whether a relationship view keeps to one diagram is therefore settled when it is
drawn, by the request that draws it (`Draws.onOneDiagram_iff`). A layout asks for relationships
between views of its own diagram only (`layout_draws_on_one_diagram`).
-/

namespace UmlText

universe u

open BackedStore (workspace)

namespace Workspace

/-! ### Where views stand -/

/-- The diagram that a view stands on. -/
def diagramOf? (w : Workspace) (view : ViewId) : Option DiagramId :=
  (w.view? view).map View.diagram

/-- A relationship view that goes from a view of its diagram to a view of its diagram. -/
structure OnOneDiagram (w : Workspace) (v : RelationshipView) : Prop where
  tail : w.diagramOf? v.tail = some v.diagram
  head : w.diagramOf? v.head = some v.diagram

/-- A request for a relationship between two views of the diagram that it is to be drawn on. -/
structure NamesOneDiagram (w : Workspace) (request : NewRelationship) : Prop where
  source : w.diagramOf? request.sourceView = some request.diagram
  target : w.diagramOf? request.targetView = some request.diagram

theorem diagramOf?_withView {w : Workspace} {v : View} {view : ViewId} {diagram : DiagramId}
    (h : w.diagramOf? view = some diagram) : (w.withView v).diagramOf? view = some diagram := by
  obtain ⟨u, hu, hdiagram⟩ := Option.map_eq_some_iff.1 h
  exact Option.map_eq_some_iff.2 ⟨u, view?_withView hu, hdiagram⟩

theorem diagramOf?_updateView (w : Workspace) (id view : ViewId) (edit : ViewEdit) :
    (w.updateView id edit.apply).diagramOf? view = w.diagramOf? view := by
  unfold diagramOf?
  rw [view?_updateView w id view edit.id_apply, Option.map_map]
  cases w.view? view with
  | none => rfl
  | some v => by_cases hid : id = view <;> simp [hid, edit.diagram_apply]

/-- What a request does to what is drawn: nothing, or it adds a view, or it edits a view, or it draws
a relationship. -/
theorem drawing_cases (w : Workspace) (first : Request) :
    ((w.after first).views = w.views ∧
        (w.after first).relationshipViews = w.relationshipViews ∧
        ∀ request, first = .createRelationshipView request →
          w.relationshipFault? request ≠ none) ∨
      (∃ request v, first = .createView request ∧ w.after first = w.withView v) ∨
      (∃ id edit, first = .editView id edit) ∨
      ∃ request, first = .createRelationshipView request ∧
        w.relationshipFault? request = none ∧ w.after first = w.withRelationship request := by
  cases first with
  | createElement request =>
      left
      unfold after
      rcases w.createElement_cases request with ⟨error, he⟩ | ⟨owner, howner, hbody⟩
      · simp [he]
      · simp [createElement_granted howner hbody, pushElement]
  | addMember owner member =>
      left
      unfold after
      rcases w.addMember_cases owner member with ⟨error, he⟩ | ⟨element, body, howner, hbody⟩
      · simp [he]
      · simp [addMember_granted howner hbody, updateElement]
  | editElement id edit => left; simp [after, updateElement]
  | createDiagram kind owner =>
      left
      unfold after
      rcases w.createDiagram_cases kind owner with ⟨error, he⟩ | ⟨element, -, he⟩ <;> simp [he]
  | openDiagram id =>
      left
      unfold after
      rcases w.setCurrentDiagram_cases id with ⟨error, he⟩ | ⟨opened, -, he⟩ <;> simp [he]
  | createView request =>
      unfold after
      rcases w.createView_cases request with ⟨error, he⟩ | ⟨element, hgrants⟩
      · left; simp [he]
      · exact .inr (.inl ⟨request, _, rfl, congrArg Prod.snd hgrants.createView⟩)
  | editView id edit => exact .inr (.inr (.inl ⟨id, edit, rfl⟩))
  | createRelationshipView request =>
      rcases w.createRelationshipView_cases request with ⟨error, he⟩ | ⟨hfault, he⟩
      · left
        have hrefused : w.relationshipFault? request ≠ none := by
          intro hfault
          simp only [createRelationshipView, hfault] at he
          cases he
        simp [after, he, hrefused]
      · exact .inr (.inr (.inr ⟨request, rfl, hfault, congrArg Prod.snd he⟩))
  | select elements => left; simp [after, select]
  | repaint => left; simp [after, repaint]

/-- A view stays on its diagram. -/
theorem diagramOf?_after {w : Workspace} (first : Request) {view : ViewId} {diagram : DiagramId}
    (h : w.diagramOf? view = some diagram) : (w.after first).diagramOf? view = some diagram := by
  rcases w.drawing_cases first with
    ⟨hviews, -, -⟩ | ⟨request, v, -, hw⟩ | ⟨id, edit, rfl⟩ | ⟨request, -, -, hw⟩
  · -- Where the views are the same, so are their diagrams.
    unfold diagramOf? view?
    rw [hviews]
    exact h
  · rw [hw]; exact diagramOf?_withView h
  · exact (diagramOf?_updateView w id view edit).trans h
  · rw [hw]; exact h

/-- What shows an element stands on a diagram. -/
theorem isSome_diagramOf? {w : Workspace} {view : ViewId} {model : ElementId}
    (h : w.shows view model) : (w.diagramOf? view).isSome := by
  obtain ⟨v, hv, -⟩ := (Option.any_eq_true _ _).1 h
  simp [diagramOf?, hv]

/-! ### Drawing relationships -/

/-- A request adds the relationship view it draws and leaves the others as they are. -/
theorem mem_relationshipViews_after {w : Workspace} {first : Request} {v : RelationshipView} :
    v ∈ (w.after first).relationshipViews ↔
      v ∈ w.relationshipViews ∨ ∃ request, first = .createRelationshipView request ∧
        w.relationshipFault? request = none ∧ v = w.newRelationshipView request := by
  rcases w.drawing_cases first with
    ⟨-, hsame, hrefused⟩ | ⟨request, u, rfl, hw⟩ | ⟨id, edit, rfl⟩ | ⟨request, rfl, hfault, hw⟩
  · rw [hsame]
    refine ⟨.inl, fun h => h.resolve_right ?_⟩
    rintro ⟨request, hfirst, hfault, -⟩
    exact hrefused request hfirst hfault
  · simp [hw, withView]
  · simp [after, updateView]
  · simp [hw, hfault, withRelationship]

/-- Of a sequence of requests one drew a relationship view, when the workspace had become `drawing`. -/
inductive Draws : Workspace → List Request → Workspace → NewRelationship → Prop
  | here {w : Workspace} {request : NewRelationship} (h : w.relationshipFault? request = none)
      (later : List Request) : Draws w (.createRelationshipView request :: later) w request
  | later {w drawing : Workspace} {first : Request} {rest : List Request}
      {request : NewRelationship} (h : Draws (w.after first) rest drawing request) :
      Draws w (first :: rest) drawing request

/-- The relationship views that a sequence of requests adds are those it draws. -/
theorem mem_relationshipViews_foldl (history : List Request) (w : Workspace)
    (v : RelationshipView) :
    v ∈ (history.foldl after w).relationshipViews ↔
      v ∈ w.relationshipViews ∨
        ∃ drawing request, w.Draws history drawing request ∧
          v = drawing.newRelationshipView request := by
  induction history generalizing w with
  | nil =>
      refine ⟨.inl, fun h => h.resolve_right ?_⟩
      rintro ⟨drawing, request, hdraws, -⟩
      cases hdraws
  | cons first rest ih =>
      rw [List.foldl_cons, ih, mem_relationshipViews_after, or_assoc]
      refine or_congr_right ⟨?_, ?_⟩
      · rintro (⟨request, rfl, hfault, rfl⟩ | ⟨drawing, request, hdraws, rfl⟩)
        · exact ⟨w, request, .here hfault rest, rfl⟩
        · exact ⟨drawing, request, .later hdraws, rfl⟩
      · rintro ⟨drawing, request, hdraws, rfl⟩
        cases hdraws with
        | here hfault => exact .inl ⟨request, rfl, hfault, rfl⟩
        | later hdraws => exact .inr ⟨drawing, request, hdraws, rfl⟩

theorem diagramOf?_foldl {history : List Request} {w : Workspace} {view : ViewId}
    {diagram : DiagramId} (h : w.diagramOf? view = some diagram) :
    (history.foldl after w).diagramOf? view = some diagram := by
  induction history generalizing w with
  | nil => exact h
  | cons first rest ih => exact ih (diagramOf?_after first h)

namespace Draws

variable {w drawing : Workspace} {history : List Request} {request : NewRelationship}

theorem granted (h : w.Draws history drawing request) :
    drawing.relationshipFault? request = none := by
  induction h with
  | here hfault => exact hfault
  | later _ ih => exact ih

/-- A view that was there when a relationship was drawn is still on its diagram at the end. -/
theorem diagramOf?_eq (h : w.Draws history drawing request) {view : ViewId}
    (hknown : (drawing.diagramOf? view).isSome) :
    (history.foldl after w).diagramOf? view = drawing.diagramOf? view := by
  obtain ⟨diagram, hdiagram⟩ := Option.isSome_iff_exists.1 hknown
  rw [hdiagram]
  induction h with
  | here _ later =>
      rw [List.foldl_cons]
      exact diagramOf?_foldl (diagramOf?_after _ hdiagram)
  | later _ ih => exact ih hknown hdiagram

/-- Both ends of what was drawn are views of some diagram. -/
theorem ends_known (h : w.Draws history drawing request) :
    (drawing.diagramOf? request.sourceView).isSome ∧
      (drawing.diagramOf? request.targetView).isSome := by
  obtain ⟨-, -, -, hsource, htarget⟩ := relationshipFault?_eq_none.1 h.granted
  exact ⟨isSome_diagramOf? hsource, isSome_diagramOf? htarget⟩

/-- What was drawn keeps to one diagram if and only if its request named one diagram. -/
theorem onOneDiagram_iff (h : w.Draws history drawing request) :
    (history.foldl after w).OnOneDiagram (drawing.newRelationshipView request) ↔
      drawing.NamesOneDiagram request := by
  obtain ⟨hsource, htarget⟩ := h.ends_known
  exact ⟨fun hone => ⟨(h.diagramOf?_eq hsource).symm.trans hone.tail,
      (h.diagramOf?_eq htarget).symm.trans hone.head⟩,
    fun hnames => ⟨(h.diagramOf?_eq hsource).trans hnames.source,
      (h.diagramOf?_eq htarget).trans hnames.target⟩⟩

end Draws

/-- The reachable workspaces are those that a sequence of requests leads to. -/
theorem reachable_iff {w : Workspace} :
    w.Reachable ↔
      ∃ (projectName : String) (history : List Request),
        w = history.foldl after (.new projectName) := by
  constructor
  · intro h
    induction h with
    | new projectName => exact ⟨projectName, [], rfl⟩
    | step _ request ih =>
        obtain ⟨projectName, history, rfl⟩ := ih
        exact ⟨projectName, history ++ [request], by rw [List.foldl_append]; rfl⟩
  · rintro ⟨projectName, history, rfl⟩
    induction history using List.reverseRecOn with
    | nil => exact .new projectName
    | append_singleton history request ih => rw [List.foldl_append]; exact ih.step request

/-- **Relationship views stay where they were drawn.** After any requests the relationship views are
those that granted requests drew, the ends of each are views of some diagram, and it keeps to one
diagram if and only if its request named one. So all relationship views keep to one diagram exactly
when every granted request named one: nothing else in a workspace sees to it. -/
theorem relationshipViews_onOneDiagram_iff (projectName : String) (history : List Request) :
    let start := Workspace.new projectName
    let w := history.foldl after start
    (∀ v, v ∈ w.relationshipViews ↔
        ∃ drawing request, start.Draws history drawing request ∧
          v = drawing.newRelationshipView request) ∧
      (∀ v ∈ w.relationshipViews, (w.diagramOf? v.tail).isSome ∧ (w.diagramOf? v.head).isSome) ∧
      (∀ drawing request, start.Draws history drawing request →
        (w.OnOneDiagram (drawing.newRelationshipView request) ↔ drawing.NamesOneDiagram request)) ∧
      ((∀ v ∈ w.relationshipViews, w.OnOneDiagram v) ↔
        ∀ drawing request, start.Draws history drawing request →
          drawing.NamesOneDiagram request) := by
  intro start w
  have hmem : ∀ v, v ∈ w.relationshipViews ↔
      ∃ drawing request, start.Draws history drawing request ∧
        v = drawing.newRelationshipView request := by
    intro v
    rw [mem_relationshipViews_foldl history start v]
    exact or_iff_right List.not_mem_nil
  have hone : ∀ drawing request, start.Draws history drawing request →
      (w.OnOneDiagram (drawing.newRelationshipView request) ↔ drawing.NamesOneDiagram request) :=
    fun _ _ hdraws => hdraws.onOneDiagram_iff
  refine ⟨hmem, ?_, hone, ?_, ?_⟩
  · intro v hv
    obtain ⟨drawing, request, hdraws, rfl⟩ := (hmem v).1 hv
    obtain ⟨hsource, htarget⟩ := hdraws.ends_known
    exact ⟨(congrArg Option.isSome (hdraws.diagramOf?_eq hsource)).trans hsource,
      (congrArg Option.isSome (hdraws.diagramOf?_eq htarget)).trans htarget⟩
  · intro hall drawing request hdraws
    exact (hone drawing request hdraws).1 (hall _ ((hmem _).2 ⟨drawing, request, hdraws, rfl⟩))
  · intro hall v hv
    obtain ⟨drawing, request, hdraws, rfl⟩ := (hmem v).1 hv
    exact (hone drawing request hdraws).2 (hall drawing request hdraws)

/-- Two classes with views on diagram 0, and a relationship between those views that is drawn on
diagram 1. -/
def crossing : List Request :=
  [.createDiagram .classDiagram root,
    .createDiagram .useCaseDiagram root,
    .createElement { kind := .umlClass, parent := root, name := "A" },
    .createElement { kind := .umlClass, parent := root, name := "B" },
    .createView { model := ⟨1⟩, diagram := ⟨0⟩, position := ⟨0, 0⟩ },
    .createView { model := ⟨2⟩, diagram := ⟨0⟩, position := ⟨200, 0⟩ },
    .createRelationshipView
      { kind := .association, diagram := ⟨1⟩, source := ⟨1⟩, target := ⟨2⟩,
        sourceView := ⟨0⟩, targetView := ⟨1⟩ }]

/-- A view of diagram 0 is refused as the container of a view on diagram 1, but taken as the end of a
relationship view on diagram 1. -/
theorem exists_relationshipView_across :
    let w := crossing.foldl after (.new "Model")
    w.Reachable ∧
      w.relationshipViews = [{ id := ⟨2⟩, diagram := ⟨1⟩, model := ⟨3⟩, tail := ⟨0⟩, head := ⟨1⟩ }] ∧
      w.diagramOf? ⟨0⟩ = some ⟨0⟩ ∧ w.diagramOf? ⟨1⟩ = some ⟨0⟩ ∧
      w.refusal? (.createView
        { model := ⟨2⟩, diagram := ⟨1⟩, position := ⟨0, 0⟩, container := some ⟨0⟩ })
          = some (.unknownView ⟨0⟩) ∧
      ¬ ∀ v ∈ w.relationshipViews, w.OnOneDiagram v := by
  intro w
  have hviews : w.relationshipViews
      = [{ id := ⟨2⟩, diagram := ⟨1⟩, model := ⟨3⟩, tail := ⟨0⟩, head := ⟨1⟩ }] := rfl
  refine ⟨reachable_iff.2 ⟨_, _, rfl⟩, hviews, rfl, rfl, rfl, ?_⟩
  intro hall
  rw [hviews] at hall
  have htail := (hall _ (List.mem_singleton.2 rfl)).tail
  exact absurd htail (by decide)

end Workspace

/-! ### Relationships of a layout -/

section Layout

variable {σ : Type u} [ModelStore σ] [ViewStore σ] [BackedStore σ]

/-- Placing draws no relationships and moves no view to another diagram. -/
theorem relationshipViews_placeAll {store : σ} (h : (workspace store).Numbered)
    (diagram : DiagramId) (parsed : Parsed) (s : LayoutSettings) :
    (workspace (placeAll store diagram parsed s).store).relationshipViews
        = (workspace store).relationshipViews ∧
      ∀ view d, (workspace store).diagramOf? view = some d →
        (workspace (placeAll store diagram parsed s).store).diagramOf? view = some d := by
  let motive (w : Workspace) : Prop := w.relationshipViews = (workspace store).relationshipViews ∧
    ∀ view d, (workspace store).diagramOf? view = some d → w.diagramOf? view = some d
  show motive _
  refine placeAll_induct h diagram parsed s ⟨rfl, fun _ _ hd => hd⟩ ?_ ?_
  · exact fun w request e width hw _ =>
      ⟨hw.1, fun view d hd => Workspace.diagramOf?_withView (hw.2 view d hd)⟩
  · exact fun w view r _ hw => ⟨hw.1, fun other d hd =>
      (Workspace.diagramOf?_updateView w view other (View.reshaping r)).trans (hw.2 other d hd)⟩

/-- What a run draws is drawn on its diagram, between views it placed. -/
theorem Relationships.mem_relationshipViews_realize (p : Placement σ) (blueprints : List Blueprint)
    {v : RelationshipView}
    (hv : v ∈ (workspace (realize p blueprints).placement.store).relationshipViews) :
    v ∈ (workspace p.store).relationshipViews ∨
      v.diagram = p.diagram ∧ (∃ source, p.viewOf? source = some v.tail) ∧
        ∃ target, p.viewOf? target = some v.head := by
  induction blueprints using List.reverseRecOn with
  | nil => exact .inl hv
  | append_singleton done b ih =>
      have hdone := realizes p done
      have hviewOf : ∀ element, (realize p done).placement.viewOf? element = p.viewOf? element := by
        intro element
        rw [Placement.viewOf?, hdone.views_eq, Placement.viewOf?]
      rw [realize_concat] at hv
      rcases realizeNext_cases (realize p done) b with
        ⟨-, store, hw, hr⟩ | ⟨sourceView, targetView, view, store, hsource, htarget, -, -, -, hw, hr⟩
      · rw [hr, hw] at hv
        exact ih hv
      · rw [hr, hw] at hv
        rcases List.mem_append.1 hv with hv | hv
        · exact ih hv
        · obtain rfl := List.mem_singleton.1 hv
          exact .inr ⟨hdone.diagram_eq, ⟨b.source, (hviewOf _).symm.trans hsource⟩,
            b.target, (hviewOf _).symm.trans htarget⟩

/-- **A layout keeps to its diagram.** Every relationship view that a layout adds goes from a view of
its diagram to a view of its diagram, and those that kept to one diagram before still do. -/
theorem layout_draws_on_one_diagram (store : σ) (h : (workspace store).Numbered)
    (diagram : DiagramId) (parsed : Parsed) (s : LayoutSettings) :
    (∀ v ∈ (workspace (layout store diagram parsed s).2).relationshipViews,
        v ∈ (workspace store).relationshipViews ∨
          v.diagram = diagram ∧ (workspace (layout store diagram parsed s).2).OnOneDiagram v) ∧
      ∀ v, (workspace store).OnOneDiagram v →
        (workspace (layout store diagram parsed s).2).OnOneDiagram v := by
  obtain ⟨hrunning, hdiagram⟩ := running_placeAll h diagram parsed s
  obtain ⟨hsame, hkept⟩ := relationshipViews_placeAll h diagram parsed s
  -- Realizing relationships touches no view, so views stand where they were placed.
  have hviews : ∀ view, (workspace (layout store diagram parsed s).2).diagramOf? view
      = (workspace (placeAll store diagram parsed s).store).diagramOf? view := by
    intro view
    have hrealize := (Relationships.realize_placement (placeAll store diagram parsed s)
      parsed.blueprints).2.2
    simp only [Workspace.diagramOf?, Workspace.view?, layout, hrealize]
  have hplaced : ∀ element view, (placeAll store diagram parsed s).viewOf? element = some view →
      (workspace (layout store diagram parsed s).2).diagramOf? view = some diagram := by
    intro element view hview
    obtain ⟨v, hv, -, hplace, -⟩ := hrunning.shown _ (hrunning.viewOf?_eq_some.1 hview)
    rw [hviews]
    exact Option.map_eq_some_iff.2 ⟨v, hv, hplace.trans hdiagram⟩
  refine ⟨fun v hv => ?_, fun v hone => ?_⟩
  · rcases Relationships.mem_relationshipViews_realize _ _ hv with
      hold | ⟨hon, ⟨source, hsource⟩, target, htarget⟩
    · exact .inl (hsame ▸ hold)
    · have hon : v.diagram = diagram := hon.trans hdiagram
      refine .inr ⟨hon, ?_, ?_⟩
      · rw [hon]; exact hplaced source v.tail hsource
      · rw [hon]; exact hplaced target v.head htarget
  · exact ⟨(hviews _).trans (hkept _ _ hone.tail), (hviews _).trans (hkept _ _ hone.head)⟩

end Layout

end UmlText
