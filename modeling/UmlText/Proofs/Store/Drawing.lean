import UmlText.Proofs.Store.Ownership

/-!
# UmlText.Proofs.Store.Drawing

**What is drawn.** In a workspace that any requests lead to, all views are numbered by one counter,
a view shows an element that has a kind on a diagram that exists, it stands in an older view of the
same diagram if in any, and a relationship view goes from a view of its source to a view of its
target. There is one lemma for each way in which a request changes a workspace.
-/

namespace UmlText.Workspace

/-- The numbers of all views and relationship views. -/
def viewIds (w : Workspace) : List ViewId :=
  w.views.map View.id ++ w.relationshipViews.map RelationshipView.id

/-- A view that stands in `c`: an older view of the same diagram. -/
structure StandsIn (w : Workspace) (v : View) (c : ViewId) : Prop where
  older : c.index < v.id.index
  known : ∃ u, w.view? c = some u ∧ u.diagram = v.diagram

/-- A relationship view that joins the two ends of a relationship `r`. -/
structure Joins (w : Workspace) (v : RelationshipView) (r : Relationship) : Prop where
  relationship?_eq : w.relationship? v.model = some r
  tail : w.shows v.tail r.source
  head : w.shows v.head r.target

/-- What the views of a workspace rely on. -/
structure Drawn (w : Workspace) : Prop where
  ids_nodup : w.viewIds.Nodup
  ids_lt : ∀ id ∈ w.viewIds, id.index < w.nextView
  model_kind : ∀ v ∈ w.views, (w.kind? v.model).isSome
  diagram_known : ∀ v ∈ w.views, (w.diagram? v.diagram).isSome
  container : ∀ v ∈ w.views, ∀ c, v.container = some c → w.StandsIn v c
  joins : ∀ v ∈ w.relationshipViews, ∃ r, w.Joins v r
  /-- A diagram is numbered by its place. -/
  diagram_id : ∀ id d, w.diagram? id = some d → d.id = id
  current_known : ∀ id, w.current = some id → (w.diagram? id).isSome

theorem StandsIn.congr {w w' : Workspace} {v : View} {c : ViewId} (h : w.StandsIn v c)
    (hviews : w'.views = w.views) : w'.StandsIn v c := by
  obtain ⟨u, hu, hdiagram⟩ := h.known
  refine ⟨h.older, u, ?_, hdiagram⟩
  rw [view?, hviews]
  exact hu

theorem Joins.congr {w w' : Workspace} {v : RelationshipView} {r : Relationship}
    (h : w.Joins v r) (helements : w'.elements = w.elements) (hviews : w'.views = w.views) :
    w'.Joins v r := by
  refine ⟨?_, ?_, ?_⟩
  · rw [relationship?, element?, helements]
    exact h.relationship?_eq
  · rw [shows, view?, hviews]
    exact h.tail
  · rw [shows, view?, hviews]
    exact h.head

theorem isSome_diagram?_append {w : Workspace} {id : DiagramId} (h : (w.diagram? id).isSome)
    (d : Diagram) (current : Option DiagramId) :
    ((({ w with diagrams := w.diagrams ++ [d], current } : Workspace)).diagram? id).isSome := by
  obtain ⟨known, hknown⟩ := Option.isSome_iff_exists.1 h
  have hlt : id.index < w.diagrams.length := (List.getElem?_eq_some_iff.1 hknown).1
  simp only [diagram?, List.getElem?_append_left hlt]
  exact h

namespace Drawn

variable {w : Workspace}

theorem new (projectName : String) : (Workspace.new projectName).Drawn := by
  refine ⟨List.nodup_nil, ?_, ?_, ?_, ?_, ?_, ?_, ?_⟩ <;>
    simp [viewIds, Workspace.new, diagram?]

/-- Views do not notice what is selected, nor how often the host was asked to redraw. -/
theorem withSession (h : w.Drawn) (selection : List ElementId) (repaints : Nat) :
    ({ w with selection, repaints } : Workspace).Drawn :=
  { h with
    container := fun v hv c hc => (h.container v hv c hc).congr rfl
    joins := fun v hv => (h.joins v hv).imp fun _ hjoins => hjoins.congr rfl rfl }

/-- Views do not notice a change of elements that leaves kinds and what relationships join. -/
theorem withElements (h : w.Drawn) {elements : List Element}
    (hkind : ∀ id, (w.kind? id).isSome → (({ w with elements } : Workspace).kind? id).isSome)
    (hends : ∀ id r, w.relationship? id = some r →
      ∃ r', ({ w with elements } : Workspace).relationship? id = some r' ∧
        r'.source = r.source ∧ r'.target = r.target) :
    ({ w with elements } : Workspace).Drawn := by
  have hjoins : ∀ v ∈ w.relationshipViews, ∃ r, ({ w with elements } : Workspace).Joins v r := by
    intro v hv
    obtain ⟨r, hjoins⟩ := h.joins v hv
    obtain ⟨r', hr', hsource, htarget⟩ := hends _ r hjoins.relationship?_eq
    refine ⟨r', hr', ?_, ?_⟩
    · rw [hsource]; exact hjoins.tail
    · rw [htarget]; exact hjoins.head
  exact { h with
    model_kind := fun v hv => hkind _ (h.model_kind v hv)
    container := fun v hv c hc => (h.container v hv c hc).congr rfl
    joins := hjoins }

theorem pushElement (h : w.Drawn) (parent : ElementId) (name : String) (body : Body) :
    (w.pushElement parent name body).2.Drawn := by
  refine h.withElements (fun id hid => ?_) fun id r hr => ⟨r, ?_, rfl, rfl⟩
  · exact (congrArg Option.isSome (kind?_pushElement hid)).trans hid
  · have hne : id ≠ ⟨w.elements.length⟩ := by
      intro heq
      rw [heq, relationship?, element?_length] at hr
      cases hr
    exact (relationship?_pushElement id).trans ((if_neg hne).trans hr)

theorem updateElement (h : w.Drawn) {id : ElementId} {f : Element → Element}
    (hf : ∀ e, w.element? id = some e → e.Keeps (f e)) : (w.updateElement id f).Drawn := by
  refine h.withElements (fun j hj => ?_) fun j r hr => ?_
  · exact (congrArg Option.isSome
      (kind?_updateElement w id j fun e he => (hf e he).kind?_eq)).trans hj
  · obtain ⟨e, he, hr⟩ := Option.bind_eq_some_iff.1 hr
    have hfound := element?_updateElement w id j f
    rw [he, Option.map_some] at hfound
    have hkeeps : e.Keeps (if id = j then f e else e) := by
      by_cases hj : id = j
      · rw [if_pos hj]
        exact hf e (hj ▸ he)
      · rw [if_neg hj]
        exact ⟨rfl, rfl, rfl, rfl, rfl⟩
    have hends := hkeeps.ends_eq
    rw [hr, Option.map_some] at hends
    obtain ⟨r', hr', heq⟩ := Option.map_eq_some_iff.1 hends
    simp only [Prod.mk.injEq] at heq
    exact ⟨r', Option.bind_eq_some_iff.2 ⟨_, hfound, hr'⟩, heq.2.1, heq.2.2⟩

/-- A new diagram is numbered by its place and becomes the current one. -/
theorem withDiagram (h : w.Drawn) (kind : DiagramKind) (owner : ElementId) :
    ({ w with
      diagrams := w.diagrams ++ [{ id := ⟨w.diagrams.length⟩, kind, owner }]
      current := some ⟨w.diagrams.length⟩ } : Workspace).Drawn := by
  refine { h with
    diagram_known := fun v hv => isSome_diagram?_append (h.diagram_known v hv) _ _
    container := fun v hv c hc => (h.container v hv c hc).congr rfl
    joins := fun v hv => (h.joins v hv).imp fun _ hjoins => hjoins.congr rfl rfl
    diagram_id := ?_
    current_known := ?_ }
  · intro id d hd
    simp only [diagram?] at hd
    rcases Nat.lt_trichotomy id.index w.diagrams.length with hlt | heq | hgt
    · rw [List.getElem?_append_left hlt] at hd
      exact h.diagram_id id d hd
    · rw [heq, List.getElem?_concat_length] at hd
      obtain rfl := Option.some.inj hd
      rw [← heq]
    · rw [List.getElem?_eq_none (by simp; omega)] at hd
      cases hd
  · intro id hid
    obtain rfl := Option.some.inj hid
    simp [diagram?]

theorem withCurrent (h : w.Drawn) {id : DiagramId} (hid : (w.diagram? id).isSome) :
    ({ w with current := some id } : Workspace).Drawn :=
  { h with
    container := fun v hv c hc => (h.container v hv c hc).congr rfl
    joins := fun v hv => (h.joins v hv).imp fun _ hjoins => hjoins.congr rfl rfl
    current_known := fun _ hj => Option.some.inj hj ▸ hid }

/-- A number that the counter gives is no number of a view yet. -/
theorem not_mem_nextView (h : w.Drawn) : (⟨w.nextView⟩ : ViewId) ∉ w.viewIds :=
  fun hmem => Nat.lt_irrefl _ (h.ids_lt _ hmem)

theorem shows_withView {v : View} {id : ViewId} {model : ElementId} (h : w.shows id model) :
    (w.withView v).shows id model := by
  obtain ⟨u, hu, hmodel⟩ := (Option.any_eq_true _ _).1 h
  rw [shows, view?_withView hu]
  exact hmodel

/-- A view that a granted request creates. -/
theorem withView (h : w.Drawn) {request : NewView} {element : Element}
    (hgrants : w.GrantsView request element) :
    (w.withView (w.newView request element)).Drawn := by
  have hids : (w.withView (w.newView request element)).viewIds.Perm
      (⟨w.nextView⟩ :: w.viewIds) := by
    simp only [viewIds, Workspace.withView, List.map_append, List.map_cons, List.map_nil, newView,
      List.append_assoc]
    exact List.perm_middle
  refine ⟨?_, ?_, ?_, ?_, ?_, ?_, h.diagram_id, h.current_known⟩
  · exact hids.nodup_iff.2 (List.nodup_cons.2 ⟨h.not_mem_nextView, h.ids_nodup⟩)
  · intro id hid
    rcases List.mem_cons.1 (hids.mem_iff.1 hid) with rfl | hid
    · exact Nat.lt_succ_self _
    · exact Nat.lt_succ_of_lt (h.ids_lt id hid)
  · intro v hv
    rcases List.mem_append.1 hv with hv | hv
    · exact h.model_kind v hv
    · obtain rfl := List.mem_singleton.1 hv
      have hkind := hgrants.kind
      exact (congrArg (fun e => (e.bind Element.kind?).isSome) hgrants.model).trans hkind
  · intro v hv
    rcases List.mem_append.1 hv with hv | hv
    · exact h.diagram_known v hv
    · obtain rfl := List.mem_singleton.1 hv
      exact hgrants.diagram
  · intro v hv c hc
    rcases List.mem_append.1 hv with hv | hv
    · obtain ⟨holder, u, hu, hdiagram⟩ := h.container v hv c hc
      exact ⟨holder, u, view?_withView hu, hdiagram⟩
    · -- The container was checked when the view was asked for, so it is an older view.
      obtain rfl := List.mem_singleton.1 hv
      obtain ⟨u, hu, hdiagram⟩ := (Option.any_eq_true _ _).1 (hgrants.container c hc)
      have hid : u.id = c := by simpa using List.find?_some hu
      refine ⟨?_, u, view?_withView hu, of_decide_eq_true hdiagram⟩
      rw [← hid]
      exact h.ids_lt _ (List.mem_append_left _ (List.mem_map_of_mem (List.mem_of_find?_eq_some hu)))
  · intro v hv
    obtain ⟨r, hjoins⟩ := h.joins v hv
    exact ⟨r, hjoins.relationship?_eq, shows_withView hjoins.tail, shows_withView hjoins.head⟩

/-- An edit of a view that leaves what it shows and where it belongs. -/
theorem updateView (h : w.Drawn) (id : ViewId) (edit : ViewEdit) :
    (w.updateView id edit.apply).Drawn := by
  -- Every view is one that was there, with the same number, diagram, model and container.
  have hold : ∀ v ∈ (w.updateView id edit.apply).views, ∃ u ∈ w.views, v.id = u.id ∧
      v.diagram = u.diagram ∧ v.model = u.model ∧ v.container = u.container := by
    intro v hv
    obtain ⟨u, hu, rfl⟩ := List.mem_map.1 hv
    refine ⟨u, hu, ?_⟩
    split
    · exact ⟨edit.id_apply u, edit.diagram_apply u, edit.model_apply u, edit.container_apply u⟩
    · exact ⟨rfl, rfl, rfl, rfl⟩
  have hids : (w.updateView id edit.apply).viewIds = w.viewIds := by
    simp only [viewIds, Workspace.updateView, List.map_map]
    congr 1
    apply List.map_congr_left
    intro u _
    by_cases hid : u.id = id <;> simp [hid, edit.id_apply]
  have hshows : ∀ v model, w.shows v model → (w.updateView id edit.apply).shows v model := by
    intro v model hv
    obtain ⟨u, hu, hmodel⟩ := (Option.any_eq_true _ _).1 hv
    rw [shows, view?_updateView w id v edit.id_apply, hu, Option.map_some]
    by_cases hid : id = v <;> simpa [hid, edit.model_apply] using hmodel
  refine ⟨?_, ?_, ?_, ?_, ?_, ?_, h.diagram_id, h.current_known⟩
  · rw [hids]; exact h.ids_nodup
  · rw [hids]; exact h.ids_lt
  · intro v hv
    obtain ⟨u, hu, -, -, hmodel, -⟩ := hold v hv
    rw [hmodel]
    exact h.model_kind u hu
  · intro v hv
    obtain ⟨u, hu, -, hdiagram, -⟩ := hold v hv
    rw [hdiagram]
    exact h.diagram_known u hu
  · intro v hv c hc
    obtain ⟨u, hu, hid, hdiagram, -, hcontainer⟩ := hold v hv
    obtain ⟨holder, box, hbox, hsame⟩ := h.container u hu c (hcontainer ▸ hc)
    refine ⟨hid ▸ holder, if id = c then edit.apply box else box, ?_, ?_⟩
    · rw [view?_updateView w id c edit.id_apply, hbox, Option.map_some]
    · rw [hdiagram, ← hsame]
      by_cases hid : id = c <;> simp [hid, edit.diagram_apply]
  · intro v hv
    obtain ⟨r, hjoins⟩ := h.joins v hv
    exact ⟨r, hjoins.relationship?_eq, hshows _ _ hjoins.tail, hshows _ _ hjoins.head⟩

/-- A relationship view under the number of the counter, between views of the two ends. -/
theorem withRelationshipView (h : w.Drawn) {v : RelationshipView} (hid : v.id = ⟨w.nextView⟩)
    {r : Relationship} (hjoins : w.Joins v r) :
    ({ w with
      relationshipViews := w.relationshipViews ++ [v]
      nextView := w.nextView + 1 } : Workspace).Drawn := by
  have hids : ({ w with
      relationshipViews := w.relationshipViews ++ [v]
      nextView := w.nextView + 1 } : Workspace).viewIds = w.viewIds ++ [⟨w.nextView⟩] := by
    simp [viewIds, hid]
  refine ⟨?_, ?_, h.model_kind, h.diagram_known, ?_, ?_, h.diagram_id, h.current_known⟩
  · rw [hids]
    refine List.nodup_append.2 ⟨h.ids_nodup, by simp, fun a ha b hb hab => ?_⟩
    exact h.not_mem_nextView (List.mem_singleton.1 hb ▸ hab ▸ ha)
  · intro id hmem
    rw [hids, List.mem_append, List.mem_singleton] at hmem
    rcases hmem with hmem | rfl
    · exact Nat.lt_succ_of_lt (h.ids_lt id hmem)
    · exact Nat.lt_succ_self _
  · exact fun v hv c hc => (h.container v hv c hc).congr rfl
  · intro u hu
    rcases List.mem_append.1 hu with hu | hu
    · exact (h.joins u hu).imp fun _ hjoins => hjoins.congr rfl rfl
    · obtain rfl := List.mem_singleton.1 hu
      exact ⟨r, hjoins.congr rfl rfl⟩

/-- A relationship that a granted request creates. -/
theorem withRelationship (h : w.Drawn) {request : NewRelationship}
    (hfault : w.relationshipFault? request = none) : (w.withRelationship request).Drawn := by
  obtain ⟨-, -, -, hsource, htarget⟩ := relationshipFault?_eq_none.1 hfault
  let r : Relationship :=
    { kind := request.kind, end1 := ⟨request.source, {}⟩, end2 := ⟨request.target, {}⟩ }
  have hjoins : (w.pushElement request.source "" (.relationship r)).2.Joins
      (w.newRelationshipView request) r :=
    ⟨(relationship?_pushElement _).trans (if_pos rfl), hsource, htarget⟩
  exact (h.pushElement request.source "" (.relationship r)).withRelationshipView rfl hjoins

end Drawn

end UmlText.Workspace
