import UmlText.Proofs.Layout.Coverage
import UmlText.Proofs.Store.Contents

/-!
# UmlText.Proofs.Layout.Granting

**Nothing is skipped without a reason.** A workspace refuses only what it cannot carry out. So on a
diagram that it knows, a layout places every element that has a kind (`skipped_placeAll`) and
realizes every blueprint between such elements (`realize_granted`).
-/

namespace UmlText

universe u

open BackedStore (workspace)
open ModelStore (owningPackage?)
open Placement (Awaiting Running Tries)

namespace Placement

/-- A request for a view of an element with a kind is granted during a run. -/
theorem Running.grantsView {σ : Type u} [ModelStore σ] [ViewStore σ] [BackedStore σ]
    {start : Workspace} {p : Placement σ} (h : Running start p)
    (hdiagram : (start.diagram? p.diagram).isSome) {element : ElementId}
    (hkind : (start.kind? element).isSome) (position : Point) :
    ∃ e, (workspace p.store).GrantsView (p.request element position) e := by
  obtain ⟨kind, hkind⟩ := Option.isSome_iff_exists.1 hkind
  obtain ⟨e, he, hkind⟩ := Option.bind_eq_some_iff.1 hkind
  refine ⟨e, ?_, ?_, by simp [hkind], ?_⟩
  · simpa only [Workspace.diagram?, h.diagrams_eq, request] using hdiagram
  · exact (h.element?_eq element).trans he
  · intro c hc
    -- The container is the view of the owner, which this run made on the same diagram.
    obtain ⟨package, -, hview⟩ := Option.bind_eq_some_iff.1 (Option.mem_def.1 hc)
    obtain ⟨v, hv, -, hdiagram, -⟩ := h.shown _ (h.viewOf?_eq_some.1 hview)
    simp [Workspace.acceptsContainer, hv, request, hdiagram]

variable {start : Workspace} {p q : Placement Workspace}

theorem Running.place_granted (h : Running start p)
    (hdiagram : (start.diagram? p.diagram).isSome) {element : ElementId}
    (hkind : (start.kind? element).isSome) (position : Point) (width : Option Int) :
    ∃ store, p.place element position width = (some ⟨p.store.nextView⟩, { p with
      store, views := p.views.insert element ⟨p.store.nextView⟩ }) := by
  obtain ⟨e, hgrants⟩ := h.grantsView hdiagram hkind position
  have hview : ViewStore.createView p.store (p.request element position)
      = (.ok ⟨p.store.nextView⟩,
        p.store.withView (p.store.newView (p.request element position) e)) :=
    hgrants.createView
  refine ⟨ViewStore.updateView (p.store.withView (p.store.newView (p.request element position) e))
    ⟨p.store.nextView⟩ (prepare width), ?_⟩
  rw [request] at hview
  simp only [Placement.place, hview]
  rfl

/-- Elements with a kind are placed, none is skipped. -/
theorem Awaiting.skipped_tries {es : List ElementId} (h : Awaiting start p es) (t : Tries p es q)
    (hdiagram : (start.diagram? p.diagram).isSome) (hkinds : ∀ e ∈ es, (start.kind? e).isSome) :
    q.skipped = p.skipped := by
  induction t with
  | done p => rfl
  | @next p q element rest position width t ih =>
      have hplaced := h.place position width
      obtain ⟨store, hp⟩ :=
        h.running.place_granted hdiagram (hkinds element (by simp)) position width
      rw [hp] at ih hplaced
      exact ih hplaced hdiagram fun e he => hkinds e (List.mem_cons_of_mem _ he)

end Placement

/-- **Nothing is skipped**: on a known diagram every declared element gets a view. -/
theorem skipped_placeAll {w : Workspace} (h : w.Numbered) {diagram : DiagramId}
    (hdiagram : (w.diagram? diagram).isSome) {parsed : Parsed}
    (hkinds : ∀ e ∈ parsed.uniqueElements, (w.kind? e).isSome) (s : LayoutSettings) :
    (placeAll w diagram parsed s).skipped = [] := by
  have hnodup : parsed.uniqueElements.Nodup := nodup_eraseDups _
  have hw : (workspace w).Numbered := h
  have hopened := Packages.opened_openViews hw diagram hnodup
  have hpackages := (Packages.awaiting_outerFirst hw diagram hnodup).skipped_tries
    (Packages.tries_openViews _ parsed.uniqueElements) hdiagram fun e he => by
      have he := (Packages.perm_outerFirst _ _).mem_iff.1 he
      exact hkinds e (List.mem_filter.1 he).1
  obtain ⟨es, htries, hawaiting, hes⟩ :=
    hopened.tries_strategy (Strategy.ofDiagram parsed.diagramKind) s
  have hothers := hawaiting.skipped_tries htries
    (by rw [hopened.diagram_eq]; exact hdiagram) fun e he =>
      hkinds e (List.mem_filter.1 (hes.mem_iff.1 he)).1
  have hplaced := hopened.placed hnodup hkinds htries hes
  exact (Packages.redrawn_fit hplaced.running _ _ _).skipped_eq.trans (hothers.trans hpackages)

namespace Relationships

/-! ### Relationships -/

/-- The name and body of the element that a blueprint becomes. -/
def content (b : Blueprint) : String × Body :=
  let ends : EndSpec × EndSpec := if b.kind = .association then (b.end1, b.end2) else ({}, {})
  (b.label.elim "" fun label => String.ofList (Text.trim label.toList),
    .relationship { kind := b.kind, end1 := ⟨b.source, ends.1⟩, end2 := ⟨b.target, ends.2⟩ })

/-- An element with a kind that has a view in a run. -/
structure Shown (p : Placement Workspace) (element : ElementId) (view : ViewId) : Prop where
  viewOf?_eq : p.viewOf? element = some view
  shows : p.store.shows view element
  kind : (p.store.kind? element).isSome

/-- A blueprint that can be realized. -/
structure Ready (p : Placement Workspace) (b : Blueprint) : Prop where
  diagram : (p.store.diagram? p.diagram).isSome
  source : ∃ view, Shown p b.source view
  target : ∃ view, Shown p b.target view

/-- The element of a relationship that was just created gets the content of its blueprint. -/
theorem contents_decorate (w : Workspace) (p : Placement Workspace) (b : Blueprint)
    (sourceView targetView : ViewId) :
    ((w.withRelationship (request p b sourceView targetView)).updateElement
      ⟨w.elements.length⟩ (decorate b)).contents = w.contents ++ [content b] := by
  have hdecorate : ∀ e : Element, ((decorate b e).name, (decorate b e).body)
      = (b.label.elim e.name fun label => String.ofList (Text.trim label.toList),
          if b.kind = .association then e.body.mapRelationship (·.withEnds b.end1 b.end2)
          else e.body) := by
    intro e
    simp only [decorate, nameBy]
    cases b.label <;> split <;> rfl
  have hpushed : (w.withRelationship (request p b sourceView targetView)).contents
      = w.contents ++ [("", .relationship
          { kind := b.kind, end1 := ⟨b.source, {}⟩, end2 := ⟨b.target, {}⟩ })] :=
    Workspace.contents_pushElement _ _ _ _
  rw [Workspace.contents_updateElement _ _ (g := fun c =>
    (b.label.elim c.1 fun label => String.ofList (Text.trim label.toList),
      if b.kind = .association then c.2.mapRelationship (·.withEnds b.end1 b.end2) else c.2))
    hdecorate, hpushed, ← Workspace.length_contents, Workspace.modify_length]
  simp only [content]
  split <;> rfl

/-- What a realized blueprint adds hides no element, view or diagram. -/
theorem kind?_decorate (w : Workspace) (p : Placement Workspace) (b : Blueprint)
    (sourceView targetView : ViewId) {element : ElementId} (h : (w.kind? element).isSome) :
    (((w.withRelationship (request p b sourceView targetView)).updateElement
      ⟨w.elements.length⟩ (decorate b)).kind? element).isSome := by
  rw [Workspace.kind?_updateElement]
  · exact (congrArg Option.isSome (Workspace.kind?_pushElement h)).trans h
  · intro e _
    simp only [decorate, nameBy]
    cases b.label <;> split <;> simp [Element.setEnds, Element.kind?, Element.rename,
      Body.mapRelationship] <;> cases e.body <;> rfl

/-- A blueprint that is ready is realized: its element and its view are created, and what else was
ready still is. -/
theorem realizeNext_granted {r : Realizing Workspace} {b : Blueprint}
    (h : Ready r.placement b) :
    ∃ store view, realizeNext r b = { r with
        placement := { r.placement with store }, created := r.created ++ [view] } ∧
      store.contents = r.placement.store.contents ++ [content b] ∧
      ∀ b', Ready r.placement b' → Ready { r.placement with store } b' := by
  obtain ⟨sourceView, hsource⟩ := h.source
  obtain ⟨targetView, htarget⟩ := h.target
  have hgranted : ViewStore.createRelationshipView r.placement.store
      (request r.placement b sourceView targetView)
        = (.ok
            (r.placement.store.newRelationshipView (request r.placement b sourceView targetView)),
          r.placement.store.withRelationship (request r.placement b sourceView targetView)) := by
    have hfault : r.placement.store.relationshipFault?
        (request r.placement b sourceView targetView) = none :=
      Workspace.relationshipFault?_eq_none.2
        ⟨h.diagram, hsource.kind, htarget.kind, hsource.shows, htarget.shows⟩
    rcases r.placement.store.createRelationshipView_cases
      (request r.placement b sourceView targetView) with ⟨error, he⟩ | ⟨-, he⟩
    · simp only [Workspace.createRelationshipView, hfault] at he
      cases he
    · exact he
  refine ⟨_, r.placement.store.newRelationshipView (request r.placement b sourceView targetView),
    ?_, contents_decorate r.placement.store r.placement b sourceView targetView, ?_⟩
  · rw [request] at hgranted ⊢
    simp only [realizeNext, hsource.viewOf?_eq, htarget.viewOf?_eq, hgranted]
    rfl
  · intro b' hb'
    have hshown : ∀ {element : ElementId} {view : ViewId}, Shown r.placement element view →
        Shown { r.placement with
          store := (r.placement.store.withRelationship
            (request r.placement b sourceView targetView)).updateElement
              ⟨r.placement.store.elements.length⟩ (decorate b) } element view := fun hshown =>
      ⟨hshown.viewOf?_eq, hshown.shows,
        kind?_decorate r.placement.store r.placement b sourceView targetView hshown.kind⟩
    exact ⟨hb'.diagram, hb'.source.imp fun _ => hshown, hb'.target.imp fun _ => hshown⟩

/-- **Every ready blueprint is realized**, in order. -/
theorem realize_granted {p : Placement Workspace} {blueprints : List Blueprint}
    (h : ∀ b ∈ blueprints, Ready p b) :
    (realize p blueprints).skipped = 0 ∧
      (realize p blueprints).created.length = blueprints.length ∧
      (realize p blueprints).placement.store.contents
        = p.store.contents ++ blueprints.map content := by
  have hfold : ∀ (bs : List Blueprint) (r : Realizing Workspace),
      (∀ b ∈ bs, Ready r.placement b) →
        (bs.foldl realizeNext r).skipped = r.skipped ∧
        (bs.foldl realizeNext r).created.length = r.created.length + bs.length ∧
        (bs.foldl realizeNext r).placement.store.contents
          = r.placement.store.contents ++ bs.map content := by
    intro bs
    induction bs with
    | nil => exact fun r _ => ⟨rfl, rfl, by simp⟩
    | cons b rest ih =>
        intro r hready
        obtain ⟨store, view, hr, hcontents, hkept⟩ :=
          realizeNext_granted (hready b List.mem_cons_self)
        obtain ⟨hskipped, hcreated, hrest⟩ := ih (realizeNext r b) fun b' hb' => by
          rw [hr]
          exact hkept b' (hready b' (List.mem_cons_of_mem _ hb'))
        rw [List.foldl_cons, hskipped, hcreated, hrest, hr]
        refine ⟨rfl, ?_, ?_⟩
        · simp only [List.length_append, List.length_cons, List.length_nil]
          omega
        · simp [hcontents]
  have hall := hfold blueprints { placement := p } h
  exact ⟨hall.1, by simpa [realize] using hall.2.1, hall.2.2⟩

end Relationships

/-- **A layout refuses nothing on a workspace.** On a known diagram all declared elements are placed
and all relationships between them created. -/
theorem layout_granted {w : Workspace} (h : w.Numbered) {diagram : DiagramId}
    (hdiagram : (w.diagram? diagram).isSome) {parsed : Parsed}
    (hkinds : ∀ e ∈ parsed.uniqueElements, (w.kind? e).isSome)
    (hblueprints : ∀ b ∈ parsed.blueprints,
      b.source ∈ parsed.uniqueElements ∧ b.target ∈ parsed.uniqueElements) (s : LayoutSettings) :
    (layout w diagram parsed s).1.skippedElements = [] ∧
      (layout w diagram parsed s).1.skippedRelationships = 0 ∧
      (layout w diagram parsed s).1.relationships.length = parsed.blueprints.length ∧
      (layout w diagram parsed s).2.contents
        = w.contents ++ parsed.blueprints.map Relationships.content := by
  obtain ⟨packages, hplaced, -⟩ := placed_placeAll w h diagram hkinds s
  have hskipped := skipped_placeAll h hdiagram hkinds s
  have hrunning := hplaced.running
  have hshown : ∀ e ∈ parsed.uniqueElements,
      ∃ view, Relationships.Shown (placeAll w diagram parsed s) e view := by
    intro e he
    have hkey : e ∈ (placeAll w diagram parsed s).views.keys := by
      have hmem := hplaced.perm.mem_iff.2 he
      rwa [hskipped, List.append_nil] at hmem
    obtain ⟨x, hx, rfl⟩ := List.mem_map.1 hkey
    obtain ⟨v, hv, hmodel, -⟩ := hrunning.shown x hx
    refine ⟨x.2, hrunning.viewOf?_eq_some.2 hx, ?_, ?_⟩
    · have hv : (placeAll w diagram parsed s).store.view? x.2 = some v := hv
      simp [Workspace.shows, hv, hmodel]
    · exact (congrArg Option.isSome (hrunning.kind?_eq x.1)).trans (hkinds x.1 he)
  have hready : ∀ b ∈ parsed.blueprints,
      Relationships.Ready (placeAll w diagram parsed s) b := by
    intro b hb
    refine ⟨?_, hshown _ (hblueprints b hb).1, hshown _ (hblueprints b hb).2⟩
    have hdiagrams : (placeAll w diagram parsed s).store.diagrams = w.diagrams :=
      hrunning.diagrams_eq
    rw [hplaced.diagram_eq, Workspace.diagram?, hdiagrams]
    exact hdiagram
  obtain ⟨hnone, hcreated, hcontents⟩ := Relationships.realize_granted hready
  refine ⟨?_, hnone, hcreated, ?_⟩
  · exact (Relationships.realize_placement _ _).2.1.trans hskipped
  · have helements : (placeAll w diagram parsed s).store.elements = w.elements :=
      hrunning.elements_eq
    exact hcontents.trans (by rw [Workspace.contents, helements, Workspace.contents])

end UmlText
