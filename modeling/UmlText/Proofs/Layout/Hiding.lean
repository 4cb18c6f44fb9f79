import UmlText.Layout
import UmlText.Proofs.Layout.Opening
import UmlText.Proofs.Layout.Realizing

/-!
# UmlText.Proofs.Layout.Hiding

**Two runs that differ in what is hidden.** A host that hides elements refuses their views and
nothing else that a layout asks for. A refused view leaves the run as it is, but for the list of
what was skipped. So two runs on the same workspace, of which the first hides some elements, stay
alike if the second does not try these, and whatever looks at a run finds the same in both. There is
one lemma for each operation of a run, from placing an element (`Alike.place`) to fitting the
packages (`fit_alike`) and realizing relationships (`realize_alike`).
-/

namespace UmlText

open BackedStore (workspace)
open ModelStore (owningPackage?)

/-- A policy that, as long as the model holds these elements, refuses the views of the hidden ones
and no others, and that refuses no relationship at all. -/
structure Policy.Hides (policy : Policy) (elements : List Element) (hidden : List ElementId) :
    Prop where
  view_isSome : ∀ w request, w.elements = elements →
    ((policy.view w request).isSome ↔ request.model ∈ hidden)
  relationship_eq : ∀ w request, policy.relationship w request = none

/-- The elements whose views are refused for their name. -/
def Refusals.hidden (r : Refusals) (elements : List Element) : List ElementId :=
  ((List.range elements.length).filter fun i => elements[i]?.any fun e => e.name ∈ r.views).map
    ElementId.mk

/-- A host that refuses views by the names of their elements. -/
theorem Refusals.hides (r : Refusals) (h : r.relationships = []) (elements : List Element) :
    r.policy.Hides elements (r.hidden elements) := by
  refine ⟨fun w request hw => ?_, fun w request => by simp [policy, h]⟩
  obtain ⟨⟨i⟩, diagram, position, container⟩ := request
  subst hw
  simp only [policy, hidden, Workspace.element?, List.mem_map, List.mem_filter, List.mem_range,
    ElementId.mk.injEq, exists_eq_right]
  cases he : w.elements[i]? with
  | none => simp
  | some e =>
      have hlt := (List.getElem?_eq_some_iff.1 he).1
      by_cases hname : e.name ∈ r.views <;> simp [hname, hlt]

theorem Policy.hides_nil (elements : List Element) : ({} : Policy).Hides elements [] :=
  ⟨fun _ _ _ => by simp, fun _ _ => rfl⟩

namespace Host

variable {h : Host} {hidden : List ElementId}

/-- The view of an element that is not hidden is left to the workspace. -/
theorem createView_of_not_mem (hpolicy : h.policy.Hides h.workspace.elements hidden)
    (request : NewView) (hmodel : request.model ∉ hidden) :
    ViewStore.createView h request = ((h.workspace.createView request).1,
      { h with workspace := (h.workspace.createView request).2 }) := by
  have hnone : h.policy.view h.workspace request = none :=
    Option.not_isSome_iff_eq_none.1 fun hsome => hmodel ((hpolicy.view_isSome _ _ rfl).1 hsome)
  show h.guarded (h.policy.view h.workspace request) (·.createView request) = _
  rw [hnone]
  rfl

theorem createView_of_mem (hpolicy : h.policy.Hides h.workspace.elements hidden)
    (request : NewView) (hmodel : request.model ∈ hidden) :
    ∃ error, ViewStore.createView h request = (.error error, h) := by
  obtain ⟨reason, hreason⟩ :=
    Option.isSome_iff_exists.1 ((hpolicy.view_isSome _ _ rfl).2 hmodel)
  refine ⟨.rejected reason, ?_⟩
  show h.guarded (h.policy.view h.workspace request) (·.createView request) = _
  rw [hreason]
  rfl

theorem createRelationshipView_eq (request : NewRelationship)
    (hnone : h.policy.relationship h.workspace request = none) :
    ViewStore.createRelationshipView h request = ((h.workspace.createRelationshipView request).1,
      { h with workspace := (h.workspace.createRelationshipView request).2 }) := by
  show h.guarded (h.policy.relationship h.workspace request) (·.createRelationshipView request) = _
  rw [hnone]
  rfl

end Host

/-- A view adds no element. -/
theorem Workspace.elements_createView (w : Workspace) (request : NewView) :
    (w.createView request).2.elements = w.elements := by
  rcases w.createView_cases request with ⟨error, he⟩ | ⟨element, hgrants⟩
  · rw [he]
  · rw [hgrants.createView]
    rfl

namespace Placement

/-- Two runs that show the same: they may differ in what they refuse and in what they skipped. -/
structure Coincide (p q : Placement Host) : Prop where
  workspace_eq : q.store.workspace = p.store.workspace
  diagram_eq : q.diagram = p.diagram
  views_eq : q.views = p.views

/-- Two such runs of which the first hides some elements and the second none. -/
structure Alike (hidden : List ElementId) (p q : Placement Host) : Prop extends Coincide p q where
  hides : p.store.policy.Hides p.store.workspace.elements hidden
  shows : q.store.policy.Hides p.store.workspace.elements []

namespace Coincide

variable {p q : Placement Host}

/-! ### Looking -/

theorem store_eq (h : Coincide p q) : workspace q.store = workspace p.store := h.workspace_eq

theorem kind?_eq (h : Coincide p q) (element : ElementId) : q.kind? element = p.kind? element := by
  simp only [kind?, BackedStore.kind?_eq, h.store_eq]

theorem nameOf_eq (h : Coincide p q) (element : ElementId) :
    q.nameOf element = p.nameOf element := by
  simp only [nameOf]
  rw [BackedStore.nameOf_eq, h.store_eq, BackedStore.nameOf_eq p.store]

theorem owningPackage?_eq (h : Coincide p q) (element : ElementId) :
    owningPackage? q.store element = owningPackage? p.store element := by
  rw [BackedStore.owningPackage?_eq, h.store_eq, BackedStore.owningPackage?_eq p.store]

theorem viewOf?_eq (h : Coincide p q) (element : ElementId) :
    q.viewOf? element = p.viewOf? element := by
  rw [viewOf?, viewOf?, h.views_eq]

theorem view?_eq (h : Coincide p q) (view : ViewId) :
    ViewStore.view? q.store view = ViewStore.view? p.store view := by
  simp only [BackedStore.view?_eq, h.store_eq]

theorem boundsOf?_eq (h : Coincide p q) (view : ViewId) : q.boundsOf? view = p.boundsOf? view := by
  rw [boundsOf?, boundsOf?, h.view?_eq]

theorem containerFor?_eq (h : Coincide p q) (element : ElementId) :
    q.containerFor? element = p.containerFor? element := by
  rw [containerFor?, containerFor?, h.owningPackage?_eq, funext h.viewOf?_eq]

theorem containerOf?_eq (h : Coincide p q) (view : ViewId) :
    q.containerOf? view = p.containerOf? view := by
  rw [containerOf?, containerOf?, h.view?_eq]

theorem children_eq (h : Coincide p q) (container : ViewId) :
    q.children container = p.children container := by
  simp only [children, h.views_eq, h.containerOf?_eq]

theorem inside_eq (h : Coincide p q) (container : ViewId) :
    q.inside container = p.inside container := by
  simp only [inside, h.views_eq, h.containerOf?_eq]

theorem mergedBounds?_eq (h : Coincide p q) (views : List ViewId) :
    q.mergedBounds? views = p.mergedBounds? views := by
  rw [mergedBounds?, mergedBounds?, funext h.boundsOf?_eq]

theorem entries_eq (h : Coincide p q) : q.entries = p.entries := by
  simp only [entries, h.views_eq, h.view?_eq]

end Coincide

namespace Alike

variable {hidden : List ElementId} {p q : Placement Host}

/-! ### Placing -/

/-- A hidden element is skipped, which the other run does not notice. -/
theorem place_of_mem (h : Alike hidden p q) {element : ElementId} (helement : element ∈ hidden)
    (position : Point) (width : Option Int) :
    (p.place element position width).1 = none ∧
      Alike hidden (p.place element position width).2 q := by
  obtain ⟨error, hview⟩ := Host.createView_of_mem h.hides (p.request element position) helement
  rw [request] at hview
  simp only [Placement.place, hview]
  exact ⟨trivial, ⟨h.workspace_eq, h.diagram_eq, h.views_eq⟩, h.hides, h.shows⟩

/-- Any other element is placed in both runs, or skipped in both. -/
theorem place (h : Alike hidden p q) {element : ElementId} (helement : element ∉ hidden)
    (position : Point) (width : Option Int) :
    (q.place element position width).1 = (p.place element position width).1 ∧
      Alike hidden (p.place element position width).2 (q.place element position width).2 := by
  have hview := Host.createView_of_not_mem h.hides (p.request element position) helement
  have hshows := h.shows
  rw [← h.workspace_eq] at hshows
  have hview' := Host.createView_of_not_mem hshows (p.request element position)
    List.not_mem_nil
  rw [h.workspace_eq] at hview'
  have helements := p.store.workspace.elements_createView (p.request element position)
  rcases hresult : p.store.workspace.createView (p.request element position) with
    ⟨error | view, w⟩ <;>
    rw [hresult] at helements hview hview' <;>
    rw [request] at hview hview' <;>
    simp only [Placement.place, h.diagram_eq, h.containerFor?_eq, hview, hview']
  · exact ⟨trivial, ⟨rfl, rfl, h.views_eq⟩, helements ▸ h.hides, helements ▸ h.shows⟩
  · exact ⟨trivial, ⟨rfl, rfl, congrArg (OrderedMap.insert · element view) h.views_eq⟩,
      helements ▸ h.hides, helements ▸ h.shows⟩

/-! ### Moving -/

theorem updateView (h : Alike hidden p q) (view : ViewId) (f : View → View) :
    Alike hidden (p.updateView view f) (q.updateView view f) :=
  { h with workspace_eq := congrArg (·.updateView view f) h.workspace_eq }

theorem translate (h : Alike hidden p q) (view : ViewId) (dx dy : Int) :
    Alike hidden (p.translate view dx dy) (q.translate view dx dy) := by
  simp only [Placement.translate, h.inside_eq]
  split
  · exact h
  · exact List.foldl_rel h fun v _ _ _ hstep => hstep.updateView v _

end Alike

/-- Two such runs, each with the same value beside it. -/
def AlikeWith {α : Type} (hidden : List ElementId) (a b : Placement Host × α) : Prop :=
  Alike hidden a.1 b.1 ∧ b.2 = a.2

end Placement

namespace Packages

open Placement (Alike AlikeWith)

variable {hidden : List ElementId} {p q : Placement Host}

/-! ### Opening packages -/

theorem depth_alike (h : Alike hidden p q) (element : ElementId) :
    depth q.store element = depth p.store element := by
  induction hn : element.index using Nat.strongRecOn generalizing element with
  | ind n ih =>
      rw [depth, depth, h.owningPackage?_eq]
      split
      · next package _ =>
          split
          · next hlt => rw [ih package.index (hn ▸ hlt) package rfl]
          · rfl
      · rfl

theorem outerFirst_alike (h : Alike hidden p q) {roots roots' : List ElementId}
    (hroots : roots'.filter (p.kind? · = some .package)
      = roots.filter (p.kind? · = some .package)) :
    outerFirst q roots' = outerFirst p roots := by
  simp only [outerFirst, h.kind?_eq, hroots, depth_alike h]

/-- Packages that are not hidden are opened in both runs. -/
theorem openViews_alike (h : Alike hidden p q) {roots roots' : List ElementId}
    (hroots : roots'.filter (p.kind? · = some .package)
      = roots.filter (p.kind? · = some .package))
    (hshown : ∀ e ∈ roots, p.kind? e = some .package → e ∉ hidden) :
    AlikeWith hidden (openViews p roots) (openViews q roots') := by
  have hfold : AlikeWith hidden ((outerFirst p roots).foldl openView (p, []))
      ((outerFirst p roots).foldl openView (q, [])) := by
    refine List.foldl_rel (r := AlikeWith hidden) ⟨h, rfl⟩ ?_
    intro package hpackage a b hstep
    obtain ⟨halike, hopened⟩ := hstep
    have hmem := (perm_outerFirst p roots).mem_iff.1 (List.mem_map_of_mem hpackage)
    obtain ⟨hroot, hkind⟩ := List.mem_filter.1 hmem
    obtain ⟨hview, hplaced⟩ :=
      halike.place (hshown _ hroot (of_decide_eq_true hkind)) ⟨0, 0⟩ none
    simp only [openView_eq, hview, hopened]
    exact ⟨hplaced, rfl⟩
  rw [openViews_eq, openViews_eq, outerFirst_alike h hroots]
  exact ⟨hfold.1, by rw [hfold.2]⟩

/-! ### Fitting packages -/

theorem layOutRow_alike (h : Alike hidden p q) (views : List ViewId) (start : Point)
    (spacing : Int) :
    (layOutRow q views start spacing).1 = (layOutRow p views start spacing).1 ∧
      Alike hidden (layOutRow p views start spacing).2 (layOutRow q views start spacing).2 := by
  have hfold : AlikeWith hidden (views.foldl (layOutNext start.y spacing) (p, start.x))
      (views.foldl (layOutNext start.y spacing) (q, start.x)) := by
    refine List.foldl_rel (r := AlikeWith hidden) ⟨h, rfl⟩ ?_
    intro view _ a b hstep
    obtain ⟨halike, hx⟩ := hstep
    simp only [layOutNext, halike.boundsOf?_eq, hx]
    cases a.1.boundsOf? view with
    | none => exact ⟨halike, rfl⟩
    | some bounds => exact ⟨halike.translate view _ _, rfl⟩
  exact ⟨hfold.1.mergedBounds?_eq views, hfold.1⟩

/-- Two fittings that are the same but for what is hidden. -/
def FittingAlike (hidden : List ElementId) (f f' : Fitting Host) : Prop :=
  Alike hidden f.placement f'.placement ∧ f'.anchored = f.anchored

theorem fitPackage_alike {f f' : Fitting Host} (h : FittingAlike hidden f f')
    (s : PackageSettings) (packageViews : List ViewId) (package : ElementId) :
    FittingAlike hidden (fitPackage s packageViews f package)
      (fitPackage s packageViews f' package) := by
  obtain ⟨halike, hanchored⟩ := h
  simp only [fitPackage, halike.viewOf?_eq]
  cases f.placement.viewOf? package with
  | none => exact ⟨halike, hanchored⟩
  | some view =>
      simp only [halike.children_eq, hanchored, halike.mergedBounds?_eq]
      split
      · next content hcontent =>
          obtain ⟨hrow, hmoved⟩ := layOutRow_alike halike
            ((f.placement.children view).partition fun child =>
              child ∉ packageViews || child ∈ f.anchored).2
            ⟨content.maxX + s.spacing, content.minY⟩ s.spacing
          simp only [hrow]
          exact ⟨hmoved.updateView view _, rfl⟩
      · obtain ⟨hrow, hmoved⟩ := layOutRow_alike halike
          ((f.placement.children view).partition fun child =>
            child ∉ packageViews || child ∈ f.anchored).2 ⟨0, 0⟩ s.spacing
        simp only [hrow]
        exact ⟨hmoved.updateView view _, rfl⟩

theorem isTopLevel_alike (h : Alike hidden p q) (view : ViewId) :
    isTopLevel q view = isTopLevel p view := by
  rw [isTopLevel, isTopLevel, h.view?_eq]

theorem moveFloating_alike {f f' : Fitting Host} (h : FittingAlike hidden f f')
    (s : PackageSettings) (origin : Point) (packageViews : List ViewId) :
    Alike hidden (moveFloating s origin packageViews f)
      (moveFloating s origin packageViews f') := by
  obtain ⟨halike, hanchored⟩ := h
  simp only [moveFloating, hanchored, isTopLevel_alike halike, halike.views_eq,
    halike.mergedBounds?_eq]
  split
  · exact halike
  · exact (layOutRow_alike halike _ _ _).2

theorem fit_alike (h : Alike hidden p q) (packages : List ElementId) (origin : Point)
    (s : PackageSettings) : Alike hidden (fit p packages origin s) (fit q packages origin s) := by
  have hviews : packages.filterMap q.viewOf? = packages.filterMap p.viewOf? :=
    congrArg packages.filterMap (funext h.viewOf?_eq)
  simp only [fit, hviews]
  refine moveFloating_alike ?_ s origin _
  exact List.foldl_rel (r := FittingAlike hidden) ⟨h, rfl⟩ fun package _ _ _ hstep =>
    fitPackage_alike hstep s _ package

end Packages

namespace Relationships

open Placement (Alike Coincide)

/-! ### Realizing relationships -/

/-- Two runs that have realized the same relationships and refuse none. -/
structure RealizingAlike (r r' : Realizing Host) : Prop where
  coincide : Coincide r.placement r'.placement
  created_eq : r'.created = r.created
  skipped_eq : r'.skipped = r.skipped
  grants : ∀ w request, r.placement.store.policy.relationship w request = none
  grants' : ∀ w request, r'.placement.store.policy.relationship w request = none

theorem realizeNext_alike {r r' : Realizing Host} (h : RealizingAlike r r') (b : Blueprint) :
    RealizingAlike (realizeNext r b) (realizeNext r' b) := by
  obtain ⟨hcoincide, hcreated, hskipped, hgrants, hgrants'⟩ := h
  simp only [realizeNext, hcoincide.viewOf?_eq, hcreated, hskipped]
  split
  · next sourceView targetView _ _ =>
      rcases hresult : r.placement.store.workspace.createRelationshipView
        (request r.placement b sourceView targetView) with ⟨error | view, w⟩ <;>
        rw [request] at hresult <;>
        simp only [Host.createRelationshipView_eq _ (hgrants _ _),
          Host.createRelationshipView_eq _ (hgrants' _ _), hcoincide.workspace_eq,
          hcoincide.diagram_eq, hresult]
      · exact ⟨⟨rfl, rfl, hcoincide.views_eq⟩, rfl, rfl, hgrants, hgrants'⟩
      · exact ⟨⟨rfl, rfl, hcoincide.views_eq⟩, rfl, rfl, hgrants, hgrants'⟩
  · exact ⟨hcoincide, rfl, rfl, hgrants, hgrants'⟩

/-- A host that hides elements realizes the same relationships as one that does not try them. -/
theorem realize_alike {hidden : List ElementId} {p q : Placement Host} (h : Alike hidden p q)
    (blueprints : List Blueprint) : RealizingAlike (realize p blueprints) (realize q blueprints) :=
  List.foldl_rel (r := RealizingAlike)
    ⟨h.toCoincide, rfl, rfl, h.hides.relationship_eq, h.shows.relationship_eq⟩
    fun b _ _ _ hstep => realizeNext_alike hstep b

end Relationships

end UmlText
