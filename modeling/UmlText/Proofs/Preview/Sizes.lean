import UmlText.Proofs.Import.Detection
import UmlText.Proofs.Layout.Banding
import UmlText.Proofs.Layout.Relating
import UmlText.Proofs.Layout.Spacing
import UmlText.Proofs.Preview.Shapes

/-!
# UmlText.Proofs.Preview.Sizes

**What is placed is large enough for what is drawn in it.** With the usual settings every entry that
is no package is as high as the store makes views of its element, and at least as wide; an actor is
exactly as wide, because it gets a spot without a width, and a grid has no actors
(`Staged.sized`). The store makes the view of a classifier as high as its members need, unless that
is more than the grid has. The box of a package has room inside. So every box of a report suits its
element (`suits_layout`).
-/

namespace UmlText

universe u

open BackedStore (workspace)
open Drawing (Suits)
open Placement (Awaiting Tries)

variable {σ : Type u} [ModelStore σ] [ViewStore σ] [BackedStore σ]

/-! ### Sizes of views -/

/-- An entry of the size in which its element can be drawn. -/
structure Sized (model : Element) (e : LayoutEntry) : Prop where
  height_eq : e.size.height = (Workspace.nodeSize model).height
  width_ge : (Workspace.nodeSize model).width ≤ e.size.width
  actor_width : model.kind? = some .actor → e.size.width = (Workspace.nodeSize model).width

/-- A view of a classifier has a line for every member, if the grid has as many. -/
theorem Workspace.nodeSize_classifier {e : Element} (hbody : e.body.isClassifier)
    (hlines : 45 + 15 * e.memberCount ≤ Saturating.highest) :
    nodeSize e = ⟨100, 45 + 15 * e.memberCount⟩ := by
  have hsize : nodeSize e = ⟨100, Saturating.add 45
      (Saturating.mul (Saturating.ofNat e.memberCount (Saturating.highest / 2)) 15)⟩ := by
    obtain ⟨id, name, documentation, tags, parent, owned, body⟩ := e
    cases body <;> first | rfl | cases hbody
  rw [hsize, Size.mk.injEq]
  refine ⟨rfl, ?_⟩
  simp only [Saturating.add, Saturating.mul, Saturating.ofNat, Saturating.clamp]
  split <;> simp only [Saturating.lowest, Saturating.highest] at * <;> omega

theorem LayoutEntry.width_bounds (e : LayoutEntry) : e.bounds.width = e.size.width := by
  simp only [bounds, Point.toBounds, Bounds.width]
  omega

theorem LayoutEntry.height_bounds (e : LayoutEntry) : e.bounds.height = e.size.height := by
  simp only [bounds, Point.toBounds, Bounds.height]
  omega

namespace Sized

variable {model : Element} {e : LayoutEntry}

/-- A box of that size has room inside, -/
theorem solid (h : Sized model e) : e.bounds.Solid := by
  have hwidth := Int.lt_of_lt_of_le (Workspace.nodeSize_width model) h.width_ge
  have hheight := h.height_eq ▸ Workspace.nodeSize_height model
  constructor <;> simp only [LayoutEntry.bounds, Point.toBounds] <;> omega

/-- and it suits the element if there is a line for every member. -/
theorem suits (h : Sized model e) (hlines : 45 + 15 * model.memberCount ≤ Saturating.highest) :
    Suits e.bounds model := by
  refine ⟨h.solid, fun hbody => ?_, fun hbody => ?_⟩ <;>
    rw [e.width_bounds, e.height_bounds, h.height_eq]
  · have hkind : model.kind? = some .actor := by rw [Element.kind?, hbody]; rfl
    have hsize : Workspace.nodeSize model = ⟨40, 80⟩ := by rw [Workspace.nodeSize, hkind]
    rw [h.actor_width hkind, hsize]
    decide
  · have hsize := Workspace.nodeSize_classifier hbody hlines
    have hwidth := h.width_ge
    simp only [hsize] at hwidth ⊢
    omega

end Sized

/-! ### Placing -/

/-- What a use case diagram asks for: use cases with room for their names, and everything else as
wide as usual. -/
theorem UseCases.Scene.spot_cases {start : Workspace} {roots : List ElementId}
    {blueprints : List Blueprint} {centers : ElementId → Option Int} {x : Int} {spot : Spot}
    (h : spot ∈ (Scene.of start roots blueprints).spots {} start centers x) :
    spot.width = none ∨
      start.kind? spot.element = some .useCase ∧ ∃ width, spot.width = some width ∧ 120 ≤ width := by
  have huseCase : ∀ name, 120 ≤ ({} : UseCaseSettings).useCaseWidth name := fun name =>
    Int.le_max_left _ _
  rcases List.mem_append.1 h with h | h
  · rcases List.mem_append.1 h with h | h
    · obtain ⟨top, htop, h⟩ := List.mem_flatMap.1 h
      rcases List.mem_cons.1 h with rfl | h
      · exact .inl rfl
      · obtain ⟨numbered, hnumbered, rfl⟩ := List.mem_map.1 h
        have hmem := mem_useCases_of_exclusive (List.fst_mem_of_mem_zipIdx hnumbered)
        exact .inr ⟨kind?_of_mem_filter hmem, _, rfl, huseCase _⟩
    · obtain ⟨placed, hplaced, rfl⟩ := List.mem_map.1 h
      have hmem := mem_useCases_of_shared (List.of_mem_zip hplaced).1
      exact .inr ⟨kind?_of_mem_filter hmem, _, rfl, huseCase _⟩
  · obtain ⟨position, element, rfl⟩ := exists_eq_wrappedSpot h
    by_cases hkind : start.kind? element = some .useCase
    · exact .inr ⟨hkind, _, if_pos hkind, huseCase _⟩
    · exact .inl (if_neg hkind)

namespace Staged

variable {store : σ} {diagram : DiagramId} {parsed : Parsed} {es : List LayoutEntry}
  {e : LayoutEntry}

/-- What the strategy has placed is a declared element, and as high as its views are. -/
theorem height_eq {s : LayoutSettings} (h : Staged store diagram parsed s es) (he : e ∈ es) :
    e.element ∈ parsed.uniqueElements ∧ ∃ model,
      (workspace store).element? e.element = some model ∧
        e.size.height = (Workspace.nodeSize model).height := by
  obtain ⟨hdeclared, spot, hfill⟩ := h.exists_spot he
  obtain ⟨model, hmodel, hsize⟩ := hfill.size_eq
  exact ⟨(List.mem_filter.1 hdeclared).1, model, hfill.element_eq ▸ hmodel, by rw [hsize]⟩

/-- On the grid nothing is narrower than a classifier. -/
theorem sized_grid (h : Staged store diagram parsed {} es)
    (hkind : parsed.diagramKind = .classDiagram)
    (hclass : ∀ id ∈ parsed.uniqueElements, ∀ kind, (workspace store).kind? id = some kind →
      ¬ kind.isParticipant) (he : e ∈ es) :
    ∃ model, (workspace store).element? e.element = some model ∧ Sized model e := by
  obtain ⟨hdeclared, model, hmodel, hheight⟩ := h.height_eq he
  have hkinds : model.kind? ≠ some .package ∧ model.kind? ≠ some .actor ∧
      model.kind? ≠ some .useCase := by
    have hmodelKind := Workspace.kind?_of_element? hmodel
    refine ⟨fun hpackage => h.settles.kind_of_placed e he (hmodelKind.trans hpackage), ?_, ?_⟩ <;>
      exact fun hparticipant => hclass _ hdeclared _ (hmodelKind.trans hparticipant) rfl
  have hnode : (Workspace.nodeSize model).width = 100 := by
    unfold Workspace.nodeSize
    split <;> simp_all
  have hstacked := h.stacked hkind ⟨by decide, by decide, by decide, by decide⟩
  have hwidth := hstacked.width_ge e he
  simp only [LayoutEntry.bounds, Point.toBounds] at hwidth
  exact ⟨model, hmodel, hheight, by omega, fun hactor => absurd hactor hkinds.2.1⟩

/-- In a use case diagram only use cases are asked for with a width. -/
theorem sized_useCase (h : Staged store diagram parsed {} es)
    (hkind : parsed.diagramKind = .useCaseDiagram) (he : e ∈ es) :
    ∃ model, (workspace store).element? e.element = some model ∧ Sized model e := by
  obtain ⟨centers, right, hspots, -⟩ := h.arranged_reaches hkind
  have hawaiting := h.awaiting_elements
  rw [← UseCases.Scene.map_element_spots _ {} (workspace store) centers
    (UseCases.sharedX {} right)] at hawaiting
  obtain ⟨spot, hspot, hfill⟩ :=
    (hawaiting.fills_of_mem (hspots ▸ h.mem_arrangedFor he)).resolve_left (h.not_mem_openedFor he)
  obtain ⟨model, hmodel, hsize⟩ := hfill.size_eq
  have hmodelKind := Workspace.kind?_of_element? hmodel
  have hheight : e.size.height = (Workspace.nodeSize model).height := by rw [hsize]
  refine ⟨model, hfill.element_eq ▸ hmodel, ?_⟩
  rcases UseCases.Scene.spot_cases hspot with hwidth | ⟨huseCase, width, hwidth, hle⟩
  · have husual : e.size.width = (Workspace.nodeSize model).width := by
      rw [hsize, hwidth, Option.getD_none]
    exact ⟨hheight, Int.le_of_eq husual.symm, fun _ => husual⟩
  · have hnode : Workspace.nodeSize model = ⟨120, 60⟩ := by
      rw [Workspace.nodeSize, hmodelKind.symm.trans huseCase]
    refine ⟨hheight, ?_, fun hactor => ?_⟩
    · rw [hsize, hwidth, Option.getD_some, hnode]
      exact hle
    · rw [hmodelKind, hactor] at huseCase
      cases huseCase

/-- **Everything but packages is placed in the size in which it can be drawn**, if a class diagram
has no participants of use case diagrams. -/
theorem sized (h : Staged store diagram parsed {} es)
    (hclass : parsed.diagramKind = .classDiagram → ∀ id ∈ parsed.uniqueElements, ∀ kind,
      (workspace store).kind? id = some kind → ¬ kind.isParticipant) (he : e ∈ es) :
    ∃ model, (workspace store).element? e.element = some model ∧ Sized model e := by
  cases hkind : parsed.diagramKind with
  | classDiagram => exact h.sized_grid hkind (hclass hkind) he
  | useCaseDiagram => exact h.sized_useCase hkind he

end Staged

/-! ### Reports -/

/-- Placing leaves the elements as they were read, and realizing only adds to what they own. -/
theorem element?_layout {store : σ} (h : (workspace store).Numbered) (diagram : DiagramId)
    (parsed : Parsed) (s : LayoutSettings) {id : ElementId} {model : Element}
    (hmodel : (workspace store).element? id = some model) :
    ∃ owned, (workspace (layout store diagram parsed s).2).element? id
      = some { model with owned } := by
  refine Relationships.element?_realize (placeAll store diagram parsed s) parsed.blueprints ?_
  rw [(running_placeAll h diagram parsed s).1.element?_eq, hmodel]

/-- **Every box of a report suits its element**, if a class diagram has no participants of use case
diagrams and the grid has a line for every member of the element. -/
theorem suits_layout {store : σ} (h : (workspace store).Numbered) {diagram : DiagramId}
    {parsed : Parsed} (hclass : parsed.diagramKind = .classDiagram →
      ∀ id ∈ parsed.uniqueElements, ∀ kind, (workspace store).kind? id = some kind →
        ¬ kind.isParticipant) {e : LayoutEntry}
    (he : e ∈ (layout store diagram parsed {}).1.entries)
    (hlines : ∀ model ∈ (workspace (layout store diagram parsed {}).2).element? e.element,
      45 + 15 * model.memberCount ≤ Saturating.highest) :
    ∃ model, (workspace (layout store diagram parsed {}).2).element? e.element = some model ∧
      Suits e.bounds model := by
  obtain ⟨es, hstaged⟩ := exists_staged store h diagram parsed {}
  have hfitted := hstaged.settles.fitted hstaged.opened (fun e he => by
    obtain ⟨model, -, hsized⟩ := hstaged.sized hclass he
    exact hsized.solid) ((Strategy.ofDiagram parsed.diagramKind).origin {})
  rw [entries_layout] at he
  by_cases hpackage : (workspace store).kind? e.element = some .package
  · obtain ⟨model, hmodel, hkind⟩ := Option.bind_eq_some_iff.1 hpackage
    obtain ⟨owned, howned⟩ := element?_layout h diagram parsed {} hmodel
    exact ⟨_, howned, .of_package (hfitted.solid e he) (Body.eq_package hkind)⟩
  · have hplaced : e ∈ es := by
      rw [← hstaged.filter_placeAll]
      exact List.mem_filter.2 ⟨he, decide_eq_true hpackage⟩
    obtain ⟨model, hmodel, hsized⟩ := hstaged.sized hclass hplaced
    obtain ⟨owned, howned⟩ := element?_layout h diagram parsed {} hmodel
    have hsuits := hsized.suits (hlines { model with owned } howned)
    exact ⟨_, howned, hsuits.solid, hsuits.actor, hsuits.classifier⟩

end UmlText
