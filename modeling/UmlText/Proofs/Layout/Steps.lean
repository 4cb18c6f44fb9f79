import UmlText.Proofs.Layout.Coverage
import UmlText.Proofs.Layout.Reshaping
import UmlText.Proofs.Store.Sound

/-!
# UmlText.Proofs.Layout.Steps

**What a layout does to a workspace.** It adds views, gives views of its own other bounds, and adds
relationships. What survives each of these survives the whole layout, whatever the host refuses
(`placeAll_induct`, `realize_induct`). All of them are requests, so a layout leads from one reachable
workspace to another.
-/

namespace UmlText

universe u

open BackedStore (workspace)
open Placement (Awaiting Reshapes Tries)
open Workspace (GrantsView)

variable {σ : Type u} [ModelStore σ] [ViewStore σ] [BackedStore σ]

/-! ### Placing and fitting -/

section Place

variable {begun : Workspace} {p q : Placement σ} {motive : Workspace → Prop}

/-- What survives a new view survives placing elements. -/
theorem Placement.Tries.induct {es : List ElementId} (t : Tries p es q) (h : Awaiting begun p es)
    (view : ∀ w request e width, motive w → w.GrantsView request e →
      motive (w.withView (prepare width (w.newView request e))))
    (hp : motive (workspace p.store)) : motive (workspace q.store) := by
  induction t with
  | done p => exact hp
  | @next p q element rest position width t ih =>
      refine ih (h.place position width) ?_
      rcases Placement.place_cases p h.running.view_lt element position width with
        ⟨store, hw, hplace⟩ | ⟨e, store, hgrants, hw, hplace⟩
      · rw [hplace, hw]
        exact hp
      · rw [hplace, hw]
        exact view _ _ _ _ hp hgrants

/-- What survives other bounds of a view of the run survives fitting. -/
theorem Placement.Reshapes.induct (t : Reshapes p q)
    (reshape : ∀ w, ∀ view ∈ p.views.values, ∀ r, motive w → motive (w.updateView view (·.reshape r)))
    (hp : motive (workspace p.store)) : motive (workspace q.store) := by
  induction t with
  | done p => exact hp
  | @next p q view hview r t ih =>
      refine ih reshape ?_
      rw [Placement.updateView, BackedStore.workspace_updateView]
      exact reshape _ view hview r hp

end Place

/-- What is placed and fitted is still one run, whatever was declared. -/
theorem running_placeAll {store : σ} (h : (workspace store).Numbered) (diagram : DiagramId)
    (parsed : Parsed) (s : LayoutSettings) :
    Placement.Running (workspace store) (placeAll store diagram parsed s) ∧
      (placeAll store diagram parsed s).diagram = diagram := by
  have hnodup : parsed.uniqueElements.Nodup := nodup_eraseDups _
  have hopened := Packages.opened_openViews h diagram hnodup
  obtain ⟨es, htries, hawaiting, -⟩ :=
    hopened.tries_strategy (Strategy.ofDiagram parsed.diagramKind) s
  obtain ⟨harranged, hdiagram, -⟩ := hawaiting.tries htries
  have hfit := Packages.redrawn_fit harranged
    (Packages.openViews ({ store, diagram } : Placement σ) parsed.uniqueElements).2
    ((Strategy.ofDiagram parsed.diagramKind).origin s) s.packages
  exact ⟨hfit.running, hfit.diagram_eq.trans (hdiagram.trans hopened.diagram_eq)⟩

/-- **One step of placing**: what survives a new view, and other bounds of a view that was made after
the run began, survives the placing of everything. -/
theorem placeAll_induct {store : σ} (h : (workspace store).Numbered) (diagram : DiagramId)
    (parsed : Parsed) (s : LayoutSettings) {motive : Workspace → Prop}
    (start : motive (workspace store))
    (view : ∀ w request e width, motive w → w.GrantsView request e →
      motive (w.withView (Placement.prepare width (w.newView request e))))
    (reshape : ∀ w view r, (workspace store).nextView ≤ view.index → motive w →
      motive (w.updateView view (·.reshape r))) :
    motive (workspace (placeAll store diagram parsed s).store) := by
  have hnodup : parsed.uniqueElements.Nodup := nodup_eraseDups _
  have hopened := Packages.opened_openViews h diagram hnodup
  have hpackages := (Packages.tries_openViews ({ store, diagram } : Placement σ)
    parsed.uniqueElements).induct (Packages.awaiting_outerFirst h diagram hnodup) view start
  obtain ⟨es, htries, hawaiting, -⟩ :=
    hopened.tries_strategy (Strategy.ofDiagram parsed.diagramKind) s
  refine (Packages.reshapes_fit _ _ _ _).induct (fun w v hv r => reshape w v r ?_)
    (htries.induct hawaiting view hpackages)
  exact (hawaiting.tries htries).1.fresh v hv

/-! ### Relationships -/

namespace Relationships

/-- **One step of realizing**: what survives a relationship that is made as its blueprint says survives
the realizing of all blueprints. -/
theorem realize_induct (p : Placement σ) (blueprints : List Blueprint) {motive : Workspace → Prop}
    (start : motive (workspace p.store))
    (relate : ∀ w request, ∀ b ∈ blueprints, motive w → w.relationshipFault? request = none →
      request.kind = b.kind → request.source = b.source → request.target = b.target →
        motive ((w.withRelationship request).updateElement ⟨w.elements.length⟩ (decorate b))) :
    motive (workspace (realize p blueprints).placement.store) := by
  have hfold : ∀ (bs : List Blueprint) (r : Realizing σ), bs ⊆ blueprints →
      motive (workspace r.placement.store) →
        motive (workspace (bs.foldl realizeNext r).placement.store) := by
    intro bs
    induction bs with
    | nil => exact fun _ _ hr => hr
    | cons b rest ih =>
        intro r hbs hr
        obtain ⟨hb, hrest⟩ := List.cons_subset.1 hbs
        refine ih _ hrest ?_
        rcases realizeNext_cases r b with
          ⟨-, store, hw, hnext⟩ | ⟨sourceView, targetView, view, store, -, -, hfault, -, -, hw, hnext⟩
        · rw [hnext, hw]
          exact hr
        · rw [hnext, hw]
          exact relate _ _ b hb hr hfault rfl rfl rfl
  exact hfold blueprints { placement := p } (List.Subset.refl _) start

/-- Decorating a relationship element is an edit. -/
def decoration (b : Blueprint) : ElementEdit where
  apply := decorate b
  id_apply e := by simp only [decorate, nameBy]; cases b.label <;> split <;> rfl
  parent_apply e := by simp only [decorate, nameBy]; cases b.label <;> split <;> rfl
  owned_apply e := by simp only [decorate, nameBy]; cases b.label <;> split <;> rfl
  kind?_apply e := by
    have hkind := fun e : Element => (ElementEdit.setEnds b.end1 b.end2).kind?_apply e
    simp only [decorate, nameBy]
    cases b.label <;> split <;> first | rfl | exact hkind _
  ends_apply e := by
    have hends := fun e : Element => (ElementEdit.setEnds b.end1 b.end2).ends_apply e
    simp only [decorate, nameBy]
    cases b.label <;> split <;> first | rfl | exact hends _

end Relationships

/-! ### Requests only -/

/-- Preparing a new view is an edit. -/
def Placement.preparation (width : Option Int) : ViewEdit where
  apply := prepare width
  id_apply _ := rfl
  diagram_apply _ := rfl
  model_apply _ := rfl
  container_apply _ := rfl

/-- Giving a view other bounds is an edit. -/
def View.reshaping (r : Bounds → Bounds) : ViewEdit where
  apply v := v.reshape r
  id_apply _ := rfl
  diagram_apply _ := rfl
  model_apply _ := rfl
  container_apply _ := rfl

/-- Placing everything takes nothing but requests. -/
theorem reachable_placeAll {store : σ} (h : (workspace store).Reachable) (diagram : DiagramId)
    (parsed : Parsed) (s : LayoutSettings) :
    (workspace (placeAll store diagram parsed s).store).Reachable := by
  refine placeAll_induct h.numbered diagram parsed s h ?_ ?_
  · intro w request e width hw hgrants
    have hcreated := hw.step (.createView request)
    rw [Workspace.after, hgrants.createView] at hcreated
    have hprepared := hcreated.step (.editView ⟨w.nextView⟩ (Placement.preparation width))
    have hsame : (w.withView (w.newView request e)).updateView ⟨w.nextView⟩
        (Placement.prepare width) = w.withView (Placement.prepare width (w.newView request e)) :=
      Placement.updateView_withView hw.numbered.view_lt rfl _
    exact hsame ▸ hprepared
  · exact fun w view r _ hw => hw.step (.editView view (View.reshaping r))

/-- So does realizing relationships. -/
theorem Relationships.reachable_realize {p : Placement σ} (h : (workspace p.store).Reachable)
    (blueprints : List Blueprint) :
    (workspace (realize p blueprints).placement.store).Reachable := by
  refine realize_induct p blueprints h ?_
  intro w request b _ hw hfault _ _ _
  have hcreated := hw.step (.createRelationshipView request)
  rcases w.createRelationshipView_cases request with ⟨error, he⟩ | ⟨-, he⟩
  · simp only [Workspace.createRelationshipView, hfault] at he
    cases he
  · rw [Workspace.after, he] at hcreated
    exact hcreated.step (.editElement ⟨w.elements.length⟩ (decoration b))

end UmlText
