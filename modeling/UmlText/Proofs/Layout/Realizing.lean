import UmlText.Layout.Relationships
import UmlText.Proofs.Layout.Placing

/-!
# UmlText.Proofs.Layout.Realizing

Realizing relationships leaves every placed view as it is: it creates elements and relationship
views only, so the entries of a run are the same afterwards.
-/

namespace UmlText

universe u

open BackedStore (workspace)

variable {σ : Type u} [ModelStore σ] [ViewStore σ] [BackedStore σ]

namespace Relationships

/-- What a run asks the store for to realize a blueprint. -/
def request (p : Placement σ) (b : Blueprint) (sourceView targetView : ViewId) :
    NewRelationship :=
  { kind := b.kind, diagram := p.diagram, source := b.source, target := b.target,
    sourceView, targetView }

/-- The view that the host answers with when it is asked for the relationship of a blueprint, if both
elements have a view. -/
def answer? (p : Placement σ) (b : Blueprint) : Option RelationshipView := do
  let sourceView ← p.viewOf? b.source
  let targetView ← p.viewOf? b.target
  (ViewStore.createRelationshipView p.store (request p b sourceView targetView)).1.toOption

/-- A blueprint is left out, with the workspace as it was, or its relationship is created, named and
given its ends. -/
theorem realizeNext_cases (r : Realizing σ) (b : Blueprint) :
    (answer? r.placement b = none ∧ ∃ store, workspace store = workspace r.placement.store ∧
        realizeNext r b = { r with
          placement := { r.placement with store }, skipped := r.skipped + 1 }) ∨
      ∃ sourceView targetView view store, r.placement.viewOf? b.source = some sourceView ∧
        r.placement.viewOf? b.target = some targetView ∧
        (workspace r.placement.store).relationshipFault?
          (request r.placement b sourceView targetView) = none ∧
        view = (workspace r.placement.store).newRelationshipView
          (request r.placement b sourceView targetView) ∧
        answer? r.placement b = some view ∧
        workspace store = ((workspace r.placement.store).withRelationship
          (request r.placement b sourceView targetView)).updateElement
            ⟨(workspace r.placement.store).elements.length⟩ (decorate b) ∧
        realizeNext r b = { r with
          placement := { r.placement with store }, created := r.created ++ [view] } := by
  cases hsource : r.placement.viewOf? b.source with
  | none =>
      refine .inl ⟨by simp [answer?, hsource], r.placement.store, rfl, ?_⟩
      simp only [realizeNext, hsource]
  | some sourceView =>
      cases htarget : r.placement.viewOf? b.target with
      | none =>
          refine .inl ⟨by simp [answer?, hsource, htarget], r.placement.store, rfl, ?_⟩
          simp only [realizeNext, hsource, htarget]
      | some targetView =>
          rcases hview : ViewStore.createRelationshipView r.placement.store
            (request r.placement b sourceView targetView) with ⟨result, store⟩
          have hans := BackedStore.createRelationshipView_answers r.placement.store
            (request r.placement b sourceView targetView)
          have hanswer : answer? r.placement b = result.toOption := by
            simp only [answer?, hsource, htarget, hview, Option.bind_eq_bind, Option.bind_some]
          simp only [hview] at hans
          rcases hans.cases ((workspace r.placement.store).createRelationshipView_cases
            (request r.placement b sourceView targetView)) with
            ⟨error, rfl, hw⟩ | ⟨⟨hfault, he⟩, hgranted⟩
          · refine .inl ⟨hanswer, store, hw, ?_⟩
            rw [request] at hview
            simp only [realizeNext, hsource, htarget, hview]
          · obtain ⟨rfl, hw⟩ := Prod.mk.inj (hgranted.trans he)
            refine .inr ⟨sourceView, targetView, _, ModelStore.updateElement store
              ⟨(workspace r.placement.store).elements.length⟩ (decorate b), rfl, rfl, hfault, rfl,
              hanswer, ?_, ?_⟩
            · rw [BackedStore.workspace_updateElement, hw]
            · rw [request] at hview
              simp only [realizeNext, hsource, htarget, hview]
              rfl

/-- Realizing relationships touches no view and no placement. -/
theorem realizeNext_placement (r : Realizing σ) (b : Blueprint) :
    (realizeNext r b).placement.views = r.placement.views ∧
      (realizeNext r b).placement.skipped = r.placement.skipped ∧
      (workspace (realizeNext r b).placement.store).views
        = (workspace r.placement.store).views := by
  rcases realizeNext_cases r b with
    ⟨-, store, hw, hr⟩ | ⟨_, _, _, store, -, -, -, -, -, hw, hr⟩
  · rw [hr]
    exact ⟨rfl, rfl, congrArg Workspace.views hw⟩
  · rw [hr]
    exact ⟨rfl, rfl, (congrArg Workspace.views hw).trans rfl⟩

theorem realize_placement (p : Placement σ) (blueprints : List Blueprint) :
    (realize p blueprints).placement.views = p.views ∧
      (realize p blueprints).placement.skipped = p.skipped ∧
      (workspace (realize p blueprints).placement.store).views = (workspace p.store).views := by
  have hfold : ∀ (bs : List Blueprint) (r : Realizing σ),
      (bs.foldl realizeNext r).placement.views = r.placement.views ∧
        (bs.foldl realizeNext r).placement.skipped = r.placement.skipped ∧
        (workspace (bs.foldl realizeNext r).placement.store).views
          = (workspace r.placement.store).views := by
    intro bs
    induction bs with
    | nil => exact fun r => ⟨rfl, rfl, rfl⟩
    | cons b rest ih =>
        intro r
        obtain ⟨hviews, hskipped, hstore⟩ := realizeNext_placement r b
        obtain ⟨hviews', hskipped', hstore'⟩ := ih (realizeNext r b)
        exact ⟨hviews'.trans hviews, hskipped'.trans hskipped, hstore'.trans hstore⟩
  exact hfold blueprints { placement := p }

/-- The entries are the same after relationships have been realized. -/
theorem entries_realize (p : Placement σ) (blueprints : List Blueprint) :
    (realize p blueprints).placement.entries = p.entries := by
  obtain ⟨hviews, -, hstore⟩ := realize_placement p blueprints
  rw [Placement.entries_eq, Placement.entries_eq, hviews]
  simp only [Workspace.view?, hstore]

end Relationships

end UmlText
