import UmlText.Proofs.Layout.Realizing
import UmlText.Proofs.Layout.Rearranging
import UmlText.Proofs.Layout.Steps

/-!
# UmlText.Proofs.Layout.Replaying

**A whole layout in any workspace.** Placing everything, realizing relationships and reporting do to
the graft what they do to a new workspace (`layout_graft`).
-/

namespace UmlText

open Workspace (Ground root)

variable {base : Workspace} {ρ : Renumbering} {p : Placement Workspace}

/-! ### Placing everything -/

theorem Strategy.arrange_graft (hbase : base.Ground ρ) (h : p.Sprouts base ρ) (strategy : Strategy)
    {parsed : Parsed} (hdeclared : ∀ e ∈ parsed.uniqueElements, e ≠ root) (s : LayoutSettings) :
    (strategy.arrange p parsed s).Sprouts base ρ ∧
      strategy.arrange (p.graft base ρ) (parsed.renumber ρ) s
        = (strategy.arrange p parsed s).graft base ρ := by
  simp only [Strategy.arrange, Parsed.uniqueElements_renumber]
  cases strategy with
  | grid => exact Grid.arrange_graft hbase h hdeclared s.grid s.packages
  | useCase =>
      exact UseCases.arrange_graft hbase h (nodup_eraseDups _) hdeclared parsed.blueprints s.useCase

theorem placeAll_graft (hbase : base.Ground ρ) {w : Workspace} (hsprout : w.Sprout)
    (hnested : w.Nested) {diagram : DiagramId} (hdiagram : (w.diagram? diagram).isSome)
    (hdiagram' : (base.diagram? (ρ.diagram diagram)).isSome) {parsed : Parsed}
    (hdeclared : ∀ e ∈ parsed.uniqueElements, (w.kind? e).isSome) (s : LayoutSettings) :
    (placeAll w diagram parsed s).Sprouts base ρ ∧
      placeAll (base.graft ρ w) (ρ.diagram diagram) (parsed.renumber ρ) s
        = (placeAll w diagram parsed s).graft base ρ := by
  have hstart : ({ store := w, diagram } : Placement Workspace).Sprouts base ρ :=
    ⟨hsprout, hdiagram, hdiagram', by simp⟩
  obtain ⟨hopened, hopen⟩ := Packages.openViews_graft hbase hstart hnested hdeclared
  rcases hviews : Packages.openViews ({ store := w, diagram } : Placement Workspace)
    parsed.uniqueElements with ⟨opened, packages⟩
  rw [hviews] at hopened hopen
  obtain ⟨harranged, harrange⟩ := (Strategy.ofDiagram parsed.diagramKind).arrange_graft hbase
    hopened (fun e he => hsprout.ne_root (hdeclared e he)) s
  obtain ⟨hfitted, hfit⟩ := Packages.fit_graft hbase harranged packages
    ((Strategy.ofDiagram parsed.diagramKind).origin s) s.packages
  simp only [placeAll, hviews, Parsed.uniqueElements_renumber]
  refine ⟨hfitted, ?_⟩
  rw [show ({ store := base.graft ρ w, diagram := ρ.diagram diagram } : Placement Workspace)
    = Placement.graft base ρ { store := w, diagram } from rfl, hopen]
  simp only [← hfit, ← harrange]
  rfl

/-- The entries of a run. -/
theorem Placement.entries_graft (hbase : base.Ground ρ) :
    (p.graft base ρ).entries = p.entries.map (·.renumber ρ) := by
  have hentries : (p.graft base ρ).views.entries
      = p.views.entries.map fun x => (ρ.element x.1, ρ.view x.2) := rfl
  rw [entries, hentries, List.filterMap_map, entries, List.map_filterMap]
  refine List.filterMap_congr fun x _ => ?_
  simp only [Function.comp_apply, view?_graft hbase, Option.map_map]
  cases ViewStore.view? p.store x.2 <;> rfl

/-! ### Realizing relationships -/

namespace Relationships

theorem decorate_renumber (b : Blueprint) (e : Element) :
    (decorate b e).renumber ρ = decorate (b.renumber ρ) (e.renumber ρ) := by
  have hends : ∀ e : Element, (e.setEnds b.end1 b.end2).renumber ρ
      = (e.renumber ρ).setEnds b.end1 b.end2 := by
    intro e
    simp only [Element.setEnds, Element.renumber, Body.renumber]
    cases e.body <;> rfl
  have hname : ∀ e : Element, (nameBy b e).renumber ρ = nameBy (b.renumber ρ) (e.renumber ρ) := by
    intro e
    simp only [nameBy, Blueprint.renumber]
    cases b.label <;> rfl
  have hkind : (b.renumber ρ).kind = b.kind := rfl
  simp only [decorate, hkind]
  split
  · rw [hends, hname]; rfl
  · exact hname e

/-- The relationship of a blueprint is granted or refused, as it is in the new workspace. -/
theorem answer?_graft (hbase : base.Ground ρ) (h : p.Sprouts base ρ) (b : Blueprint) :
    answer? (p.graft base ρ) (b.renumber ρ) = (answer? p b).map (·.renumber ρ) := by
  have hviews : ∀ element, (p.graft base ρ).viewOf? (ρ.element element) = _ :=
    Placement.viewOf?_graft
  simp only [answer?, Blueprint.renumber, hviews, Option.bind_eq_bind]
  cases hsource : p.viewOf? b.source with
  | none => rfl
  | some sourceView =>
      cases htarget : p.viewOf? b.target with
      | none => rfl
      | some targetView =>
          have hrequest : (request p b sourceView targetView).source ≠ root :=
            h.ne_root_of_viewOf? hsource
          exact Workspace.createRelationshipView_graft hbase h.sprout hrequest
            (h.ne_root_of_viewOf? htarget) h.diagram_known h.diagram_grafted

/-- The relationships being realized in the graft. -/
def Realizing.graft (base : Workspace) (ρ : Renumbering) (r : Realizing Workspace) :
    Realizing Workspace where
  placement := r.placement.graft base ρ
  created := r.created.map (·.renumber ρ)
  skipped := r.skipped

/-- One more relationship. -/
def Realizing.adding (r : Realizing Workspace) (store : Workspace) (view : RelationshipView) :
    Realizing Workspace :=
  { r with placement := { r.placement with store }, created := r.created ++ [view] }

theorem adding_graft (r : Realizing Workspace) (store : Workspace) (view : RelationshipView) :
    (r.adding store view).graft base ρ
      = (r.graft base ρ).adding (base.graft ρ store) (view.renumber ρ) := by
  simp only [Realizing.adding, Realizing.graft, List.map_append]
  rfl

/-- One blueprint. -/
theorem realizeNext_graft (hbase : base.Ground ρ) {r : Realizing Workspace}
    (h : r.placement.Sprouts base ρ) (b : Blueprint) :
    (realizeNext r b).placement.Sprouts base ρ ∧
      realizeNext (r.graft base ρ) (b.renumber ρ) = (realizeNext r b).graft base ρ := by
  have hanswer : answer? (r.graft base ρ).placement (b.renumber ρ) = _ := answer?_graft hbase h b
  rcases realizeNext_cases r b with ⟨hnone, store, rfl, hr⟩ |
    ⟨sourceView, targetView, view, store, hsource, htarget, hfault, rfl, hsome, rfl, hr⟩
  · -- A blueprint that is left out is left out of the graft.
    rw [hnone] at hanswer
    rcases realizeNext_cases (r.graft base ρ) (b.renumber ρ) with ⟨-, store', rfl, hr'⟩ |
      ⟨_, _, _, _, -, -, -, -, hsome', -⟩
    · rw [hr, hr']
      exact ⟨h, rfl⟩
    · rw [hsome'] at hanswer
      cases hanswer
  · rw [hsome] at hanswer
    rcases realizeNext_cases (r.graft base ρ) (b.renumber ρ) with ⟨hnone', -⟩ |
      ⟨sourceView', targetView', view', store', hsource', htarget', -, rfl, hsome', rfl, hr'⟩
    · rw [hnone'] at hanswer
      cases hanswer
    · -- The ends are drawn from the views of the same elements.
      obtain rfl : sourceView' = ρ.view sourceView := by
        have hfound := hsource'.symm.trans (Placement.viewOf?_graft b.source)
        rw [hsource] at hfound
        exact Option.some.inj hfound
      obtain rfl : targetView' = ρ.view targetView := by
        have hfound := htarget'.symm.trans (Placement.viewOf?_graft b.target)
        rw [htarget] at hfound
        exact Option.some.inj hfound
      let w := r.placement.store
      let sent := request r.placement b sourceView targetView
      have hne : w.nextElement ≠ root := fun heq =>
        absurd h.sprout.root_lt (Nat.not_lt.2 (Nat.le_of_eq (congrArg ElementId.index heq)))
      have hkind : (w.kind? sent.source).isSome :=
        (Workspace.relationshipFault?_eq_none.1 hfault).2.1
      have hstore : ((base.graft ρ w).withRelationship (sent.renumber ρ)).updateElement
          (base.graft ρ w).nextElement (decorate (b.renumber ρ))
            = base.graft ρ ((w.withRelationship sent).updateElement w.nextElement (decorate b)) := by
        rw [Workspace.withRelationship_graft hbase h.sprout hkind,
          Workspace.nextElement_graft hbase h.sprout,
          Workspace.updateElement_graft hbase hne (decorate_renumber b)]
      have hview : (base.graft ρ w).newRelationshipView (sent.renumber ρ)
          = (w.newRelationshipView sent).renumber ρ :=
        Workspace.newRelationshipView_graft hbase h.sprout sent
      rw [hr, hr']
      constructor
      · exact ⟨(h.sprout.withRelationship hfault).updateElement hne (decoration b).parent_apply,
          h.diagram_known, h.diagram_grafted, h.ne_root⟩
      · exact (congrArg₂ (Realizing.adding (r.graft base ρ)) hstore hview).trans
          (adding_graft r _ _).symm

theorem realize_graft (hbase : base.Ground ρ) (h : p.Sprouts base ρ) (blueprints : List Blueprint) :
    realize (p.graft base ρ) (blueprints.map (·.renumber ρ))
      = (realize p blueprints).graft base ρ :=
  (foldl_map_of_invariant (f := realizeNext) (g := realizeNext) (m := Realizing.graft base ρ)
    (p := fun r => r.placement.Sprouts base ρ) (q := fun _ => True)
    (fun _ b hr _ => realizeNext_graft hbase hr b) (l := blueprints) (fun _ _ => trivial)
    (b := { placement := p }) h).2

end Relationships

/-! ### The layout -/

/-- **A layout** on a graft has the report of the layout on a new workspace. -/
theorem layout_graft (hbase : base.Ground ρ) {w : Workspace} (hsprout : w.Sprout)
    (hnested : w.Nested) {diagram : DiagramId} (hdiagram : (w.diagram? diagram).isSome)
    (hdiagram' : (base.diagram? (ρ.diagram diagram)).isSome) {parsed : Parsed}
    (hdeclared : ∀ e ∈ parsed.uniqueElements, (w.kind? e).isSome) (s : LayoutSettings) :
    layout (base.graft ρ w) (ρ.diagram diagram) (parsed.renumber ρ) s
      = ((layout w diagram parsed s).1.renumber ρ, base.graft ρ (layout w diagram parsed s).2) := by
  obtain ⟨hplaced, hplace⟩ := placeAll_graft hbase hsprout hnested hdiagram hdiagram' hdeclared s
  have hblueprints : (parsed.renumber ρ).blueprints = parsed.blueprints.map (·.renumber ρ) := rfl
  have hrealize := Relationships.realize_graft hbase hplaced parsed.blueprints
  simp only [layout, hplace, hblueprints, hrealize]
  simp only [Relationships.Realizing.graft, Placement.entries_graft hbase]
  rfl

end UmlText
