import Mathlib.Data.List.Perm.Basic
import UmlText.Layout
import UmlText.Proofs.Layout.Actors
import UmlText.Proofs.Layout.Placing

/-!
# UmlText.Proofs.Layout.Strategies

**What a strategy tries to place.** Each strategy tries every element that has a kind and is no
package, once, in an order of its own (`Strategy.tries_arrange`). For the grid that is because the
groups divide the elements by their keys, for use case diagrams because actors, use cases and the
rest do, and the use cases in turn by their buckets.
-/

namespace UmlText

universe u

open Placement (Tries)

variable {σ : Type u} [ModelStore σ] [ViewStore σ]

/-! ### The grid -/

namespace Grid

theorem tries_add (g : GridSettings) (top : Int) (f : Filling σ) (element : ElementId) :
    Tries f.placement [element] (f.add g top element).placement := by
  have h := Tries.one f.placement element (cellPosition g top f.cells)
    (some (g.widthFor (f.placement.nameOf element)))
  simp only [Filling.add]
  rcases hp : f.placement.place element (cellPosition g top f.cells)
    (some (g.widthFor (f.placement.nameOf element))) with ⟨placed, p⟩
  rw [hp] at h
  cases placed with
  | none => exact h
  | some view => exact h

theorem tries_placeGroup (g : GridSettings) (s : PackageSettings) (state : Placement σ × Int)
    (group : Group) : Tries state.1 group.members (placeGroup g s state group).1 := by
  have h := Tries.foldl_each Filling.placement id
    (tries_add (σ := σ) g (blockTop s state.2 group.depth)) group.members { placement := state.1 }
  rw [List.map_id] at h
  simp only [placeGroup]
  split
  · exact h
  · exact h

theorem tries_arrange (p : Placement σ) (roots : List ElementId) (g : GridSettings)
    (s : PackageSettings) :
    Tries p ((groups p roots).flatMap Group.members) (arrange p roots g s) :=
  Tries.foldl Prod.fst Group.members (tries_placeGroup g s) (groups p roots) (p, g.originY)

omit [ViewStore σ] in
/-- The groups are the elements with one key each, in the order of the keys. -/
theorem groups_eq_map_keys (p : Placement σ) (roots : List ElementId) :
    groups p roots = (((gridElements p roots).map (groupKey p roots)).eraseDups.mergeSort keyLE).map
      fun key => ⟨key, (gridElements p roots).filter (groupKey p roots · = key)⟩ := by
  simp only [groups, List.map_map, List.filter_map]
  simp [Function.comp_def]

omit [ViewStore σ] in
theorem flatMap_members_groups (p : Placement σ) (roots : List ElementId) :
    (groups p roots).flatMap Group.members
      = (((gridElements p roots).map (groupKey p roots)).eraseDups.mergeSort keyLE).flatMap
          fun key => (gridElements p roots).filter fun e => groupKey p roots e = key := by
  rw [groups_eq_map_keys, List.flatMap_map]

omit [ViewStore σ] in
/-- The groups divide the elements of the grid. -/
theorem perm_groups (p : Placement σ) {roots : List ElementId} (h : roots.Nodup) :
    ((groups p roots).flatMap Group.members).Perm (gridElements p roots) := by
  have helements : (gridElements p roots).Nodup := h.filter _
  rw [flatMap_members_groups]
  refine (List.perm_ext_iff_of_nodup (List.nodup_flatMap.2 ⟨fun key _ => helements.filter _, ?_⟩)
    helements).2 fun e => ?_
  · refine List.Pairwise.imp ?_ ((List.mergeSort_perm _ _).nodup_iff.2 (nodup_eraseDups _))
    intro key key' hne e he he'
    simp only [List.mem_filter, decide_eq_true_eq] at he he'
    exact hne (he.2.symm.trans he'.2)
  · simp only [List.mem_flatMap, List.mem_mergeSort, List.mem_eraseDups, List.mem_filter,
      decide_eq_true_eq]
    constructor
    · intro hexists
      obtain ⟨key, -, he, -⟩ := hexists
      exact he
    · exact fun he => ⟨_, List.mem_map_of_mem he, he, rfl⟩

end Grid

/-! ### Use case diagrams -/

namespace UseCases

theorem tries_block (s : UseCaseSettings) (block : List ElementId)
    (p : Placement σ) (right : Option Int) (cursor : BlockCursor) :
    Tries p block
      (block.zipIdx.foldl (placeExclusive s block.length) (p, right, cursor)).1 := by
  have h := Tries.foldl_each Prod.fst Prod.fst
    (f := placeExclusive s block.length) (fun state numbered =>
      Tries.one state.1 numbered.1 ⟨state.2.2.x, state.2.2.y⟩
        (some (s.useCaseWidth (state.1.nameOf numbered.1)))) block.zipIdx (p, right, cursor)
  rwa [List.zipIdx_map_fst] at h

theorem tries_placeActor (s : UseCaseSettings) (buckets : UseCaseBuckets)
    (column : ActorColumn σ) (ordered : ElementId × Nat) :
    Tries column.placement (ordered.1 :: buckets.exclusiveOf ordered.1)
      (placeActor s buckets column ordered).placement :=
  .next _ _ (tries_block s (buckets.exclusiveOf ordered.1) _ _ _)

theorem tries_placeShared (s : UseCaseSettings) (blueprints : List Blueprint)
    (centers : OrderedMap ElementId Int) (x : Int) (shared : List ElementId)
    (p : Placement σ) (previous : Int) :
    Tries p shared
      (shared.zipIdx.foldl (placeShared s blueprints centers x) (p, previous)).1 := by
  have h := Tries.foldl_each Prod.fst Prod.fst
    (f := placeShared s blueprints centers x) (fun state numbered =>
      Tries.one state.1 numbered.1
        ⟨x, sharedY s blueprints centers state.2 (numbered.2 = 0) numbered.1⟩
        (some (s.useCaseWidth (state.1.nameOf numbered.1)))) shared.zipIdx (p, previous)
  rwa [List.zipIdx_map_fst] at h

theorem tries_placeWrapped (s : UseCaseSettings) (elements : List ElementId)
    (p : Placement σ) (position : Point) :
    Tries p elements (elements.foldl (placeWrapped s) (p, position)).1 := by
  have h := Tries.foldl_each Prod.fst id (f := placeWrapped s)
    (fun state element => Tries.one state.1 element state.2 _) elements (p, position)
  rwa [List.map_id] at h

/-- The order in which the elements of a use case diagram are tried. -/
def order (p : Placement σ) (roots : List ElementId) (blueprints : List Blueprint) :
    List ElementId :=
  let actors := ofKind p roots (· = .actor)
  let useCases := ofKind p roots (· = .useCase)
  let others := ofKind p roots fun kind => !kind.isParticipant && kind ≠ .package
  let buckets := bucketUseCases actors useCases blueprints
  (orderActors actors blueprints).flatMap (fun ordered =>
      ordered.1 :: buckets.exclusiveOf ordered.1)
    ++ buckets.shared ++ (buckets.orphans ++ others)

theorem tries_arrange (p : Placement σ) (roots : List ElementId) (blueprints : List Blueprint)
    (s : UseCaseSettings) :
    Tries p (order p roots blueprints) (arrange p roots blueprints s) := by
  let actors := ofKind p roots (· = .actor)
  let buckets := bucketUseCases actors (ofKind p roots (· = .useCase)) blueprints
  have hactors := Tries.foldl ActorColumn.placement _ (tries_placeActor s buckets)
    (orderActors actors blueprints) { placement := p, y := s.originY }
  exact (hactors.append (tries_placeShared s blueprints _ _ buckets.shared _ _)).append
    (tries_placeWrapped s _ _ _)

omit [ViewStore σ] in
theorem mem_ofKind {p : Placement σ} {roots : List ElementId} {wanted : ElementKind → Bool}
    {e : ElementId} : e ∈ ofKind p roots wanted ↔ e ∈ roots ∧ (p.kind? e).any wanted := by
  simp [ofKind]

omit [ViewStore σ] in
theorem nodup_ofKind {p : Placement σ} {roots : List ElementId} (h : roots.Nodup)
    (wanted : ElementKind → Bool) : (ofKind p roots wanted).Nodup :=
  h.filter _

omit [ViewStore σ] in
/-- Actors, use cases and the others are all that is no package. -/
theorem perm_kinds (p : Placement σ) {roots : List ElementId} (h : roots.Nodup) :
    (ofKind p roots (· = .actor) ++ ofKind p roots (· = .useCase)
      ++ ofKind p roots fun kind => !kind.isParticipant && kind ≠ .package).Perm
        (ofKind p roots (· ≠ .package)) := by
  refine (List.perm_ext_iff_of_nodup (List.nodup_append'.2 ⟨List.nodup_append'.2
    ⟨nodup_ofKind h _, nodup_ofKind h _, ?_⟩, nodup_ofKind h _, ?_⟩) (nodup_ofKind h _)).2
      fun e => ?_
  · intro e he he'
    rw [mem_ofKind] at he he'
    cases hkind : p.kind? e <;> simp_all
  · intro e he he'
    rw [List.mem_append, mem_ofKind, mem_ofKind] at he
    rw [mem_ofKind] at he'
    match hkind : p.kind? e with
    | none => simp [hkind] at he'
    | some kind => cases kind <;> simp [hkind, ElementKind.isParticipant] at he he'
  · rw [List.mem_append, List.mem_append]
    simp only [mem_ofKind]
    match p.kind? e with
    | none => simp
    | some kind => cases kind <;> simp [ElementKind.isParticipant]

omit [ViewStore σ] in
/-- Everything that is no package has its place in the order of a use case diagram. -/
theorem perm_order (p : Placement σ) {roots : List ElementId} (h : roots.Nodup)
    (blueprints : List Blueprint) :
    (order p roots blueprints).Perm (ofKind p roots (· ≠ .package)) := by
  let actors := ofKind p roots (· = .actor)
  let useCases := ofKind p roots (· = .useCase)
  let others := ofKind p roots fun kind => !kind.isParticipant && kind ≠ .package
  let buckets := bucketUseCases actors useCases blueprints
  have hactors : actors.Nodup := nodup_ofKind h _
  have hsorted : ((orderActors actors blueprints).map Prod.fst).Perm actors :=
    (orderActors_perm actors blueprints).trans
      ((List.perm_ext_iff_of_nodup (nodup_eraseDups _) hactors).2 fun a => List.mem_eraseDups)
  have hcolumn : ((orderActors actors blueprints).flatMap fun ordered =>
      ordered.1 :: buckets.exclusiveOf ordered.1).Perm
        (actors ++ actors.flatMap buckets.exclusiveOf) := by
    refine (List.map_append_flatMap_perm _ Prod.fst fun ordered =>
      buckets.exclusiveOf ordered.1).symm.trans (hsorted.append ?_)
    rw [← List.flatMap_map Prod.fst buckets.exclusiveOf]
    exact hsorted.flatMap_right _
  have hbuckets : (actors.flatMap buckets.exclusiveOf ++ buckets.shared ++ buckets.orphans).Perm
      useCases := perm_buckets hactors (nodup_ofKind h _)
  have hparts : (order p roots blueprints).Perm (actors ++ useCases ++ others) := by
    refine ((hcolumn.append_right _).append_right _).trans ?_
    simpa only [List.append_assoc] using (hbuckets.append_right others).append_left actors
  exact hparts.trans (perm_kinds p h)

end UseCases

/-! ### Either strategy -/

/-- **What a strategy tries**: every element with a kind but packages, once. -/
theorem Strategy.tries_arrange (strategy : Strategy) (p : Placement σ) (parsed : Parsed)
    (s : LayoutSettings) (h : parsed.uniqueElements.Nodup) :
    ∃ es, Tries p es (strategy.arrange p parsed s) ∧
      es.Perm (parsed.uniqueElements.filter fun e => (p.kind? e).any (· ≠ .package)) := by
  cases strategy with
  | grid => exact ⟨_, Grid.tries_arrange p _ s.grid s.packages, Grid.perm_groups p h⟩
  | useCase =>
      exact ⟨_, UseCases.tries_arrange p _ parsed.blueprints s.useCase, UseCases.perm_order p h _⟩

end UmlText
