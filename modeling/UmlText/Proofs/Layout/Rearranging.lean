import UmlText.Layout
import UmlText.Proofs.Layout.Boxing
import UmlText.Proofs.Layout.Renaming
import UmlText.Proofs.Layout.Strategies

/-!
# UmlText.Proofs.Layout.Rearranging

**Both strategies in any workspace.** A strategy decides what to place where from the kinds and the
names of the elements, from the packages of the run around them, and from what it has placed so far.
All of that is the same in the graft, so the same views are placed at the same places.
-/

namespace UmlText

open Workspace (Ground root)

variable {base : Workspace} {ρ : Renumbering} {p : Placement Workspace}

/-! ### The grid -/

namespace Grid

/-- The packages of the run around an element. Those around the parent have no views in the run. -/
theorem enclosingPackages_graft (hbase : base.Ground ρ) (h : p.Sprouts base ρ)
    {element : ElementId} (helement : element ≠ root) :
    enclosingPackages (p.graft base ρ) (ρ.element element)
      = (enclosingPackages p element).map ρ.element := by
  induction hn : element.index using Nat.strongRecOn generalizing element with
  | ind n ih =>
      cases howner : ModelStore.owningPackage? p.store element with
      | none =>
          have howner' : ModelStore.owningPackage? (p.graft base ρ).store (ρ.element element)
              = _ := Workspace.owningPackage?_graft_none hbase helement howner
          have hroot : (p.graft base ρ).viewOf? (ρ.element root) = none := by
            rw [Placement.viewOf?_graft, h.viewOf?_root, Option.map_none]
          -- In the graft the parent may be around the element, but the run has no view of it.
          rw [enclosingPackages, enclosingPackages, howner, howner', List.map_nil]
          split
          · next package hpackage =>
              split at hpackage
              · obtain rfl := Option.some.inj hpackage
                rw [hroot]
                rfl
              · cases hpackage
          · rfl
      | some package =>
          have howner' : ModelStore.owningPackage? (p.graft base ρ).store (ρ.element element)
              = _ := Workspace.owningPackage?_graft_some hbase h.sprout helement howner
          have hlt := h.sprout.numbered.owner_lt howner
          have hpackage := h.sprout.ne_root (by rw [kind?_of_owningPackage? howner]; rfl)
          rw [enclosingPackages, enclosingPackages, howner, howner']
          simp only [Placement.viewOf?_graft, Option.isSome_map, if_pos hlt,
            if_pos (hbase.index_lt hlt), ih package.index (hn ▸ hlt) hpackage rfl]
          split
          · rw [List.map_append]; rfl
          · rfl

theorem groupKey_graft (hbase : base.Ground ρ) (h : p.Sprouts base ρ) (roots : List ElementId)
    {element : ElementId} (helement : element ≠ root) :
    groupKey (p.graft base ρ) (roots.map ρ.element) (ρ.element element)
      = groupKey p roots element := by
  rw [groupKey, enclosingPackages_graft hbase h helement, List.map_map, groupKey]
  exact List.map_congr_left fun package _ => idxOf_map ρ.element_injective roots package

theorem gridElements_graft (hbase : base.Ground ρ) {roots : List ElementId}
    (hroots : ∀ e ∈ roots, e ≠ root) :
    gridElements (p.graft base ρ) (roots.map ρ.element) = (gridElements p roots).map ρ.element := by
  rw [gridElements, gridElements]
  exact filter_map_of fun e he => by rw [Placement.kind?_graft hbase (hroots e he)]

/-- A group of elements under other numbers. -/
def Group.renumber (ρ : Renumbering) (g : Group) : Group :=
  { g with members := g.members.map ρ.element }

/-- The groups of the grid have the same keys and the same members. -/
theorem groups_graft (hbase : base.Ground ρ) (h : p.Sprouts base ρ) {roots : List ElementId}
    (hroots : ∀ e ∈ roots, e ≠ root) :
    groups (p.graft base ρ) (roots.map ρ.element) = (groups p roots).map (Group.renumber ρ) := by
  have hkeyed : ((gridElements p roots).map ρ.element).map
        (fun e => (groupKey (p.graft base ρ) (roots.map ρ.element) e, e))
      = ((gridElements p roots).map fun e => (groupKey p roots e, e)).map
          (Prod.map id ρ.element) := by
    rw [List.map_map, List.map_map]
    refine List.map_congr_left fun e he => ?_
    have hne := hroots e (List.mem_filter.1 he).1
    simp only [Function.comp_apply, groupKey_graft hbase h roots hne, Prod.map, id]
  simp only [groups, gridElements_graft hbase hroots, hkeyed, List.map_map]
  refine List.map_congr_left fun key _ => ?_
  simp only [Function.comp_apply, Group.renumber, List.filter_map, List.map_map]
  rfl

/-- The members of the groups are among what was declared. -/
theorem mem_of_mem_groups {roots : List ElementId} {group : Group} (h : group ∈ groups p roots)
    {e : ElementId} (he : e ∈ group.members) : e ∈ roots := by
  rw [groups_eq_map_keys] at h
  obtain ⟨key, -, rfl⟩ := List.mem_map.1 h
  exact List.mem_of_mem_filter (List.mem_of_mem_filter he)

/-- The block being filled in the graft. -/
def Filling.graft (base : Workspace) (ρ : Renumbering) (f : Filling Workspace) :
    Filling Workspace :=
  { f with placement := f.placement.graft base ρ }

theorem add_graft (hbase : base.Ground ρ) (g : GridSettings) (top : Int) {f : Filling Workspace}
    (h : f.placement.Sprouts base ρ) {element : ElementId} (helement : element ≠ root) :
    (f.add g top element).placement.Sprouts base ρ ∧
      (f.graft base ρ).add g top (ρ.element element) = (f.add g top element).graft base ρ := by
  obtain ⟨hplaced, hgraft⟩ := Placement.place_graft hbase h helement
    (cellPosition g top f.cells) (some (g.widthFor (f.placement.nameOf element)))
  simp only [Filling.add, Filling.graft, Placement.nameOf_graft hbase helement, hgraft]
  rcases hplace : f.placement.place element (cellPosition g top f.cells)
    (some (g.widthFor (f.placement.nameOf element))) with ⟨_ | view, q⟩
  · rw [hplace] at hplaced
    exact ⟨hplaced, rfl⟩
  · rw [hplace] at hplaced
    refine ⟨hplaced, ?_⟩
    simp only [Option.map_some, Placement.boundsOf?_graft hbase]

theorem placeGroup_graft (hbase : base.Ground ρ) (g : GridSettings) (s : PackageSettings)
    {state : Placement Workspace × Int} (h : state.1.Sprouts base ρ) {group : Group}
    (hgroup : ∀ e ∈ group.members, e ≠ root) :
    (placeGroup g s state group).1.Sprouts base ρ ∧
      placeGroup g s (state.1.graft base ρ, state.2) (group.renumber ρ)
        = ((placeGroup g s state group).1.graft base ρ, (placeGroup g s state group).2) := by
  obtain ⟨hfilled, hgraft⟩ := foldl_map_of_invariant
    (f := Filling.add g (blockTop s state.2 group.depth))
    (g := Filling.add g (blockTop s state.2 group.depth)) (m := Filling.graft base ρ)
    (p := fun f => f.placement.Sprouts base ρ) (q := fun e => e ≠ root)
    (fun _ _ hf he => add_graft hbase g _ hf he) hgroup (b := { placement := state.1 }) h
  have hblock : fillBlock (state.1.graft base ρ) g
      (blockTop s state.2 (group.renumber ρ).depth) (group.renumber ρ).members
        = (fillBlock state.1 g (blockTop s state.2 group.depth) group.members).graft base ρ :=
    hgraft
  have hbounds : (fillBlock (state.1.graft base ρ) g (blockTop s state.2 (group.renumber ρ).depth)
      (group.renumber ρ).members).bounds
        = (fillBlock state.1 g (blockTop s state.2 group.depth) group.members).bounds := by
    rw [hblock]
    rfl
  simp only [placeGroup, hbounds]
  split
  · exact ⟨hfilled, by rw [hblock]; rfl⟩
  · exact ⟨hfilled, by rw [hblock]; rfl⟩

/-- **The grid** of the graft. -/
theorem arrange_graft (hbase : base.Ground ρ) (h : p.Sprouts base ρ) {roots : List ElementId}
    (hroots : ∀ e ∈ roots, e ≠ root) (g : GridSettings) (s : PackageSettings) :
    (arrange p roots g s).Sprouts base ρ ∧
      arrange (p.graft base ρ) (roots.map ρ.element) g s = (arrange p roots g s).graft base ρ := by
  have hmembers : ∀ group ∈ groups p roots, ∀ e ∈ group.members, e ≠ root :=
    fun group hgroup e he => hroots e (mem_of_mem_groups hgroup he)
  obtain ⟨harranged, hgraft⟩ := Placement.foldl_graft (f := placeGroup g s) (g := placeGroup g s)
    (n := Group.renumber ρ) (q := fun group => ∀ e ∈ group.members, e ≠ root)
    (fun _ _ hstate hgroup => placeGroup_graft hbase g s hstate hgroup) hmembers h g.originY
  refine ⟨harranged, ?_⟩
  rw [arrange, groups_graft hbase h hroots, hgraft]
  rfl

end Grid

/-! ### Use cases -/

namespace UseCases

theorem zipIdx_map_element (es : List ElementId) :
    (es.map ρ.element).zipIdx = es.zipIdx.map ρ.ranked :=
  List.zipIdx_map ..

theorem placeExclusive_graft (hbase : base.Ground ρ) (s : UseCaseSettings) (total : Nat)
    {state : Placement Workspace × Option Int × BlockCursor} (h : state.1.Sprouts base ρ)
    {numbered : ElementId × Nat} (hnumbered : numbered.1 ≠ root) :
    (placeExclusive s total state numbered).1.Sprouts base ρ ∧
      placeExclusive s total (state.1.graft base ρ, state.2) (ρ.ranked numbered)
        = ((placeExclusive s total state numbered).1.graft base ρ,
            (placeExclusive s total state numbered).2) := by
  obtain ⟨hplaced, hgraft⟩ := Placement.place_graft hbase h hnumbered
    ⟨state.2.2.x, state.2.2.y⟩ (some (s.useCaseWidth (state.1.nameOf numbered.1)))
  obtain ⟨useCase, index⟩ := numbered
  rw [ranked_mk]
  simp only [placeExclusive, Placement.nameOf_graft hbase hnumbered, hgraft]
  rcases hplace : state.1.place useCase ⟨state.2.2.x, state.2.2.y⟩
    (some (s.useCaseWidth (state.1.nameOf useCase))) with ⟨_ | view, q⟩
  · rw [hplace] at hplaced
    exact ⟨hplaced, rfl⟩
  · rw [hplace] at hplaced
    refine ⟨hplaced, ?_⟩
    simp only [Option.map_some, Option.bind_some, Placement.boundsOf?_graft hbase]

/-- The actor column being filled in the graft. -/
def ActorColumn.graft (base : Workspace) (ρ : Renumbering) (c : ActorColumn Workspace) :
    ActorColumn Workspace :=
  { c with
    placement := c.placement.graft base ρ
    centers := c.centers.map ρ.element id }

/-- An actor with its own use cases. -/
theorem placeActor_graft (hbase : base.Ground ρ) (s : UseCaseSettings) (buckets : UseCaseBuckets)
    {column : ActorColumn Workspace} (h : column.placement.Sprouts base ρ)
    {ordered : ElementId × Nat} (hactor : ordered.1 ≠ root)
    (hblock : ∀ e ∈ buckets.exclusiveOf ordered.1, e ≠ root) :
    (placeActor s buckets column ordered).placement.Sprouts base ρ ∧
      placeActor s (buckets.renumber ρ) (column.graft base ρ) (ρ.ranked ordered)
        = (placeActor s buckets column ordered).graft base ρ := by
  obtain ⟨actor, depth⟩ := ordered
  obtain ⟨hplaced, hgraft⟩ := Placement.place_graft hbase h hactor
    ⟨Saturating.add s.originX (Saturating.mul s.depthIndent
      (Saturating.ofNat depth Saturating.highest)), column.y⟩ none
  obtain ⟨hexclusive, hfold⟩ := Placement.foldl_graft
    (f := placeExclusive s (buckets.exclusiveOf actor).length)
    (g := placeExclusive s (buckets.exclusiveOf actor).length)
    (n := ρ.ranked) (q := fun numbered => numbered.1 ≠ root)
    (fun _ _ hstate hnumbered => placeExclusive_graft hbase s _ hstate hnumbered)
    (fun x hx => hblock x.1 (List.fst_mem_of_mem_zipIdx hx)) hplaced
    (column.right, (⟨s.exclusiveX, column.y, 0⟩ : BlockCursor))
  have hcenters : (column.centers.map ρ.element id).insert (ρ.element actor)
      (column.y + s.actorCenterOffset) = _ :=
    OrderedMap.insert_map (g := id) ρ.element_injective column.centers actor _
  refine ⟨hexclusive, ?_⟩
  rw [ranked_mk]
  simp only [placeActor, ActorColumn.graft, hgraft, exclusiveOf_renumber, zipIdx_map_element,
    List.length_map, hfold, Option.isSome_map, hcenters]
  split <;> rfl

/-- The actor column. -/
theorem placeActors_graft (hbase : base.Ground ρ) (s : UseCaseSettings) (buckets : UseCaseBuckets)
    {column : ActorColumn Workspace} (h : column.placement.Sprouts base ρ)
    {actors : List (ElementId × Nat)}
    (hactors : ∀ x ∈ actors, x.1 ≠ root ∧ ∀ e ∈ buckets.exclusiveOf x.1, e ≠ root) :
    (actors.foldl (placeActor s buckets) column).placement.Sprouts base ρ ∧
      (actors.map ρ.ranked).foldl (placeActor s (buckets.renumber ρ)) (column.graft base ρ)
        = (actors.foldl (placeActor s buckets) column).graft base ρ :=
  foldl_map_of_invariant (f := placeActor s buckets)
    (p := fun column : ActorColumn Workspace => column.placement.Sprouts base ρ)
    (fun _ _ hcolumn hx => placeActor_graft hbase s buckets hcolumn hx.1 hx.2) hactors h

theorem sharedY_graft (s : UseCaseSettings) (blueprints : List Blueprint)
    (centers : OrderedMap ElementId Int) (previous : Int) (isFirst : Bool) (useCase : ElementId) :
    sharedY s (blueprints.map (·.renumber ρ)) (centers.map ρ.element id) previous isFirst
        (ρ.element useCase)
      = sharedY s blueprints centers previous isFirst useCase := by
  have hheights : (connectedActors (ρ.element useCase) (blueprints.map (·.renumber ρ))).filterMap
        (centers.map ρ.element id).get?
      = (connectedActors useCase blueprints).filterMap centers.get? := by
    rw [connectedActors_renumber, List.filterMap_map]
    refine List.filterMap_congr fun actor _ => ?_
    rw [Function.comp_apply, OrderedMap.get?_map ρ.element_injective, Option.map_id, id]
  rw [sharedY, hheights, sharedY]

theorem placeShared_graft (hbase : base.Ground ρ) (s : UseCaseSettings) (blueprints : List Blueprint)
    (centers : OrderedMap ElementId Int) (x : Int) {state : Placement Workspace × Int}
    (h : state.1.Sprouts base ρ) {numbered : ElementId × Nat} (hnumbered : numbered.1 ≠ root) :
    (placeShared s blueprints centers x state numbered).1.Sprouts base ρ ∧
      placeShared s (blueprints.map (·.renumber ρ)) (centers.map ρ.element id) x
          (state.1.graft base ρ, state.2) (ρ.ranked numbered)
        = ((placeShared s blueprints centers x state numbered).1.graft base ρ,
            (placeShared s blueprints centers x state numbered).2) := by
  obtain ⟨useCase, index⟩ := numbered
  obtain ⟨hplaced, hgraft⟩ := Placement.place_graft hbase h hnumbered
    ⟨x, sharedY s blueprints centers state.2 (index = 0) useCase⟩
    (some (s.useCaseWidth (state.1.nameOf useCase)))
  refine ⟨hplaced, ?_⟩
  rw [ranked_mk]
  simp only [placeShared, Placement.nameOf_graft hbase hnumbered, sharedY_graft, hgraft]

/-- The shared column. -/
theorem placeAllShared_graft (hbase : base.Ground ρ) (s : UseCaseSettings)
    (blueprints : List Blueprint) (centers : OrderedMap ElementId Int) (x y : Int)
    (h : p.Sprouts base ρ) {useCases : List ElementId} (huseCases : ∀ e ∈ useCases, e ≠ root) :
    (useCases.zipIdx.foldl (placeShared s blueprints centers x) (p, y)).1.Sprouts base ρ ∧
      (useCases.map ρ.element).zipIdx.foldl
          (placeShared s (blueprints.map (·.renumber ρ)) (centers.map ρ.element id) x)
          (p.graft base ρ, y)
        = ((useCases.zipIdx.foldl (placeShared s blueprints centers x) (p, y)).1.graft base ρ,
            (useCases.zipIdx.foldl (placeShared s blueprints centers x) (p, y)).2) := by
  rw [zipIdx_map_element]
  exact Placement.foldl_graft (f := placeShared s blueprints centers x)
    (n := ρ.ranked) (q := fun numbered => numbered.1 ≠ root)
    (fun _ _ hstate hnumbered => placeShared_graft hbase s blueprints centers x hstate hnumbered)
    (fun numbered hmem => huseCases numbered.1 (List.fst_mem_of_mem_zipIdx hmem)) h y

theorem placeWrapped_graft (hbase : base.Ground ρ) (s : UseCaseSettings)
    {state : Placement Workspace × Point} (h : state.1.Sprouts base ρ) {element : ElementId}
    (helement : element ≠ root) :
    (placeWrapped s state element).1.Sprouts base ρ ∧
      placeWrapped s (state.1.graft base ρ, state.2) (ρ.element element)
        = ((placeWrapped s state element).1.graft base ρ, (placeWrapped s state element).2) := by
  obtain ⟨hplaced, hgraft⟩ := Placement.place_graft hbase h helement state.2
    (if state.1.kind? element = some .useCase then
      some (s.useCaseWidth (state.1.nameOf element)) else none)
  simp only [placeWrapped, Placement.nameOf_graft hbase helement,
    Placement.kind?_graft hbase helement, hgraft]
  exact ⟨hplaced, trivial⟩

/-- The rows of everything else. -/
theorem placeAllWrapped_graft (hbase : base.Ground ρ) (s : UseCaseSettings)
    (h : p.Sprouts base ρ) (position : Point) {elements : List ElementId}
    (helements : ∀ e ∈ elements, e ≠ root) :
    (elements.foldl (placeWrapped s) (p, position)).1.Sprouts base ρ ∧
      (elements.map ρ.element).foldl (placeWrapped s) (p.graft base ρ, position)
        = ((elements.foldl (placeWrapped s) (p, position)).1.graft base ρ,
            (elements.foldl (placeWrapped s) (p, position)).2) :=
  Placement.foldl_graft (f := placeWrapped s) (g := placeWrapped s) (n := ρ.element)
    (q := fun e => e ≠ root)
    (fun _ _ hstate he => placeWrapped_graft hbase s hstate he) helements h position

theorem ofKind_graft (hbase : base.Ground ρ) {roots : List ElementId}
    (hroots : ∀ e ∈ roots, e ≠ root) (wanted : ElementKind → Bool) :
    ofKind (p.graft base ρ) (roots.map ρ.element) wanted = (ofKind p roots wanted).map ρ.element := by
  rw [ofKind, ofKind]
  exact filter_map_of fun e he => by rw [Placement.kind?_graft hbase (hroots e he)]

/-- **The use case layout** of the graft. -/
theorem arrange_graft (hbase : base.Ground ρ) (h : p.Sprouts base ρ) {roots : List ElementId}
    (hnodup : roots.Nodup) (hroots : ∀ e ∈ roots, e ≠ root) (blueprints : List Blueprint)
    (s : UseCaseSettings) :
    (arrange p roots blueprints s).Sprouts base ρ ∧
      arrange (p.graft base ρ) (roots.map ρ.element) (blueprints.map (·.renumber ρ)) s
        = (arrange p roots blueprints s).graft base ρ := by
  have horder : ∀ e ∈ order p roots blueprints, e ≠ root := fun e he =>
    hroots e (mem_ofKind.1 ((perm_order p hnodup blueprints).mem_iff.1 he)).1
  simp only [order, List.mem_append, List.mem_flatMap, List.mem_cons] at horder
  simp only [arrange, ofKind_graft hbase hroots, bucketUseCases_renumber, orderActors_renumber]
  -- From here on nothing is known of the kinds and buckets but that the project is in none of them.
  generalize ofKind p roots (fun kind => decide (kind = .actor)) = actors at horder ⊢
  generalize ofKind p roots (fun kind => decide (kind = .useCase)) = useCases at horder ⊢
  generalize ofKind p roots (fun kind => !kind.isParticipant && decide (kind ≠ .package)) = others
    at horder ⊢
  generalize bucketUseCases actors useCases blueprints = buckets at horder ⊢
  have hstart : ({ placement := p, y := s.originY } : ActorColumn Workspace).placement.Sprouts
      base ρ := h
  obtain ⟨hcolumn, hactors⟩ := placeActors_graft hbase s buckets hstart fun x hx =>
    ⟨horder x.1 (.inl (.inl ⟨x, hx, .inl rfl⟩)),
      fun e he => horder e (.inl (.inl ⟨x, hx, .inr he⟩))⟩
  rw [show ({ placement := p.graft base ρ, y := s.originY } : ActorColumn Workspace)
    = ActorColumn.graft base ρ { placement := p, y := s.originY } from rfl, hactors]
  generalize (orderActors actors blueprints).foldl (placeActor s buckets)
    ({ placement := p, y := s.originY } : ActorColumn Workspace) = column at hcolumn ⊢
  obtain ⟨hshared, hcolumn'⟩ := placeAllShared_graft hbase s blueprints column.centers
    (sharedX s column.right) s.originY hcolumn fun e he => horder e (.inl (.inr he))
  simp only [ActorColumn.graft, UseCaseBuckets.renumber, hcolumn']
  generalize buckets.shared.zipIdx.foldl (placeShared s blueprints column.centers
    (sharedX s column.right)) (column.placement, s.originY) = shared at hshared ⊢
  obtain ⟨hwrapped, hrows⟩ := placeAllWrapped_graft hbase s hshared
    ⟨s.originX, max column.y (shared.2 + s.rowSpacing)⟩ fun e he =>
      horder e (.inr (List.mem_append.1 he))
  rw [← List.map_append, hrows]
  exact ⟨hwrapped, rfl⟩

end UseCases

end UmlText
