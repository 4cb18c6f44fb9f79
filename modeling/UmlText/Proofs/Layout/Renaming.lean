import UmlText.Layout.Actors
import UmlText.Layout.Buckets
import UmlText.Proofs.Import.Renumbering

/-!
# UmlText.Proofs.Layout.Renaming

**The order of actors and the buckets of use cases under other numbers.** Both compare elements and
nothing else, so a renumbering goes through them.
-/

namespace UmlText

variable (ρ : Renumbering)

/-! ### The order of actors -/

/-- An actor under another number, at the same depth. -/
def Renumbering.ranked (x : ElementId × Nat) : ElementId × Nat := (ρ.element x.1, x.2)

theorem ranked_mk (actor : ElementId) (depth : Nat) :
    ρ.ranked (actor, depth) = (ρ.element actor, depth) := rfl

theorem actorEdges_renumber (actors : List ElementId) (blueprints : List Blueprint) :
    actorEdges (actors.map ρ.element) (blueprints.map (·.renumber ρ))
      = (actorEdges actors blueprints).map (Prod.map ρ.element ρ.element) := by
  rw [actorEdges, List.filterMap_map, actorEdges, List.map_filterMap]
  refine List.filterMap_congr fun b _ => ?_
  simp only [Function.comp_apply, Blueprint.renumber, List.mem_map_of_injective ρ.element_injective]
  split <;> rfl

theorem childrenIn_renumber (edges : List (ElementId × ElementId)) (actor : ElementId) :
    childrenIn (edges.map (Prod.map ρ.element ρ.element)) (ρ.element actor)
      = (childrenIn edges actor).map ρ.element := by
  rw [childrenIn, List.filterMap_map, childrenIn, List.map_filterMap]
  refine List.filterMap_congr fun edge _ => ?_
  simp only [Function.comp_apply, Prod.map, ρ.element_injective.eq_iff]
  split <;> rfl

theorem visitActors_renumber (edges : List (ElementId × ElementId)) (remaining : List ElementId)
    (stack : List (ElementId × Nat)) :
    visitActors (edges.map (Prod.map ρ.element ρ.element)) (remaining.map ρ.element)
        (stack.map ρ.ranked)
      = (visitActors edges remaining stack).map ρ.ranked := by
  -- The traversal takes the same branch under other numbers, whether the actor was visited or not.
  fun_induction visitActors edges remaining stack with
  | case1 remaining => simp [visitActors]
  | case2 remaining actor depth stack hmem rest children ih =>
      have hchildren : ((childrenIn (edges.map (Prod.map ρ.element ρ.element)) (ρ.element actor)).filter
            (· ∈ rest.map ρ.element)) = children.map ρ.element := by
        rw [childrenIn_renumber]
        exact filter_map_of fun child _ => by
          simp only [List.mem_map_of_injective ρ.element_injective]
      have hstack : (children.map (·, depth + 1) ++ stack).map ρ.ranked
          = (children.map ρ.element).map (·, depth + 1) ++ stack.map ρ.ranked := by
        rw [List.map_append, List.map_map, List.map_map]
        rfl
      have herase : (remaining.map ρ.element).erase (ρ.element actor) = rest.map ρ.element :=
        (List.map_erase ρ.element_injective remaining).symm
      rw [List.map_cons, ranked_mk, visitActors,
        dif_pos (List.mem_map_of_mem hmem)]
      simp only [herase, hchildren]
      rw [← hstack, ih, List.map_cons]
      rfl
  | case3 remaining actor depth stack hmem ih =>
      rw [List.map_cons, ranked_mk, visitActors,
        dif_neg fun h => hmem ((List.mem_map_of_injective ρ.element_injective).1 h), ih]

/-- **The order of actors** is the same under other numbers. -/
theorem orderActors_renumber (actors : List ElementId) (blueprints : List Blueprint) :
    orderActors (actors.map ρ.element) (blueprints.map (·.renumber ρ))
      = (orderActors actors blueprints).map ρ.ranked := by
  simp only [orderActors, eraseDups_map ρ.element_injective, actorEdges_renumber]
  have hroots : ((actors.eraseDups.map ρ.element).filter fun actor =>
        actor ∉ ((actorEdges actors.eraseDups blueprints).map
          (Prod.map ρ.element ρ.element)).map Prod.snd)
      = (actors.eraseDups.filter fun actor =>
          actor ∉ (actorEdges actors.eraseDups blueprints).map Prod.snd).map ρ.element := by
    have hsnd : ((actorEdges actors.eraseDups blueprints).map
        (Prod.map ρ.element ρ.element)).map Prod.snd
          = ((actorEdges actors.eraseDups blueprints).map Prod.snd).map ρ.element := by
      rw [List.map_map, List.map_map]
      rfl
    rw [hsnd]
    exact filter_map_of fun actor _ => by simp only [List.mem_map_of_injective ρ.element_injective]
  rw [hroots, ← List.map_append, ← visitActors_renumber, List.map_map, List.map_map]
  rfl

/-! ### Use cases by their actors -/

/-- Lists of elements by an element, under other numbers. -/
def Renumbering.links (links : OrderedMap ElementId (List ElementId)) :
    OrderedMap ElementId (List ElementId) :=
  links.map ρ.element (List.map ρ.element)

theorem get?_links (links : OrderedMap ElementId (List ElementId)) (key : ElementId) :
    ((ρ.links links).get? (ρ.element key)).getD [] = ((links.get? key).getD []).map ρ.element := by
  rw [Renumbering.links, OrderedMap.get?_map ρ.element_injective]
  cases links.get? key <;> rfl

theorem linkActor_renumber (links : OrderedMap ElementId (List ElementId))
    (actor useCase : ElementId) :
    linkActor (ρ.links links) (ρ.element actor) (ρ.element useCase)
      = ρ.links (linkActor links actor useCase) := by
  refine OrderedMap.alter_map ρ.element_injective links useCase fun known => ?_
  have hknown : (known.map (List.map ρ.element)).getD [] = (known.getD []).map ρ.element := by
    cases known <;> rfl
  simp only [hknown, List.mem_map_of_injective ρ.element_injective]
  split
  · rfl
  · rw [List.map_append]; rfl

theorem linkedActors_renumber (actors useCases : List ElementId) (blueprints : List Blueprint) :
    linkedActors (actors.map ρ.element) (useCases.map ρ.element) (blueprints.map (·.renumber ρ))
      = ρ.links (linkedActors actors useCases blueprints) := by
  rw [linkedActors, List.foldl_map]
  change blueprints.foldl _ (ρ.links {}) = _
  refine List.foldl_hom ρ.links fun links b => ?_
  simp only [Blueprint.renumber, List.mem_map_of_injective ρ.element_injective]
  by_cases hforth : b.source ∈ actors ∧ b.target ∈ useCases <;>
    by_cases hback : b.target ∈ actors ∧ b.source ∈ useCases <;>
    simp only [hforth, hback, and_self, if_true, if_false, linkActor_renumber]

/-- The same use cases in the same buckets. -/
def UseCaseBuckets.renumber (b : UseCaseBuckets) : UseCaseBuckets where
  exclusive := ρ.links b.exclusive
  shared := b.shared.map ρ.element
  orphans := b.orphans.map ρ.element

theorem exclusiveOf_renumber (b : UseCaseBuckets) (actor : ElementId) :
    (b.renumber ρ).exclusiveOf (ρ.element actor) = (b.exclusiveOf actor).map ρ.element :=
  get?_links ρ b.exclusive actor

theorem add_renumber (b : UseCaseBuckets) (useCase : ElementId) (actors : List ElementId) :
    (b.renumber ρ).add (ρ.element useCase) (actors.map ρ.element)
      = (b.add useCase actors).renumber ρ := by
  match actors with
  | [] => simp [UseCaseBuckets.add, UseCaseBuckets.renumber]
  | [actor] =>
      have hexclusive : (ρ.links b.exclusive).alter (ρ.element actor)
          (fun known => known.getD [] ++ [ρ.element useCase])
            = ρ.links (b.exclusive.alter actor fun known => known.getD [] ++ [useCase]) := by
        refine OrderedMap.alter_map ρ.element_injective b.exclusive actor fun known => ?_
        cases known <;> simp
      simp only [List.map_cons, List.map_nil, UseCaseBuckets.add, UseCaseBuckets.renumber,
        hexclusive]
  | _ :: _ :: _ => simp [UseCaseBuckets.add, UseCaseBuckets.renumber]

/-- **The buckets** are the same under other numbers. -/
theorem bucketUseCases_renumber (actors useCases : List ElementId) (blueprints : List Blueprint) :
    bucketUseCases (actors.map ρ.element) (useCases.map ρ.element) (blueprints.map (·.renumber ρ))
      = (bucketUseCases actors useCases blueprints).renumber ρ := by
  simp only [bucketUseCases, linkedActors_renumber]
  rw [List.foldl_map]
  change useCases.foldl _ (UseCaseBuckets.renumber ρ {}) = _
  refine List.foldl_hom (UseCaseBuckets.renumber ρ) fun b useCase => ?_
  rw [get?_links, add_renumber]

theorem connectedActors_renumber (useCase : ElementId) (blueprints : List Blueprint) :
    connectedActors (ρ.element useCase) (blueprints.map (·.renumber ρ))
      = (connectedActors useCase blueprints).map ρ.element := by
  rw [connectedActors, List.filterMap_map, connectedActors, ← eraseDups_map ρ.element_injective,
    List.map_filterMap]
  congr 1
  refine List.filterMap_congr fun b _ => ?_
  simp only [Function.comp_apply, Blueprint.renumber, ρ.element_injective.eq_iff]
  split
  · rfl
  · split <;> rfl

end UmlText
