import Mathlib.Data.List.Nodup
import UmlText.Layout.Actors
import UmlText.Layout.Buckets
import UmlText.Proofs.Tables

/-!
# UmlText.Proofs.Layout.Actors

**Every actor and every use case has one place.** The order of the actors is a permutation of them,
whatever their generalizations are, cycles included (`orderActors_perm`). The buckets of use cases
are filters on the actors linked to a use case, so they divide the use cases among themselves
(`perm_buckets`).
-/

namespace UmlText

/-! ### The order of actors -/

variable {edges : List (ElementId × ElementId)}

theorem mem_of_mem_visitActors {remaining : List ElementId} {stack : List (ElementId × Nat)}
    {a : ElementId} (h : a ∈ (visitActors edges remaining stack).map Prod.fst) :
    a ∈ remaining := by
  fun_induction visitActors edges remaining stack with
  | case1 => simp at h
  | case2 remaining actor depth stack hmem rest children ih =>
      rw [List.map_cons, List.mem_cons] at h
      rcases h with rfl | h
      · exact hmem
      · exact List.mem_of_mem_erase (ih h)
  | case3 remaining actor depth stack hmem ih => exact ih h

/-- No actor is visited twice. -/
theorem nodup_visitActors {remaining : List ElementId} (stack : List (ElementId × Nat))
    (h : remaining.Nodup) : ((visitActors edges remaining stack).map Prod.fst).Nodup := by
  fun_induction visitActors edges remaining stack with
  | case1 => exact List.nodup_nil
  | case2 remaining actor depth stack hmem rest children ih =>
      rw [List.map_cons, List.nodup_cons]
      exact ⟨fun hactor => (h.mem_erase_iff.1 (mem_of_mem_visitActors hactor)).1 rfl,
        ih (h.erase actor)⟩
  | case3 remaining actor depth stack hmem ih => exact ih h

/-- Every remaining actor on the stack is visited. -/
theorem mem_visitActors {remaining : List ElementId} {stack : List (ElementId × Nat)}
    {a : ElementId} (hremaining : a ∈ remaining) (hstack : a ∈ stack.map Prod.fst) :
    a ∈ (visitActors edges remaining stack).map Prod.fst := by
  fun_induction visitActors edges remaining stack with
  | case1 => simp at hstack
  | case2 remaining actor depth stack hmem rest children ih =>
      rw [List.map_cons, List.mem_cons]
      by_cases ha : a = actor
      · exact .inl ha
      · refine .inr (ih ((List.mem_erase_of_ne ha).2 hremaining) ?_)
        rw [List.map_append, List.mem_append]
        exact .inr ((List.mem_cons.1 hstack).resolve_left ha)
  | case3 remaining actor depth stack hmem ih =>
      refine ih hremaining ((List.mem_cons.1 hstack).resolve_left ?_)
      intro heq
      subst heq
      exact hmem hremaining

/-- **The order of actors lists every actor once.** -/
theorem orderActors_perm (actors : List ElementId) (blueprints : List Blueprint) :
    ((orderActors actors blueprints).map Prod.fst).Perm actors.eraseDups := by
  refine (List.perm_ext_iff_of_nodup (nodup_visitActors _ (nodup_eraseDups actors))
    (nodup_eraseDups actors)).2 fun a => ⟨mem_of_mem_visitActors, ?_⟩
  intro h
  refine mem_visitActors h ?_
  rw [List.map_map, List.mem_map]
  exact ⟨a, List.mem_append_right _ h, rfl⟩

/-- The stack goes no deeper than there are actors left: a level is paid for by an actor. -/
theorem depth_le_visitActors {remaining : List ElementId} {stack : List (ElementId × Nat)} {n : Nat}
    (h : ∀ o ∈ stack, o.2 + remaining.length ≤ n) {o : ElementId × Nat}
    (ho : o ∈ visitActors edges remaining stack) : o.2 < n := by
  fun_induction visitActors edges remaining stack with
  | case1 => cases ho
  | case2 remaining actor depth stack hmem rest children ih =>
      have hfirst : depth + remaining.length ≤ n := h _ List.mem_cons_self
      have hpositive := List.length_pos_of_mem hmem
      have hrest : rest.length = remaining.length - 1 := List.length_erase_of_mem hmem
      rcases List.mem_cons.1 ho with rfl | ho
      · show depth < n
        omega
      · refine ih (fun child hchild => ?_) ho
        rcases List.mem_append.1 hchild with hchild | hchild
        · obtain ⟨actor', -, rfl⟩ := List.mem_map.1 hchild
          show depth + 1 + rest.length ≤ n
          omega
        · have hbelow := h child (List.mem_cons_of_mem _ hchild)
          omega
  | case3 remaining actor depth stack hmem ih =>
      exact ih (fun o ho => h o (List.mem_cons_of_mem _ ho)) ho

/-- **An actor is less deep than there are actors**, cycles included. -/
theorem depth_lt_orderActors {actors : List ElementId} {blueprints : List Blueprint}
    {o : ElementId × Nat} (h : o ∈ orderActors actors blueprints) :
    o.2 < (orderActors actors blueprints).length := by
  have hlength := (orderActors_perm actors blueprints).length_eq
  rw [List.length_map] at hlength
  rw [hlength]
  refine depth_le_visitActors (fun o ho => ?_) h
  obtain ⟨actor, -, rfl⟩ := List.mem_map.1 ho
  exact Nat.le_of_eq (Nat.zero_add _)

/-! ### The actors of a use case -/

/-- The actors that blueprints link a use case to, each once. -/
def actorsOf (actors useCases : List ElementId) (blueprints : List Blueprint)
    (useCase : ElementId) : List ElementId :=
  ((linkedActors actors useCases blueprints).get? useCase).getD []

theorem get?_linkActor (links : OrderedMap ElementId (List ElementId))
    (actor useCase u : ElementId) :
    ((linkActor links actor useCase).get? u).getD []
      = if useCase = u ∧ actor ∉ (links.get? u).getD [] then (links.get? u).getD [] ++ [actor]
        else (links.get? u).getD [] := by
  rw [linkActor, OrderedMap.get?, OrderedMap.alter, OrderedMap.findEntry_alterEntries]
  by_cases hu : useCase = u
  · subst hu
    simp only [if_true, Option.getD_some, OrderedMap.get?, true_and]
    split <;> simp_all
  · simp [hu, OrderedMap.get?]

/-- Only listed actors are linked to use cases. -/
theorem mem_actors_of_mem_actorsOf {actors useCases : List ElementId}
    {blueprints : List Blueprint} {useCase a : ElementId}
    (h : a ∈ actorsOf actors useCases blueprints useCase) : a ∈ actors := by
  let Listed (links : OrderedMap ElementId (List ElementId)) : Prop :=
    ∀ u, ∀ a ∈ (links.get? u).getD [], a ∈ actors
  have hlink : ∀ links, Listed links → ∀ actor useCase, Listed
      (if actor ∈ actors ∧ useCase ∈ useCases then linkActor links actor useCase else links) := by
    intro links hlinks actor useCase
    split
    · next hactor =>
        intro u a ha
        rw [get?_linkActor] at ha
        split at ha
        · rcases List.mem_append.1 ha with ha | ha
          · exact hlinks u a ha
          · exact List.mem_singleton.1 ha ▸ hactor.1
        · exact hlinks u a ha
    · exact hlinks
  have hall : ∀ (bs : List Blueprint) links, Listed links → Listed (bs.foldl (fun links b =>
      let link (links : OrderedMap ElementId (List ElementId)) (actor useCase : ElementId) :=
        if actor ∈ actors ∧ useCase ∈ useCases then linkActor links actor useCase else links
      link (link links b.source b.target) b.target b.source) links) := by
    intro bs
    induction bs with
    | nil => exact fun links hlinks => hlinks
    | cons b rest ih => exact fun links hlinks => ih _ (hlink _ (hlink _ hlinks _ _) _ _)
  exact hall blueprints {} (fun u a ha => by simp at ha) useCase a h

/-! ### The buckets -/

/-- A use case is added to the bucket for its actors, and to no other. -/
theorem exclusiveOf_add (b : UseCaseBuckets) (useCase : ElementId) (actors : List ElementId)
    (a : ElementId) :
    (b.add useCase actors).exclusiveOf a
      = b.exclusiveOf a ++ if actors = [a] then [useCase] else [] := by
  match actors with
  | [] => simp [UseCaseBuckets.add, UseCaseBuckets.exclusiveOf]
  | [actor] =>
      simp only [UseCaseBuckets.add, UseCaseBuckets.exclusiveOf, OrderedMap.get?,
        OrderedMap.alter, OrderedMap.findEntry_alterEntries]
      by_cases ha : actor = a
      · subst ha; simp
      · simp [ha]
  | _ :: _ :: _ => simp [UseCaseBuckets.add, UseCaseBuckets.exclusiveOf]

theorem shared_add (b : UseCaseBuckets) (useCase : ElementId) (actors : List ElementId) :
    (b.add useCase actors).shared
      = b.shared ++ if 2 ≤ actors.length then [useCase] else [] := by
  match actors with
  | [] => simp [UseCaseBuckets.add]
  | [_] => simp [UseCaseBuckets.add]
  | _ :: _ :: _ => simp [UseCaseBuckets.add]

theorem orphans_add (b : UseCaseBuckets) (useCase : ElementId) (actors : List ElementId) :
    (b.add useCase actors).orphans
      = b.orphans ++ if actors = [] then [useCase] else [] := by
  match actors with
  | [] => simp [UseCaseBuckets.add]
  | [_] => simp [UseCaseBuckets.add]
  | _ :: _ :: _ => simp [UseCaseBuckets.add]

variable {actors useCases : List ElementId} {blueprints : List Blueprint}

/-- A part of the buckets to which each use case adds itself or nothing is a filter. -/
theorem foldl_add_eq_filter (part : UseCaseBuckets → List ElementId)
    (links : ElementId → List ElementId) (belongs : List ElementId → Bool)
    (hadd : ∀ b u as, part (b.add u as) = part b ++ if belongs as then [u] else [])
    (b : UseCaseBuckets) (l : List ElementId) :
    part (l.foldl (fun b u => b.add u (links u)) b)
      = part b ++ l.filter fun u => belongs (links u) := by
  induction l generalizing b with
  | nil => simp
  | cons u rest ih =>
      rw [List.foldl_cons, ih, hadd, List.append_assoc]
      by_cases hu : belongs (links u) <;> simp [hu]

theorem exclusiveOf_bucketUseCases :
    (bucketUseCases actors useCases blueprints).exclusiveOf
      = fun a => useCases.filter fun u => actorsOf actors useCases blueprints u = [a] :=
  funext fun a => foldl_add_eq_filter (fun b => b.exclusiveOf a)
    (actorsOf actors useCases blueprints) (fun as => as = [a])
    (fun b u as => by simpa using exclusiveOf_add b u as a) {} useCases

theorem shared_bucketUseCases :
    (bucketUseCases actors useCases blueprints).shared
      = useCases.filter fun u => 2 ≤ (actorsOf actors useCases blueprints u).length :=
  foldl_add_eq_filter UseCaseBuckets.shared
    (actorsOf actors useCases blueprints) (fun as => 2 ≤ as.length)
    (fun b u as => by simpa using shared_add b u as) {} useCases

theorem orphans_bucketUseCases :
    (bucketUseCases actors useCases blueprints).orphans
      = useCases.filter fun u => actorsOf actors useCases blueprints u = [] :=
  foldl_add_eq_filter UseCaseBuckets.orphans
    (actorsOf actors useCases blueprints) (fun as => as = [])
    (fun b u as => by simpa using orphans_add b u as) {} useCases

/-- **The buckets divide the use cases**: each one belongs to one of the actors, is shared, or is an
orphan. -/
theorem perm_buckets (hactors : actors.Nodup) (huseCases : useCases.Nodup) :
    (actors.flatMap (bucketUseCases actors useCases blueprints).exclusiveOf
      ++ (bucketUseCases actors useCases blueprints).shared
      ++ (bucketUseCases actors useCases blueprints).orphans).Perm useCases := by
  have hnodup : (actors.flatMap (bucketUseCases actors useCases blueprints).exclusiveOf
      ++ (bucketUseCases actors useCases blueprints).shared
      ++ (bucketUseCases actors useCases blueprints).orphans).Nodup := by
    simp only [exclusiveOf_bucketUseCases, shared_bucketUseCases, orphans_bucketUseCases]
    refine List.nodup_append'.2 ⟨List.nodup_append'.2
      ⟨List.nodup_flatMap.2 ⟨fun a _ => huseCases.filter _, ?_⟩, huseCases.filter _, ?_⟩,
      huseCases.filter _, ?_⟩
    · refine hactors.imp fun {a a'} hne u hu hu' => hne ?_
      simp only [List.mem_filter, decide_eq_true_eq] at hu hu'
      exact List.singleton_inj.1 (hu.2.symm.trans hu'.2)
    · intro u hu hu'
      simp only [List.mem_flatMap, List.mem_filter, decide_eq_true_eq] at hu hu'
      obtain ⟨a, -, -, hu⟩ := hu
      simp [hu] at hu'
    · intro u hu hu'
      simp only [List.mem_append, List.mem_flatMap, List.mem_filter, decide_eq_true_eq] at hu hu'
      rcases hu with ⟨a, -, -, hu⟩ | ⟨-, hu⟩ <;> simp [hu'.2] at hu
  refine (List.perm_ext_iff_of_nodup hnodup huseCases).2 ?_
  intro u
  simp only [exclusiveOf_bucketUseCases, shared_bucketUseCases, orphans_bucketUseCases,
    List.mem_append, List.mem_flatMap, List.mem_filter, decide_eq_true_eq]
  constructor
  · intro hbucket
    rcases hbucket with (⟨a, -, hu, -⟩ | ⟨hu, -⟩) | ⟨hu, -⟩ <;> exact hu
  · intro hu
    match has : actorsOf actors useCases blueprints u with
    | [] => exact .inr ⟨hu, rfl⟩
    | [a] =>
        refine .inl (.inl ⟨a, ?_, hu, rfl⟩)
        exact mem_actors_of_mem_actorsOf (has ▸ List.mem_singleton_self a)
    | _ :: _ :: _ => exact .inl (.inr ⟨hu, by simp⟩)

end UmlText
