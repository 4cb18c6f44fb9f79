import Mathlib.Data.List.Perm.Basic
import UmlText.Proofs.Layout.Actors

/-!
# UmlText.Proofs.Layout.Preorder

**Actors are listed in the pre-order of their hierarchy.** `orderActors` takes actors from a stack on
which some of them stand more than once. The list it makes is that of the plain recursive traversal
(`preorder`), whatever the generalizations are: cycles, several parents, repetitions, ends that are
no listed actors. What carries this is that siblings on top of a stack are worked off as the
traversal of the siblings, followed by the rest of the stack for what is still unlisted then
(`visitActors_append`).
-/

namespace UmlText

/-! ### The recursive traversal -/

/-- Those of some actors that are not in a list with depths. -/
def unlistedIn (actors : List ElementId) (listed : List (ElementId × Nat)) : List ElementId :=
  actors.filter (· ∉ listed.map Prod.fst)

theorem length_unlistedIn_le (actors : List ElementId) (listed : List (ElementId × Nat)) :
    (unlistedIn actors listed).length ≤ actors.length :=
  List.length_filter_le _ _

theorem length_erase_lt {actors : List ElementId} {actor : ElementId} (h : actor ∈ actors) :
    (actors.erase actor).length < actors.length := by
  have hpos := List.length_pos_of_mem h
  rw [List.length_erase_of_mem h]
  omega

/-- Lists each of some siblings that is still unlisted with its depth, followed by what is below it,
one level deeper. -/
def preorder (children : ElementId → List ElementId) (unlisted : List ElementId) (depth : Nat) :
    List ElementId → List (ElementId × Nat)
  | [] => []
  | actor :: siblings =>
    if _h : actor ∈ unlisted then
      let below := preorder children (unlisted.erase actor) (depth + 1) (children actor)
      (actor, depth) :: below ++
        preorder children (unlistedIn (unlisted.erase actor) below) depth siblings
    else
      preorder children unlisted depth siblings
termination_by siblings => (unlisted.length, siblings.length)
decreasing_by
  · exact .left _ _ (length_erase_lt _h)
  · exact .left _ _ (Nat.lt_of_le_of_lt (length_unlistedIn_le _ _) (length_erase_lt _h))
  · exact .right _ (Nat.lt_succ_self _)

/-- The actors that were given a generalization to `parent`, in the order of the first ones. -/
def subordinates (blueprints : List Blueprint) (parent : ElementId) : List ElementId :=
  ((blueprints.filter fun b => b.kind = .generalization ∧ b.target = parent).map
    Blueprint.source).eraseDups

/-- Whether an actor has a generalization to a listed one. -/
def hasParent (actors : List ElementId) (blueprints : List Blueprint) (actor : ElementId) : Bool :=
  blueprints.any fun b => b.kind = .generalization ∧ b.source = actor ∧ b.target ∈ actors

/-- The hierarchy of some actors: first those without a parent, then those that are left, each with
what is below it. -/
def hierarchy (actors : List ElementId) (blueprints : List Blueprint) : List (ElementId × Nat) :=
  let distinct := actors.eraseDups
  let (inner, outer) := distinct.partition (hasParent actors blueprints)
  preorder (subordinates blueprints) distinct 0 (outer ++ inner)

/-! ### What is left to list -/

section Unlisted

variable {actors : List ElementId} {listed more : List (ElementId × Nat)}

theorem mem_unlistedIn {a : ElementId} :
    a ∈ unlistedIn actors listed ↔ a ∈ actors ∧ a ∉ listed.map Prod.fst := by
  rw [unlistedIn, List.mem_filter, decide_eq_true_eq]

theorem nodup_unlistedIn (h : actors.Nodup) : (unlistedIn actors listed).Nodup :=
  h.filter _

theorem unlistedIn_nil : unlistedIn actors [] = actors :=
  List.filter_eq_self.2 fun a _ => by simp

theorem unlistedIn_append :
    unlistedIn actors (listed ++ more) = unlistedIn (unlistedIn actors listed) more := by
  simp only [unlistedIn, List.filter_filter, List.map_append, List.mem_append, not_or]
  refine List.filter_congr fun a _ => ?_
  rw [Bool.eq_iff_iff]
  simp [and_comm]

theorem unlistedIn_cons (h : actors.Nodup) (a : ElementId) (depth : Nat) :
    unlistedIn actors ((a, depth) :: listed) = unlistedIn (actors.erase a) listed := by
  rw [h.erase_eq_filter, unlistedIn, unlistedIn, List.filter_filter]
  refine List.filter_congr fun b _ => ?_
  rw [Bool.eq_iff_iff]
  simp [and_comm]

end Unlisted

/-! ### Laws of the traversal -/

section Laws

variable {children : ElementId → List ElementId} {unlisted : List ElementId} {depth : Nat}
  {actor : ElementId} {siblings more : List ElementId}

theorem preorder_nil : preorder children unlisted depth [] = [] := by
  rw [preorder]

theorem preorder_cons_of_mem (h : actor ∈ unlisted) :
    preorder children unlisted depth (actor :: siblings)
      = (actor, depth) :: preorder children (unlisted.erase actor) (depth + 1) (children actor) ++
        preorder children (unlistedIn (unlisted.erase actor)
          (preorder children (unlisted.erase actor) (depth + 1) (children actor)))
          depth siblings := by
  rw [preorder, dif_pos h]

theorem preorder_cons_of_not_mem (h : actor ∉ unlisted) :
    preorder children unlisted depth (actor :: siblings)
      = preorder children unlisted depth siblings := by
  rw [preorder, dif_neg h]

/-- Siblings that are not to be listed can be left out. -/
theorem preorder_filter {keep : ElementId → Bool} (h : ∀ a ∈ unlisted, keep a) :
    preorder children unlisted depth (siblings.filter keep)
      = preorder children unlisted depth siblings := by
  induction siblings generalizing unlisted with
  | nil => rfl
  | cons a rest ih =>
      by_cases ha : a ∈ unlisted
      · rw [List.filter_cons_of_pos (h a ha), preorder_cons_of_mem ha, preorder_cons_of_mem ha, ih]
        intro b hb
        exact h b (List.mem_of_mem_erase (mem_unlistedIn.1 hb).1)
      · rw [preorder_cons_of_not_mem ha, ← ih h]
        by_cases hkeep : keep a
        · rw [List.filter_cons_of_pos hkeep, preorder_cons_of_not_mem ha]
        · rw [List.filter_cons_of_neg hkeep]

/-- Siblings are listed one after the other. -/
theorem preorder_append (h : unlisted.Nodup) :
    preorder children unlisted depth (siblings ++ more)
      = preorder children unlisted depth siblings ++
        preorder children (unlistedIn unlisted (preorder children unlisted depth siblings))
          depth more := by
  induction siblings generalizing unlisted with
  | nil => rw [preorder_nil, unlistedIn_nil, List.nil_append, List.nil_append]
  | cons a rest ih =>
      by_cases ha : a ∈ unlisted
      · rw [List.cons_append, preorder_cons_of_mem ha, preorder_cons_of_mem ha,
          ih (nodup_unlistedIn (h.erase a)), List.cons_append, List.cons_append, List.cons_append,
          unlistedIn_cons h, unlistedIn_append, List.append_assoc]
      · rw [List.cons_append, preorder_cons_of_not_mem ha, preorder_cons_of_not_mem ha, ih h]

/-- Every sibling that is to be listed is listed. -/
theorem mem_preorder (hsibling : actor ∈ siblings) (h : actor ∈ unlisted) :
    actor ∈ (preorder children unlisted depth siblings).map Prod.fst := by
  induction siblings generalizing unlisted with
  | nil => cases hsibling
  | cons a rest ih =>
      by_cases ha : a ∈ unlisted
      · rw [preorder_cons_of_mem ha, List.map_append, List.map_cons, List.mem_append,
          List.mem_cons]
        by_cases hbelow : actor = a ∨ actor ∈
            (preorder children (unlisted.erase a) (depth + 1) (children a)).map Prod.fst
        · exact .inl hbelow
        · obtain ⟨hne, hbelow⟩ := not_or.1 hbelow
          exact .inr (ih ((List.mem_cons.1 hsibling).resolve_left hne)
            (mem_unlistedIn.2 ⟨(List.mem_erase_of_ne hne).2 h, hbelow⟩))
      · rw [preorder_cons_of_not_mem ha]
        refine ih ((List.mem_cons.1 hsibling).resolve_left ?_) h
        intro heq
        exact ha (heq ▸ h)

/-- Repeated siblings can be left out. -/
theorem preorder_eraseDups (h : unlisted.Nodup) :
    preorder children unlisted depth siblings.eraseDups
      = preorder children unlisted depth siblings := by
  induction siblings using List.reverseRecOn with
  | nil => rfl
  | append_singleton siblings a ih =>
      rw [eraseDups_concat]
      by_cases ha : a ∈ siblings
      · -- By its second turn the sibling has been listed, or was not to be.
        rw [if_pos ha, ih, preorder_append h, preorder_cons_of_not_mem, preorder_nil,
          List.append_nil]
        rw [mem_unlistedIn, not_and_not_right]
        exact mem_preorder ha
      · rw [if_neg ha, preorder_append h, preorder_append h, ih]

/-- Nothing is listed above the level of the siblings. -/
theorem le_depth_of_mem_preorder {e : ElementId × Nat}
    (he : e ∈ preorder children unlisted depth siblings) : depth ≤ e.2 := by
  fun_induction preorder children unlisted depth siblings with
  | case1 => cases he
  | case2 unlisted depth actor siblings hmem below ih ihsiblings =>
      rcases List.mem_append.1 he with he | he
      · rcases List.mem_cons.1 he with rfl | he
        · exact Nat.le_refl _
        · exact Nat.le_of_succ_le (ih he)
      · exact ihsiblings he
  | case3 unlisted depth actor siblings hmem ih => exact ih he

/-- Two ways to give children lead to the same traversal, if one traversal does not tell the
children of any actor apart. -/
theorem preorder_congr {children' : ElementId → List ElementId} {actors : List ElementId}
    (hsame : ∀ a ∈ actors, ∀ unlisted depth, unlisted.Nodup → unlisted ⊆ actors →
      preorder children' unlisted depth (children a)
        = preorder children' unlisted depth (children' a))
    (h : unlisted.Nodup) (hsub : unlisted ⊆ actors) :
    preorder children unlisted depth siblings = preorder children' unlisted depth siblings := by
  fun_induction preorder children unlisted depth siblings with
  | case1 => rw [preorder_nil]
  | case2 unlisted depth actor siblings hmem below ih ihsiblings =>
      have hrest : unlisted.erase actor ⊆ actors :=
        fun a ha => hsub (List.mem_of_mem_erase ha)
      have hbelow : below
          = preorder children' (unlisted.erase actor) (depth + 1) (children' actor) :=
        (ih (h.erase actor) hrest).trans
          (hsame actor (hsub hmem) _ _ (h.erase actor) hrest)
      have hleft : unlistedIn (unlisted.erase actor) below ⊆ actors :=
        fun a ha => hrest (mem_unlistedIn.1 ha).1
      rw [ihsiblings (nodup_unlistedIn (h.erase actor)) hleft, preorder_cons_of_mem hmem, hbelow]
  | case3 unlisted depth actor siblings hmem ih =>
      rw [ih h hsub, preorder_cons_of_not_mem hmem]

/-- The last entry above a level is for a parent of `actor`, just one level up: only entries that are
no higher than `level` come after it. -/
def UnderParent (children : ElementId → List ElementId) (before : List (ElementId × Nat))
    (actor : ElementId) (level : Nat) : Prop :=
  ∃ outer parent above between, before = outer ++ (parent, above) :: between ∧
    level = above + 1 ∧ actor ∈ children parent ∧ ∀ e ∈ between, level ≤ e.2

theorem UnderParent.append_left {before : List (ElementId × Nat)} {level : Nat}
    (h : UnderParent children before actor level) (earlier : List (ElementId × Nat)) :
    UnderParent children (earlier ++ before) actor level := by
  obtain ⟨outer, parent, above, between, rfl, hrest⟩ := h
  exact ⟨earlier ++ outer, parent, above, between, (List.append_assoc _ _ _).symm, hrest⟩

/-- What is listed is one of the siblings, at their level, or stands under one of its parents. -/
theorem underParent_of_preorder {level : Nat} : ∀ before after : List (ElementId × Nat),
    preorder children unlisted depth siblings = before ++ (actor, level) :: after →
      level = depth ∧ actor ∈ siblings ∨ UnderParent children before actor level := by
  fun_induction preorder children unlisted depth siblings with
  | case1 => simp
  | case2 unlisted depth first siblings hmem below ih ihsiblings =>
      intro before after h
      have hsibling : ∀ {before' : List (ElementId × Nat)},
          level = depth ∧ actor ∈ siblings ∨ UnderParent children before' actor level →
          level = depth ∧ actor ∈ first :: siblings ∨
            UnderParent children ((first, depth) :: below ++ before') actor level :=
        Or.imp (fun h => ⟨h.1, List.mem_cons_of_mem _ h.2⟩) fun h => h.append_left _
      -- The entry stands among the later siblings, or in what is listed of the first one.
      rcases List.append_eq_append_iff.1 h with ⟨rest, rfl, hrest⟩ | ⟨rest, hrest, htail⟩
      · exact hsibling (ihsiblings _ _ hrest)
      · cases rest with
        | nil =>
            have hlater := hsibling (ihsiblings [] _ (htail.symm.trans (List.nil_append _).symm))
            rwa [List.append_nil, hrest, List.append_nil] at hlater
        | cons entry rest =>
            obtain ⟨rfl, -⟩ := List.cons.inj htail
            cases before with
            | nil =>
                obtain ⟨heq, -⟩ := List.cons.inj hrest
                obtain ⟨rfl, rfl⟩ := Prod.mk.inj heq
                exact .inl ⟨rfl, List.mem_cons_self⟩
            | cons entry before =>
                obtain ⟨rfl, hbelow⟩ := List.cons.inj hrest
                refine .inr ?_
                rcases ih _ _ hbelow with ⟨hlevel, hchild⟩ | hunder
                · refine ⟨[], first, depth, before, rfl, hlevel, hchild, fun e he => ?_⟩
                  have hlisted : e ∈ below := hbelow ▸ List.mem_append_left _ he
                  exact hlevel ▸ le_depth_of_mem_preorder hlisted
                · exact hunder.append_left [(first, depth)]
  | case3 unlisted depth first siblings hmem ih =>
      intro before after h
      exact (ih before after h).imp_left fun h => ⟨h.1, List.mem_cons_of_mem _ h.2⟩

end Laws

/-! ### The stack -/

section Stack

variable {edges : List (ElementId × ElementId)} {remaining : List ElementId}

theorem visitActors_cons_of_mem {actor : ElementId} (h : actor ∈ remaining) (depth : Nat)
    (stack : List (ElementId × Nat)) :
    visitActors edges remaining ((actor, depth) :: stack)
      = (actor, depth) :: visitActors edges (remaining.erase actor)
          (((childrenIn edges actor).filter (· ∈ remaining.erase actor)).map (·, depth + 1) ++
            stack) := by
  rw [visitActors, dif_pos h]

theorem visitActors_cons_of_not_mem {actor : ElementId} (h : actor ∉ remaining) (depth : Nat)
    (stack : List (ElementId × Nat)) :
    visitActors edges remaining ((actor, depth) :: stack)
      = visitActors edges remaining stack := by
  rw [visitActors, dif_neg h]

/-- What is not remaining can be left out of a stack. -/
theorem visitActors_filter {keep : ElementId → Bool} (h : ∀ a ∈ remaining, keep a)
    (stack : List (ElementId × Nat)) :
    visitActors edges remaining (stack.filter fun e => keep e.1)
      = visitActors edges remaining stack := by
  induction remaining, stack using visitActors.induct edges with
  | case1 => rfl
  | case2 remaining actor depth stack hmem rest children ih =>
      have hrest : ∀ a ∈ rest, keep a := fun a ha => h a (List.mem_of_mem_erase ha)
      have hchildren : (children.map (·, depth + 1)).filter (fun e => keep e.1)
          = children.map (·, depth + 1) := by
        refine List.filter_eq_self.2 fun e he => ?_
        obtain ⟨a, ha, rfl⟩ := List.mem_map.1 he
        exact hrest a (of_decide_eq_true (List.mem_filter.1 ha).2)
      have hstack := ih hrest
      rw [List.filter_append, hchildren] at hstack
      rw [List.filter_cons_of_pos (by exact h actor hmem), visitActors_cons_of_mem hmem,
        visitActors_cons_of_mem hmem, hstack]
  | case3 remaining actor depth stack hmem ih =>
      rw [visitActors_cons_of_not_mem hmem, ← ih h]
      by_cases hkeep : keep actor
      · rw [List.filter_cons_of_pos (by exact hkeep), visitActors_cons_of_not_mem hmem]
      · rw [List.filter_cons_of_neg (by exact hkeep)]

/-- **Siblings on top of a stack** are worked off as their traversal; then comes what was below them,
as far as it is still unlisted. -/
theorem visitActors_append (h : remaining.Nodup) (depth : Nat) (siblings : List ElementId)
    (stack : List (ElementId × Nat)) :
    visitActors edges remaining (siblings.map (·, depth) ++ stack)
      = preorder (childrenIn edges) remaining depth siblings ++
        visitActors edges (unlistedIn remaining
          (preorder (childrenIn edges) remaining depth siblings)) stack := by
  induction remaining, depth, siblings using preorder.induct (childrenIn edges)
    generalizing stack with
  | case1 => rw [preorder_nil, unlistedIn_nil, List.map_nil, List.nil_append, List.nil_append]
  | case2 remaining depth actor siblings hmem below ih ihsiblings =>
      -- The stack has only those children that remain; that makes no difference.
      have hchildren : visitActors edges (remaining.erase actor)
          (((childrenIn edges actor).filter (· ∈ remaining.erase actor)).map (·, depth + 1) ++
            (siblings.map (·, depth) ++ stack))
          = visitActors edges (remaining.erase actor)
            ((childrenIn edges actor).map (·, depth + 1) ++ (siblings.map (·, depth) ++ stack)) := by
        have hremaining : ∀ a ∈ remaining.erase actor,
            (fun a => decide (a ∈ remaining.erase actor)) a := fun a ha => decide_eq_true ha
        rw [← visitActors_filter hremaining, ← visitActors_filter hremaining
          ((childrenIn edges actor).map _ ++ _)]
        simp only [List.filter_append, List.filter_map, List.filter_filter, Function.comp_def,
          Bool.and_self]
      rw [List.map_cons, List.cons_append, visitActors_cons_of_mem hmem, hchildren,
        ih (h.erase actor), ihsiblings (nodup_unlistedIn (h.erase actor)),
        preorder_cons_of_mem hmem, List.cons_append, unlistedIn_cons h, unlistedIn_append,
        List.cons_append, List.append_assoc]
  | case3 remaining depth actor siblings hmem ih =>
      rw [List.map_cons, List.cons_append, visitActors_cons_of_not_mem hmem, ih h,
        preorder_cons_of_not_mem hmem]

/-- Without edges, everything on top of the stack is listed as it stands there. -/
theorem visitActors_flat (depth : Nat) (stack : List (ElementId × Nat)) :
    visitActors [] remaining (remaining.map (·, depth) ++ stack) = remaining.map (·, depth) := by
  induction remaining with
  | nil =>
      refine List.eq_nil_iff_forall_not_mem.2 fun e he => ?_
      exact absurd (mem_of_mem_visitActors (List.mem_map_of_mem he)) List.not_mem_nil
  | cons actor rest ih =>
      rw [List.map_cons, List.cons_append, visitActors_cons_of_mem List.mem_cons_self,
        List.erase_cons_head]
      exact congrArg _ ih

end Stack

/-! ### The order of actors -/

section Order

variable (actors : List ElementId) (blueprints : List Blueprint)

/-- The children of an actor are its listed subordinates, some of them more than once. -/
theorem childrenIn_actorEdges {actor : ElementId} (h : actor ∈ actors) :
    childrenIn (actorEdges actors blueprints) actor
      = ((blueprints.filter fun b => b.kind = .generalization ∧ b.target = actor).map
          Blueprint.source).filter (· ∈ actors) := by
  induction blueprints with
  | nil => rfl
  | cons b rest ih =>
      simp only [childrenIn, actorEdges] at ih ⊢
      by_cases hkind : b.kind = .generalization <;> by_cases hsource : b.source ∈ actors <;>
        by_cases htarget : b.target = actor <;> by_cases hlisted : b.target ∈ actors <;>
          simp_all

theorem preorder_childrenIn (h : actors.Nodup) (depth : Nat) (siblings : List ElementId) :
    preorder (childrenIn (actorEdges actors blueprints)) actors depth siblings
      = preorder (subordinates blueprints) actors depth siblings := by
  refine preorder_congr ?_ h (List.Subset.refl _)
  intro actor hactor unlisted depth hunlisted hsub
  rw [childrenIn_actorEdges actors blueprints hactor, preorder_filter, subordinates,
    preorder_eraseDups hunlisted]
  exact fun a ha => decide_eq_true (hsub ha)

theorem mem_actorEdges_snd {actor : ElementId} (h : actor ∈ actors) :
    actor ∈ (actorEdges actors blueprints).map Prod.snd ↔ hasParent actors blueprints actor := by
  simp only [actorEdges, hasParent, List.mem_map, List.mem_filterMap, List.any_eq_true,
    decide_eq_true_eq]
  constructor
  · rintro ⟨e, ⟨b, hb, he⟩, rfl⟩
    split at he
    · next hedge =>
        obtain rfl := Option.some.inj he
        exact ⟨b, hb, hedge.1, rfl, hedge.2.2⟩
    · cases he
  · rintro ⟨b, hb, hkind, rfl, htarget⟩
    exact ⟨(b.target, b.source), ⟨b, hb, if_pos ⟨hkind, h, htarget⟩⟩, rfl⟩

theorem hasParent_eraseDups :
    hasParent actors.eraseDups blueprints = hasParent actors blueprints := by
  funext actor
  simp only [hasParent, List.mem_eraseDups]

/-- The stack of the order of actors holds the actors without a parent on top of all of them. -/
theorem orderActors_eq_preorder :
    orderActors actors blueprints
      = preorder (subordinates blueprints) actors.eraseDups 0
          (actors.eraseDups.filter (!hasParent actors blueprints ·) ++ actors.eraseDups) := by
  have hroots : (actors.eraseDups.filter fun actor =>
        actor ∉ (actorEdges actors.eraseDups blueprints).map Prod.snd)
      = actors.eraseDups.filter (!hasParent actors blueprints ·) := by
    refine List.filter_congr fun actor hactor => ?_
    rw [Bool.eq_iff_iff, decide_eq_true_eq, mem_actorEdges_snd _ _ hactor, hasParent_eraseDups,
      Bool.not_eq_true', Bool.not_eq_true]
  let edges := actorEdges actors.eraseDups blueprints
  have hstack : visitActors edges actors.eraseDups
      ((actors.eraseDups.filter (!hasParent actors blueprints ·) ++ actors.eraseDups).map (·, 0)
        ++ []) = _ :=
    visitActors_append (nodup_eraseDups actors) 0 _ []
  rw [List.append_nil, visitActors, List.append_nil] at hstack
  rw [orderActors, hroots, hstack, preorder_childrenIn _ _ (nodup_eraseDups actors)]

/-- After the actors without a parent only the others can be left. -/
theorem preorder_roots_append :
    preorder (subordinates blueprints) actors.eraseDups 0
        (actors.eraseDups.filter (!hasParent actors blueprints ·) ++ actors.eraseDups)
      = hierarchy actors blueprints := by
  have hnodup := nodup_eraseDups actors
  rw [hierarchy, List.partition_eq_filter_filter]
  change _ = preorder (subordinates blueprints) actors.eraseDups 0
    (actors.eraseDups.filter (!hasParent actors blueprints ·) ++
      actors.eraseDups.filter (hasParent actors blueprints ·))
  rw [preorder_append hnodup, preorder_append hnodup]
  refine congrArg _ (preorder_filter ?_).symm
  intro actor hactor
  obtain ⟨hlisted, hunlisted⟩ := mem_unlistedIn.1 hactor
  by_contra hroot
  refine hunlisted (mem_preorder (List.mem_filter.2 ⟨hlisted, ?_⟩) hlisted)
  rwa [Bool.not_eq_true', ← Bool.not_eq_true]

/-- Without generalizations, actors stand in the order of the list. -/
theorem orderActors_of_flat (h : ∀ b ∈ blueprints, b.kind ≠ .generalization) :
    orderActors actors blueprints = actors.eraseDups.map (·, 0) := by
  have hedges : actorEdges actors.eraseDups blueprints = [] :=
    List.filterMap_eq_nil_iff.2 fun b hb => if_neg fun hedge => h b hb hedge.1
  have hroots : (actors.eraseDups.filter fun actor => actor ∉ ([] : List ElementId))
      = actors.eraseDups :=
    List.filter_eq_self.2 fun _ _ => decide_eq_true List.not_mem_nil
  simp only [orderActors, hedges, List.map_nil, hroots, List.map_append]
  exact visitActors_flat 0 _

theorem mem_subordinates {actor parent : ElementId} :
    actor ∈ subordinates blueprints parent ↔
      ∃ b ∈ blueprints, b.kind = .generalization ∧ b.source = actor ∧ b.target = parent := by
  simp only [subordinates, List.mem_eraseDups, List.mem_map, List.mem_filter, decide_eq_true_eq]
  constructor
  · rintro ⟨b, ⟨hb, hkind, htarget⟩, hsource⟩
    exact ⟨b, hb, hkind, hsource, htarget⟩
  · rintro ⟨b, hb, hkind, hsource, htarget⟩
    exact ⟨b, ⟨hb, hkind, htarget⟩, hsource⟩

/-- **The order of actors is the pre-order of their hierarchy.** It lists every actor once, and an
entry below the first level stands under one of its parents. -/
theorem orderActors_eq_hierarchy :
    orderActors actors blueprints = hierarchy actors blueprints ∧
    ((orderActors actors blueprints).map Prod.fst).Perm actors.eraseDups ∧
    ∀ before actor depth after,
      orderActors actors blueprints = before ++ (actor, depth + 1) :: after →
      ∃ outer parent between, before = outer ++ (parent, depth) :: between ∧
        (∃ b ∈ blueprints, b.kind = .generalization ∧ b.source = actor ∧ b.target = parent) ∧
        ∀ e ∈ between, depth + 1 ≤ e.2 := by
  refine ⟨(orderActors_eq_preorder actors blueprints).trans
    (preorder_roots_append actors blueprints), orderActors_perm actors blueprints, ?_⟩
  intro before actor depth after h
  rw [orderActors_eq_preorder] at h
  rcases underParent_of_preorder _ _ h with ⟨hdepth, -⟩ | hunder
  · exact absurd hdepth (Nat.succ_ne_zero depth)
  · obtain ⟨outer, parent, above, between, hbefore, habove, hchild, hbetween⟩ := hunder
    obtain rfl : above = depth := (Nat.succ.inj habove).symm
    exact ⟨outer, parent, between, hbefore, (mem_subordinates blueprints).1 hchild, hbetween⟩

/-- The second and the third of four actors are below each other, and both are below the first. The
third is listed under the second, through which it is reached first. -/
theorem orderActors_cycle_below :
    let generalization (source target : Nat) : Blueprint :=
      { kind := .generalization, source := ⟨source⟩, target := ⟨target⟩ }
    let actors : List ElementId := [⟨1⟩, ⟨2⟩, ⟨3⟩, ⟨4⟩, ⟨2⟩]
    let blueprints := [generalization 2 1, generalization 3 2, generalization 2 3,
      generalization 2 1, generalization 3 1, generalization 5 4]
    hierarchy actors blueprints = [(⟨1⟩, 0), (⟨2⟩, 1), (⟨3⟩, 2), (⟨4⟩, 0)] ∧
    ∃ outer parent between,
      ([(⟨1⟩, 0), (⟨2⟩, 1)] : List (ElementId × Nat)) = outer ++ (parent, 1) :: between ∧
        (∃ b ∈ blueprints, b.kind = .generalization ∧ b.source = ⟨3⟩ ∧ b.target = parent) ∧
        ∀ e ∈ between, 1 + 1 ≤ e.2 := by
  intro generalization actors blueprints
  have horder : orderActors actors blueprints
      = [(⟨1⟩, 0), (⟨2⟩, 1)] ++ (⟨3⟩, 1 + 1) :: [(⟨4⟩, 0)] := by
    simp [actors, blueprints, generalization, orderActors, actorEdges, visitActors, childrenIn,
      List.eraseDups_cons]
  obtain ⟨heq, -, hunder⟩ := orderActors_eq_hierarchy actors blueprints
  exact ⟨heq.symm.trans horder, hunder _ _ _ _ horder⟩

end Order

end UmlText
