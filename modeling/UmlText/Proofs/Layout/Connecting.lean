import Mathlib.Algebra.BigOperators.Group.Finset.Basic
import UmlText.Proofs.Layout.Banding

/-!
# UmlText.Proofs.Layout.Connecting

**The height of a shared use case comes from the actors it is bucketed by.** The actors of a use
case are found in two ways. To sort use cases into buckets, a table is filled for all use cases at
once, with both ends of every blueprint; to find the height of a shared one, the blueprints are
searched again for what it is connected to, listed or not. One blueprint more adds the same to both
(`connectedActors_concat`, `actorsOf_concat`), so the listed actors in one list are those in the
other (`filter_connectedActors`). Only listed actors have a center, so the mean is over exactly
those actors of the use case that have a view, each once (`meanHeight?_eq`).
-/

namespace UmlText

universe u

open BackedStore (workspace)
open Placement (Awaiting Running)

/-! ### What a use case is connected to -/

/-- The end of a blueprint that a use case at the other end is related to. -/
def Blueprint.otherEnd? (b : Blueprint) (useCase : ElementId) : Option ElementId :=
  if b.source = useCase then some b.target
  else if b.target = useCase then some b.source
  else none

theorem Blueprint.otherEnd?_eq_some_iff {b : Blueprint} {useCase actor : ElementId} :
    b.otherEnd? useCase = some actor ↔ b.connects actor useCase := by
  simp only [otherEnd?, connects, Bool.or_eq_true, Bool.and_eq_true, decide_eq_true_eq]
  grind

theorem mem_connectedActors_iff {blueprints : List Blueprint} {actor useCase : ElementId} :
    actor ∈ connectedActors useCase blueprints ↔ Linked blueprints actor useCase := by
  refine ⟨fun h => ?_, UseCases.mem_connectedActors⟩
  obtain ⟨b, hb, hend⟩ := List.mem_filterMap.1 (List.mem_eraseDups.1 h)
  exact ⟨b, hb, Blueprint.otherEnd?_eq_some_iff.1 hend⟩

theorem nodup_connectedActors (useCase : ElementId) (blueprints : List Blueprint) :
    (connectedActors useCase blueprints).Nodup :=
  nodup_eraseDups _

/-- Adds an actor behind the others, if it is new. -/
def addNew (known : List ElementId) (actor : ElementId) : List ElementId :=
  if actor ∈ known then known else known ++ [actor]

theorem addNew_addNew (known : List ElementId) (actor : ElementId) :
    addNew (addNew known actor) actor = addNew known actor := by
  by_cases h : actor ∈ known <;> simp [addNew, h]

/-- One blueprint more connects a use case to its other end. -/
theorem connectedActors_concat (useCase : ElementId) (blueprints : List Blueprint)
    (b : Blueprint) : connectedActors useCase (blueprints ++ [b])
      = (b.otherEnd? useCase).elim (connectedActors useCase blueprints)
          (addNew (connectedActors useCase blueprints)) := by
  have hone : [b].filterMap (fun b : Blueprint => b.otherEnd? useCase)
      = (b.otherEnd? useCase).toList := by
    cases h : b.otherEnd? useCase <;> simp [h]
  change ((blueprints ++ [b]).filterMap fun b : Blueprint => b.otherEnd? useCase).eraseDups
    = (b.otherEnd? useCase).elim (blueprints.filterMap fun b => b.otherEnd? useCase).eraseDups
      (addNew (blueprints.filterMap fun b => b.otherEnd? useCase).eraseDups)
  rw [List.filterMap_append, hone]
  cases b.otherEnd? useCase with
  | none => simp
  | some actor =>
      simp only [Option.toList_some, eraseDups_concat, Option.elim_some, addNew,
        List.mem_eraseDups]

section Listed

variable {actors useCases : List ElementId} {u : ElementId}

/-- A pair adds its actor to those of its use case, if both are listed. -/
theorem get?_linkListed {links : OrderedMap ElementId (List ElementId)}
    {actor useCase : ElementId} :
    ((linkListed actors useCases links actor useCase).get? u).getD []
      = if useCase = u ∧ actor ∈ actors ∧ u ∈ useCases then
          addNew ((links.get? u).getD []) actor
        else (links.get? u).getD [] := by
  rw [linkListed, addNew]
  split
  · rw [get?_linkActor]
    grind
  · grind

/-- One blueprint more adds its other end to the actors of a listed use case, if that is listed too.
A blueprint from the use case to itself is read in both directions but adds one actor. -/
theorem actorsOf_concat (hu : u ∈ useCases) (blueprints : List Blueprint) (b : Blueprint) :
    actorsOf actors useCases (blueprints ++ [b]) u
      = ((b.otherEnd? u).filter (· ∈ actors)).elim (actorsOf actors useCases blueprints u)
          (addNew (actorsOf actors useCases blueprints u)) := by
  have hlinks : linkedActors actors useCases (blueprints ++ [b])
      = linkListed actors useCases (linkListed actors useCases
          (linkedActors actors useCases blueprints) b.source b.target) b.target b.source :=
    List.foldl_append
  have hknown : ((linkedActors actors useCases blueprints).get? u).getD []
      = actorsOf actors useCases blueprints u := rfl
  rw [actorsOf, hlinks, get?_linkListed, get?_linkListed, hknown, Blueprint.otherEnd?]
  simp only [hu, and_true]
  by_cases hsource : b.source = u <;> by_cases htarget : b.target = u
  · by_cases hmem : u ∈ actors <;>
      simp [hsource, htarget, hmem, addNew_addNew, Option.filter_some]
  · by_cases hmem : b.target ∈ actors <;> simp [hsource, htarget, hmem, Option.filter_some]
  · by_cases hmem : b.source ∈ actors <;> simp [hsource, htarget, hmem, Option.filter_some]
  · simp [hsource, htarget]

/-- **The listed actors a use case is connected to are those it is bucketed by**, in the same
order. -/
theorem filter_connectedActors (hu : u ∈ useCases) (blueprints : List Blueprint) :
    (connectedActors u blueprints).filter (· ∈ actors)
      = actorsOf actors useCases blueprints u := by
  induction blueprints using List.reverseRecOn with
  | nil => rfl
  | append_singleton bs b ih =>
      rw [connectedActors_concat, actorsOf_concat hu, ← ih]
      cases b.otherEnd? u with
      | none => rfl
      | some actor =>
          by_cases hlisted : actor ∈ actors <;> by_cases hknown : actor ∈ connectedActors u bs <;>
            simp [addNew, hlisted, hknown, Option.filter_some]

end Listed

/-- The listed actors among what a use case is connected to. -/
def listedActors (actors : List ElementId) (blueprints : List Blueprint) (useCase : ElementId) :
    List ElementId :=
  (connectedActors useCase blueprints).filter (· ∈ actors)

/-- What a use case is connected to agrees with the bucket it is in. -/
structure ConnectedAsBucketed (actors useCases : List ElementId) (blueprints : List Blueprint)
    (useCase : ElementId) : Prop where
  nodup : (listedActors actors blueprints useCase).Nodup
  mem_iff : ∀ a, a ∈ listedActors actors blueprints useCase
    ↔ a ∈ actors ∧ Linked blueprints a useCase
  /-- The actors are those that the buckets are filled by. -/
  actors_eq : listedActors actors blueprints useCase
    = ((linkedActors actors useCases blueprints).get? useCase).getD []
  orphan_iff : useCase ∈ (bucketUseCases actors useCases blueprints).orphans
    ↔ listedActors actors blueprints useCase = []
  exclusive_iff : ∀ a, useCase ∈ (bucketUseCases actors useCases blueprints).exclusiveOf a
    ↔ listedActors actors blueprints useCase = [a]
  shared_iff : useCase ∈ (bucketUseCases actors useCases blueprints).shared
    ↔ 2 ≤ (listedActors actors blueprints useCase).length

theorem connectedAsBucketed {actors useCases : List ElementId} (blueprints : List Blueprint)
    {useCase : ElementId} (h : useCase ∈ useCases) :
    ConnectedAsBucketed actors useCases blueprints useCase := by
  have hlisted : listedActors actors blueprints useCase
      = actorsOf actors useCases blueprints useCase := filter_connectedActors h blueprints
  refine {
    nodup := (nodup_connectedActors useCase blueprints).filter _
    mem_iff := fun a => ?_
    actors_eq := hlisted
    orphan_iff := ?_
    exclusive_iff := fun a => ?_
    shared_iff := ?_ }
  · rw [hlisted, mem_actorsOf]
    exact ⟨fun ha => ⟨ha.1.1, ha.2⟩, fun ha => ⟨⟨ha.1, h⟩, ha.2⟩⟩
  · rw [hlisted, orphans_bucketUseCases, List.mem_filter, decide_eq_true_eq]
    exact and_iff_right h
  · rw [hlisted, exclusiveOf_bucketUseCases, List.mem_filter, decide_eq_true_eq]
    exact and_iff_right h
  · rw [hlisted, shared_bucketUseCases, List.mem_filter, decide_eq_true_eq]
    exact and_iff_right h

namespace UseCases

variable {σ : Type u} [ModelStore σ] [ViewStore σ]

/-! ### The stages of a use case diagram -/

/-- The column of actors with the blocks of their use cases. -/
def actorColumn (p : Placement σ) (roots : List ElementId) (blueprints : List Blueprint)
    (s : UseCaseSettings) : ActorColumn σ :=
  let actors := ofKind p roots (· = .actor)
  let useCases := ofKind p roots (· = .useCase)
  (orderActors actors blueprints).foldl (placeActor s (bucketUseCases actors useCases blueprints))
    { placement := p, y := s.originY }

/-- The run after some shared use cases, with the height of the last one. -/
def sharedRun (p : Placement σ) (roots : List ElementId) (blueprints : List Blueprint)
    (s : UseCaseSettings) (shared : List ElementId) : Placement σ × Int :=
  let column := actorColumn p roots blueprints s
  shared.zipIdx.foldl (placeShared s blueprints column.centers (sharedX s column.right))
    (column.placement, s.originY)

/-- The run after all shared use cases, and the rest in rows. -/
def rowsAfter (p : Placement σ) (roots : List ElementId) (blueprints : List Blueprint)
    (s : UseCaseSettings) : Placement σ :=
  let buckets := bucketUseCases (ofKind p roots (· = .actor)) (ofKind p roots (· = .useCase))
    blueprints
  let others := ofKind p roots fun kind => !kind.isParticipant && kind ≠ .package
  let shared := sharedRun p roots blueprints s buckets.shared
  let y := max (actorColumn p roots blueprints s).y (shared.2 + s.rowSpacing)
  ((buckets.orphans ++ others).foldl (placeWrapped s) (shared.1, ⟨s.originX, y⟩)).1

/-- The height of the center of an actor, if it has a view. -/
def center? (s : UseCaseSettings) (p : Placement σ) (actor : ElementId) : Option Int :=
  ((p.viewOf? actor).bind p.boundsOf?).map fun bounds => bounds.minY + s.actorCenterOffset

omit [ModelStore σ] [ViewStore σ] in
/-- The listed actors that are linked to a use case and have a view. -/
def placedActors (p : Placement σ) (actors : List ElementId) (blueprints : List Blueprint)
    (useCase : ElementId) : Finset ElementId :=
  actors.toFinset.filter fun a => Linked blueprints a useCase ∧ (p.viewOf? a).isSome

/-- The height that a shared use case starts from: the mean height of its actors, or that of the use
case before if none of them has a view. -/
def startHeight (s : UseCaseSettings) (p : Placement σ) (actors : List ElementId)
    (blueprints : List Blueprint) (useCase : ElementId) (previous : Int) : Int :=
  let placed := placedActors p actors blueprints useCase
  if placed = ∅ then previous
  else (∑ a ∈ placed, (center? s p a).getD 0).tdiv placed.card

/-! ### Centers -/

section Centers

variable [BackedStore σ] {start : Workspace} {p : Placement σ} {roots : List ElementId}
  {blueprints : List Blueprint} {s : UseCaseSettings}

theorem isSome_center?_iff (h : Running start p) {actor : ElementId} :
    (center? s p actor).isSome ↔ (p.viewOf? actor).isSome := by
  constructor
  · intro hcenter
    rw [center?, Option.isSome_map] at hcenter
    exact Option.isSome_of_isSome_bind hcenter
  · intro hview
    obtain ⟨e, he, rfl⟩ := h.viewOf?_isSome.1 hview
    rw [center?, h.viewOf?_element he, Option.bind_some, Placement.boundsOf?_eq he]
    rfl

/-- An actor with a view has its center where the column has put it. -/
theorem center?_of_mem_actorTops {buckets : UseCaseBuckets} {ordered : List (ElementId × Nat)}
    {y : Int} {top : (ElementId × Nat) × Int}
    (h : Awaiting start p ((columnSpots s start buckets y ordered).map Spot.element))
    (htop : top ∈ actorTops s buckets y ordered)
    (hview : ((p.placeSpots (columnSpots s start buckets y ordered)).viewOf? top.1.1).isSome) :
    center? s (p.placeSpots (columnSpots s start buckets y ordered)) top.1.1
      = some (top.2 + s.actorCenterOffset) := by
  let spots := columnSpots s start buckets y ordered
  have hrunning : Running start (p.placeSpots spots) :=
    (h.tries (Placement.tries_placeSpots p spots)).1
  obtain ⟨e, he, helement⟩ := hrunning.viewOf?_isSome.1 hview
  have hspot : actorSpot s top ∈ spots := List.mem_flatMap.2 ⟨top, htop, List.mem_cons_self⟩
  obtain ⟨spot, hmem, hfill⟩ : ∃ spot ∈ spots, Fills start e spot := by
    refine (h.fills_of_mem he).resolve_left fun hearlier => ?_
    refine (List.nodup_append.1 h.nodup).2.2 e.element ?_ e.element ?_ rfl
    · rw [← h.running.map_element]
      exact List.mem_map_of_mem hearlier
    · rw [helement]
      exact List.mem_map_of_mem hspot
  -- No other spot is for the actor.
  obtain rfl : spot = actorSpot s top :=
    List.inj_on_of_nodup_map (List.nodup_append.1 h.nodup).2.1 hmem hspot
      (hfill.element_eq.symm.trans helement)
  have hy : e.position.y = top.2 := congrArg Point.y hfill.position_eq
  rw [center?, ← helement, hrunning.viewOf?_element he, Option.bind_some,
    Placement.boundsOf?_eq he, Option.map_some]
  exact congrArg (fun y => some (y + s.actorCenterOffset)) hy

/-- The column is placed at its spots, and has the centers of those actors that got a view. -/
theorem actorColumn_eq (h : Awaiting start p (Scene.of start roots blueprints).elements) :
    let scene := Scene.of start roots blueprints
    let placed := p.placeSpots (columnSpots s start scene.buckets s.originY scene.ordered)
    (actorColumn p roots blueprints s).placement = placed ∧
      (actorColumn p roots blueprints s).centers
        = ({} : OrderedMap ElementId Int).fill (centersOf s placed (scene.actorTops s)) ∧
      Running start placed := by
  intro scene placed
  have hkinds : ∀ kind, ofKind p roots (· = kind)
      = roots.filter fun e => (start.kind? e).any (· = kind) :=
    fun kind => by simp only [ofKind, h.running.kind?_eq]
  have hcolumn : actorColumn p roots blueprints s
      = scene.ordered.foldl (placeActor s scene.buckets) { placement := p, y := s.originY } := by
    simp only [actorColumn, hkinds]
    rfl
  let column : ActorColumn σ := { placement := p, y := s.originY }
  have hactors : Awaiting start column.placement
      (scene.ordered.flatMap fun o => o.1 :: scene.buckets.exclusiveOf o.1) :=
    h.of_append.of_append
  obtain ⟨hplacement, -, hcenters, -⟩ := foldl_placeActor (s := s) hactors
  rw [← map_element_columnSpots s start scene.buckets s.originY] at hactors
  rw [hcolumn]
  exact ⟨hplacement, hcenters, (hactors.tries (Placement.tries_placeSpots p _)).1⟩

/-- **Only listed actors with a view have a center.** -/
theorem get?_centers_actorColumn (h : Awaiting start p (Scene.of start roots blueprints).elements)
    (a : ElementId) :
    (actorColumn p roots blueprints s).centers.get? a
      = if a ∈ (Scene.of start roots blueprints).actors then
          center? s (actorColumn p roots blueprints s).placement a
        else none := by
  let scene := Scene.of start roots blueprints
  let spots := columnSpots s start scene.buckets s.originY scene.ordered
  let centers := centersOf s (p.placeSpots spots) (scene.actorTops s)
  obtain ⟨hplacement, hcenters, -⟩ := actorColumn_eq (s := s) h
  have hsub : (centers.map Prod.fst).Sublist (scene.ordered.map Prod.fst) := by
    rw [← Scene.keys_actorTops (s := s)]
    exact (List.filter_sublist.map _).map _
  have hnodup : (centers.map Prod.fst).Nodup := Scene.nodup_ordered.sublist hsub
  have hentries : (({} : OrderedMap ElementId Int).fill centers).entries = centers :=
    OrderedMap.entries_fill hnodup
  have hspots : Awaiting start p (spots.map Spot.element) := by
    rw [map_element_columnSpots]
    exact h.of_append.of_append
  rw [hcenters, hplacement]
  by_cases hview : a ∈ scene.actors ∧ ((p.placeSpots spots).viewOf? a).isSome
  · obtain ⟨top, htop, rfl⟩ := Scene.exists_actorTop (s := s) hview.1
    rw [if_pos hview.1, center?_of_mem_actorTops hspots htop hview.2]
    refine OrderedMap.get?_of_mem (by rwa [OrderedMap.keys, hentries]) ?_
    rw [hentries]
    exact List.mem_map.2 ⟨top, List.mem_filter.2 ⟨htop, hview.2⟩, rfl⟩
  · -- What is no actor, or has no view, is in the table of centers as little as in the run.
    have hnone : (if a ∈ scene.actors then center? s (p.placeSpots spots) a else none) = none := by
      split
      · next hactor =>
          rw [center?, Option.not_isSome_iff_eq_none.1 fun hsome => hview ⟨hactor, hsome⟩]
          rfl
      · rfl
    rw [hnone, OrderedMap.get?_eq_none_iff, OrderedMap.keys, hentries]
    intro hmem
    obtain ⟨_, hcenter, rfl⟩ := List.mem_map.1 hmem
    obtain ⟨top, htop, rfl⟩ := List.mem_map.1 hcenter
    obtain ⟨htop, hsome⟩ := List.mem_filter.1 htop
    exact hview ⟨Scene.mem_actors htop, hsome⟩

/-! ### Mean heights -/

/-- The mean of what some members of a list have is that over the set of those members. -/
theorem mean?_filterMap {α : Type} [DecidableEq α] {l : List α} (h : l.Nodup)
    {f : α → Option Int} {placed : Finset α} (hplaced : ∀ a, a ∈ placed ↔ a ∈ l ∧ (f a).isSome) :
    mean? (l.filterMap f)
      = if placed = ∅ then none
        else some ((∑ a ∈ placed, (f a).getD 0).tdiv placed.card) := by
  have hvalues : l.filterMap f = (l.filter fun a => (f a).isSome).map fun a => (f a).getD 0 := by
    clear h hplaced
    induction l with
    | nil => rfl
    | cons a rest ih => cases hfa : f a <;> simp [hfa, ih]
  have hnodup := h.filter fun a => (f a).isSome
  obtain rfl : (l.filter fun a => (f a).isSome).toFinset = placed := by
    ext a
    rw [hplaced, List.mem_toFinset, List.mem_filter]
  rw [hvalues, mean?, List.length_map, List.toFinset_card_of_nodup hnodup,
    List.sum_toFinset _ hnodup, ← List.sum_eq_foldl]
  refine if_congr ?_ rfl rfl
  rw [List.isEmpty_iff, List.map_eq_nil_iff, List.toFinset_eq_empty_iff]

/-- **The mean height is over the actors of the use case that have a view**, each once. -/
theorem meanHeight?_eq (h : Awaiting start p (Scene.of start roots blueprints).elements)
    (useCase : ElementId) (previous : Int) :
    (meanHeight? blueprints (actorColumn p roots blueprints s).centers.get? useCase).getD previous
      = startHeight s (actorColumn p roots blueprints s).placement
          (Scene.of start roots blueprints).actors blueprints useCase previous := by
  let column := actorColumn p roots blueprints s
  let actors := (Scene.of start roots blueprints).actors
  have hrunning : Running start column.placement := by
    obtain ⟨hplacement, -, hrunning⟩ := actorColumn_eq (s := s) h
    exact hplacement ▸ hrunning
  have hcenters : ∀ a, column.centers.get? a
      = if a ∈ actors then center? s column.placement a else none :=
    get?_centers_actorColumn h
  have hplaced : ∀ a, a ∈ placedActors column.placement actors blueprints useCase
      ↔ a ∈ connectedActors useCase blueprints ∧ (column.centers.get? a).isSome := by
    intro a
    rw [placedActors, Finset.mem_filter, List.mem_toFinset, mem_connectedActors_iff, hcenters,
      ← isSome_center?_iff (s := s) hrunning]
    by_cases ha : a ∈ actors <;> simp [ha]
  have hsum : ∑ a ∈ placedActors column.placement actors blueprints useCase,
        (column.centers.get? a).getD 0
      = ∑ a ∈ placedActors column.placement actors blueprints useCase,
        (center? s column.placement a).getD 0 := by
    refine Finset.sum_congr rfl fun a ha => ?_
    rw [hcenters, if_pos (List.mem_toFinset.1 (Finset.mem_filter.1 ha).1)]
  rw [meanHeight?, mean?_filterMap (nodup_connectedActors useCase blueprints) hplaced, hsum,
    startHeight]
  split <;> rfl

end Centers

/-! ### Runs -/

/-- A run in which every shared use case starts from the mean height of its actors with a view. -/
structure SharedAtMeans (start : Workspace) (p : Placement σ) (roots : List ElementId)
    (blueprints : List Blueprint) (s : UseCaseSettings) : Prop where
  /-- The use case layout goes through these stages. -/
  arrange_eq : arrange p roots blueprints s = rowsAfter p roots blueprints s
  /-- All actors that count have a center. -/
  isSome_center? : ∀ useCase, ∀ a ∈ placedActors (actorColumn p roots blueprints s).placement
    (Scene.of start roots blueprints).actors blueprints useCase,
      (center? s (actorColumn p roots blueprints s).placement a).isSome
  /-- A use case that is shared after others is placed at the height it starts from, or a row below
  the one before if that is too close to it. -/
  next : ∀ done useCase,
    let before := sharedRun p roots blueprints s done
    let wanted := startHeight s (actorColumn p roots blueprints s).placement
      (Scene.of start roots blueprints).actors blueprints useCase before.2
    let y := if done = [] then wanted else spaced s.rowSpacing before.2 wanted
    let x := sharedX s (actorColumn p roots blueprints s).right
    let width := s.useCaseWidth (before.1.nameOf useCase)
    sharedRun p roots blueprints s (done ++ [useCase])
      = ((before.1.place useCase ⟨x, y⟩ (some width)).2, y)

theorem sharedAtMeans [BackedStore σ] {start : Workspace} {p : Placement σ}
    {roots : List ElementId} {blueprints : List Blueprint} (s : UseCaseSettings)
    (h : Awaiting start p (Scene.of start roots blueprints).elements) :
    SharedAtMeans start p roots blueprints s := by
  refine ⟨rfl, fun useCase a ha => ?_, fun done useCase => ?_⟩
  · obtain ⟨hplacement, -, hrunning⟩ := actorColumn_eq (s := s) h
    rw [hplacement] at ha ⊢
    exact (isSome_center?_iff hrunning).2 (Finset.mem_filter.1 ha).2.2
  · intro before wanted y x width
    have hheight : sharedY s blueprints (actorColumn p roots blueprints s).centers before.2
        (decide (done.length = 0)) useCase = y := by
      have hmean : (meanHeight? blueprints (actorColumn p roots blueprints s).centers.get?
          useCase).getD before.2 = wanted := meanHeight?_eq h useCase before.2
      cases done with
      | nil => exact hmean
      | cons _ _ => exact (sharedY_of_not_first before.2 useCase).trans (by rw [hmean]; rfl)
    have hstep : sharedRun p roots blueprints s (done ++ [useCase])
        = placeShared s blueprints (actorColumn p roots blueprints s).centers x before
            (useCase, done.length) := by
      simp only [before, x, sharedRun, List.zipIdx_append, List.foldl_append, Nat.zero_add,
        List.zipIdx_singleton, List.foldl_cons, List.foldl_nil]
    rw [hstep]
    simp only [placeShared, hheight, width]

/-- **Both ways to find the actors of a use case agree.** For any lists of actors, use cases and
blueprints, the listed actors that a listed use case is connected to are those it is bucketed by,
each once: none for an orphan, the actor itself for an exclusive use case, and several for a shared
one. So in every run of the layout, whatever the store refuses, a shared use case starts from the
mean height of those of its actors that have a view, or from the height of the one before. -/
theorem adjacency_layout [BackedStore σ] (store : σ) (h : (workspace store).Reachable)
    (diagram : DiagramId) (parsed : Parsed) (s : LayoutSettings) :
    (∀ actors useCases blueprints, ∀ useCase ∈ useCases,
      ConnectedAsBucketed actors useCases blueprints useCase) ∧
    SharedAtMeans (workspace store) (openedFor store diagram parsed) parsed.uniqueElements
      parsed.blueprints s.useCase := by
  obtain ⟨es, hstaged⟩ := exists_staged store h.numbered diagram parsed s
  exact ⟨fun actors useCases blueprints useCase huseCase =>
    connectedAsBucketed blueprints huseCase, sharedAtMeans s.useCase hstaged.awaiting_elements⟩

/-- Four actors and three use cases that two of them share each, with some blueprints repeated and
reversed. -/
def repeatedText : String :=
  "actor A
actor B
actor C
actor D
usecase U
usecase V
usecase W
" ++
    "A -- U
U -- A
B -- U
B -- V
C -- V
A -- W
W -- A
D -- W"

/-- The first use case has one actor with a view, the second has none, and the third has two of
different heights. -/
theorem adjacency_repeatedText :
    ∃ (parsed : Parsed) (read h : Host) (scene : Scene),
      parse (Host.mk
        ((Workspace.new "Model").after (.createDiagram .useCaseDiagram Workspace.root)) {})
        Workspace.root repeatedText = (parsed, read) ∧
      h = { read with policy := ({ views := ["B", "C"] } : Refusals).policy } ∧
      scene = .of h.workspace parsed.uniqueElements parsed.blueprints ∧
      (h.workspace.Reachable ∧ ⟨7⟩ ∈ scene.useCases) ∧
      listedActors scene.actors scene.blueprints ⟨7⟩ = [⟨1⟩, ⟨4⟩] ∧
      ConnectedAsBucketed scene.actors scene.useCases scene.blueprints ⟨7⟩ ∧
      scene.buckets.shared = [⟨5⟩, ⟨6⟩, ⟨7⟩] ∧
      [[⟨5⟩], [⟨5⟩, ⟨6⟩], [⟨5⟩, ⟨6⟩, ⟨7⟩]].map (fun shared => (sharedRun
        (openedFor h ⟨0⟩ parsed) parsed.uniqueElements parsed.blueprints {} shared).2)
        = [140, 290, 477] ∧
      SharedAtMeans h.workspace (openedFor h ⟨0⟩ parsed) parsed.uniqueElements parsed.blueprints
        {} := by
  obtain ⟨parsed, read, hparse, hread⟩ := exists_parse_new .useCaseDiagram repeatedText
  let h : Host := { read with policy := ({ views := ["B", "C"] } : Refusals).policy }
  let scene : Scene := .of h.workspace parsed.uniqueElements parsed.blueprints
  obtain ⟨hflat, hmem, hlisted, hshared⟩ :
      (∀ b ∈ parsed.blueprints, b.kind ≠ .generalization) ∧ ⟨7⟩ ∈ scene.useCases ∧
        listedActors scene.actors scene.blueprints ⟨7⟩ = [⟨1⟩, ⟨4⟩] ∧
        scene.buckets.shared = [⟨5⟩, ⟨6⟩, ⟨7⟩] := by
    obtain ⟨rfl, rfl⟩ := Prod.mk.inj hparse
    decide +kernel
  obtain ⟨hconnected, hmeans⟩ := adjacency_layout h hread ⟨0⟩ parsed {}
  refine ⟨parsed, read, h, scene, hparse, rfl, rfl, ⟨hread, hmem⟩, hlisted,
    hconnected _ _ _ _ hmem, hshared, ?_, hmeans⟩
  simp only [sharedRun, actorColumn, openedFor, Packages.openViews_eq_insertionSort,
    orderActors_of_flat _ _ hflat]
  obtain ⟨rfl, rfl⟩ := Prod.mk.inj hparse
  decide +kernel

end UseCases

end UmlText
