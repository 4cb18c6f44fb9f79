import UmlText.Proofs.Layout.Descending
import UmlText.Proofs.Layout.Wrapping

/-!
# UmlText.Proofs.Layout.Reaching

**How far a use case diagram reaches.** With the usual settings an element takes a height of 225 at
most, wherever it is placed: an actor starts a band, a use case of its own makes the band higher, a
shared use case may stand a row further down, and what is left may go to a new row. To the right, an
actor is moved only past the actors that it descends from, and the shared column makes way for one
block. So the whole diagram is in an area that grows with the characters that declare its elements
(`within_arrange`).
-/

namespace UmlText.UseCases

universe u

open Placement (Awaiting)

variable {σ : Type u} [ModelStore σ] [ViewStore σ] [BackedStore σ]

/-! ### The column of actors -/

section Column

variable {buckets : UseCaseBuckets} {ordered : List (ElementId × Nat)} {y : Int}
  {top : (ElementId × Nat) × Int}

theorem bandHeight_le (size : Nat) : bandHeight {} size ≤ 225 * (size + 1) := by
  have hcolumns : blockColumns {} = 2 := rfl
  simp only [bandHeight, blockRows, hcolumns]
  omega

/-- The column takes 225 for each of its elements. -/
theorem columnEnd_le (buckets : UseCaseBuckets) (y : Int) (ordered : List (ElementId × Nat)) :
    columnEnd {} buckets y ordered
      ≤ y + 225 * (ordered.flatMap fun o => o.1 :: buckets.exclusiveOf o.1).length := by
  induction ordered generalizing y with
  | nil => exact Int.le_refl _
  | cons o rest ih =>
      have hband := bandHeight_le (buckets.exclusiveOf o.1).length
      have hrest := ih (y + bandHeight {} (buckets.exclusiveOf o.1).length)
      rw [columnEnd_cons, List.flatMap_cons, List.length_append, List.length_cons]
      omega

theorem start_le_top (h : top ∈ actorTops {} buckets y ordered) : y ≤ top.2 := by
  induction ordered generalizing y with
  | nil => cases h
  | cons o rest ih =>
      rcases List.mem_cons.1 h with rfl | h
      · exact Int.le_refl _
      · have hband := actor_le_bandHeight (buckets.exclusiveOf o.1).length
        have hrest := ih h
        omega

/-- A spot that is in an area. -/
structure SpotIn (area : Bounds) (spot : Spot) : Prop where
  left : area.minX ≤ spot.position.x
  top : area.minY ≤ spot.position.y
  right : spot.position.x ≤ area.maxX
  bottom : spot.position.y ≤ area.maxY

/-- An actor is moved right past the actors it descends from, and no further. -/
theorem spotIn_column {start : Workspace} {spot : Spot} {deepest : Nat}
    (hdepth : ∀ o ∈ ordered, o.2 ≤ deepest)
    (h : spot ∈ columnSpots {} start buckets y ordered) :
    SpotIn ⟨100, y, 650 + 50 * deepest, columnEnd {} buckets y ordered⟩ spot := by
  obtain ⟨top, htop, h⟩ := List.mem_flatMap.1 h
  have hstart := start_le_top htop
  have hend := le_columnEnd htop
  have hband := actor_le_bandHeight (buckets.exclusiveOf top.1.1).length
  rcases List.mem_cons.1 h with rfl | h
  · have hordered : top.1 ∈ ordered := by
      rw [← map_fst_actorTops {} buckets y ordered]
      exact List.mem_map_of_mem htop
    have hdeep := hdepth _ hordered
    obtain ⟨hnonneg, hindent⟩ := Saturating.mul_ofNat_mem top.1.2 (by decide : (0 : Int) ≤ 50)
    have hleft := Saturating.le_add 100
      (Saturating.mul 50 (Saturating.ofNat top.1.2 Saturating.highest))
    have hright := (Saturating.add_mem (by decide : (0 : Int) ≤ 100) hnonneg).2
    constructor <;> simp only [actorSpot, Saturating.highest] at * <;> omega
  · obtain ⟨numbered, hnumbered, rfl⟩ := List.mem_map.1 h
    have hindex : numbered.2 < (buckets.exclusiveOf top.1.1).length :=
      List.snd_lt_of_mem_zipIdx hnumbered
    have hrow := row_le_bandHeight hindex top.2
    have hcolumns : blockColumns {} = 2 := rfl
    constructor <;> simp only [useCaseSpot, blockPosition, hcolumns] at * <;> omega

end Column

/-! ### The shared column -/

/-- A mean is between the least and the greatest. -/
theorem mean_mem {values : List Int} {low high mean : Int} (hlow : 0 ≤ low)
    (h : ∀ v ∈ values, low ≤ v ∧ v ≤ high) (hmean : mean ∈ mean? values) :
    low ≤ mean ∧ mean ≤ high := by
  have hleast := List.card_nsmul_le_sum values low fun v hv => (h v hv).1
  have hgreatest := List.sum_le_card_nsmul values high fun v hv => (h v hv).2
  rw [Int.nsmul_eq_mul] at hleast hgreatest
  cases values with
  | nil => cases hmean
  | cons v rest =>
      have hlength : 0 < (((v :: rest).length : Nat) : Int) := Int.natCast_pos.2 (Nat.succ_pos _)
      have hsum : 0 ≤ (v :: rest).sum :=
        Int.le_trans (Int.mul_nonneg (Int.natCast_nonneg _) hlow) hleast
      obtain rfl := Option.some.inj hmean
      rw [← List.sum_eq_foldl, Int.tdiv_eq_ediv_of_nonneg hsum]
      exact ⟨Int.le_ediv_of_mul_le hlength (by rwa [Int.mul_comm]),
        Int.ediv_le_of_le_mul hlength (by rwa [Int.mul_comm])⟩

/-- What follows stands a row further down for each that is shared, at most. -/
theorem followers_mem {low high previous : Int} {means : List (Option Int)}
    (hmeans : ∀ mean ∈ means, ∀ m ∈ mean, low ≤ m ∧ m ≤ high)
    (hprevious : low ≤ previous ∧ previous ≤ high) {y : Int}
    (hy : y ∈ followers 150 previous means) :
    low ≤ y ∧ y ≤ high + 150 * means.length := by
  induction means generalizing previous high with
  | nil => cases hy
  | cons mean rest ih =>
      have hmean : low ≤ mean.getD previous ∧ mean.getD previous ≤ high := by
        cases hm : mean with
        | none => exact hprevious
        | some m => exact hmeans mean List.mem_cons_self m hm
      have hnext : low ≤ spaced 150 previous (mean.getD previous) ∧
          spaced 150 previous (mean.getD previous) ≤ high + 150 := by
        unfold spaced
        split <;> omega
      rw [List.length_cons]
      rw [followers, List.mem_cons] at hy
      rcases hy with hfirst | hy
      · omega
      · have hlater : ∀ mean ∈ rest, ∀ m ∈ mean, low ≤ m ∧ m ≤ high + 150 := by
          intro mean hmem m hm
          have hwithin := hmeans mean (List.mem_cons_of_mem _ hmem) m hm
          omega
        have hrest := ih hlater hnext hy
        omega

theorem sharedTops_mem {low high origin : Int} {means : List (Option Int)}
    (hmeans : ∀ mean ∈ means, ∀ m ∈ mean, low ≤ m ∧ m ≤ high)
    (horigin : low ≤ origin ∧ origin ≤ high) {y : Int} (hy : y ∈ sharedTops 150 origin means) :
    low ≤ y ∧ y ≤ high + 150 * means.length := by
  cases means with
  | nil => cases hy
  | cons mean rest =>
      have hmean : low ≤ mean.getD origin ∧ mean.getD origin ≤ high := by
        cases hm : mean with
        | none => exact horigin
        | some m => exact hmeans mean List.mem_cons_self m hm
      rw [List.length_cons]
      rw [sharedTops, List.mem_cons] at hy
      rcases hy with rfl | hy
      · omega
      · have hrest := followers_mem (fun mean hmem => hmeans mean (List.mem_cons_of_mem _ hmem))
          hmean hy
        omega

/-! ### The rows below -/

/-- Rows have at most five places, and go on a row further down for each place, at most. -/
theorem spotIn_wrapped {start : Workspace} {elements : List ElementId} {position : Point}
    {spot : Spot} (hx : 100 ≤ position.x ∧ position.x ≤ 900)
    (h : spot ∈ wrappedSpots {} start position elements) :
    SpotIn ⟨100, position.y, 900, position.y + 150 * elements.length⟩ spot := by
  induction elements generalizing position with
  | nil => cases h
  | cons element rest ih =>
      rcases List.mem_cons.1 h with rfl | h
      · constructor <;> simp only [wrappedSpot, List.length_cons] <;> omega
      · have hnext : (100 ≤ (nextWrapped {} position).x ∧ (nextWrapped {} position).x ≤ 900) ∧
            position.y ≤ (nextWrapped {} position).y ∧
            (nextWrapped {} position).y ≤ position.y + 150 := by
          simp only [nextWrapped]
          split <;> simp only <;> omega
        obtain ⟨hleft, htop, hright, hbottom⟩ := ih hnext.1 h
        constructor <;> simp only [List.length_cons] at * <;> omega

/-! ### The whole diagram -/

section Scene

variable {scene : Scene} {start : Workspace} {centers : ElementId → Option Int} {x : Int}

theorem Scene.length_elements (scene : Scene) : scene.elements.length
    = (scene.ordered.flatMap fun o => o.1 :: scene.buckets.exclusiveOf o.1).length
      + scene.buckets.shared.length + scene.trailing.length := by
  rw [Scene.elements, List.length_append, List.length_append]

theorem Scene.length_ordered_le (scene : Scene) : scene.ordered.length ≤ scene.elements.length := by
  have hcolumn := List.card_nsmul_le_sum
    (scene.ordered.map fun o => (o.1 :: scene.buckets.exclusiveOf o.1).length) 1
    (List.forall_mem_map.2 fun o _ => Nat.succ_le_succ (Nat.zero_le _))
  rw [List.length_map, Nat.nsmul_eq_mul, Nat.mul_one, ← List.length_flatMap] at hcolumn
  rw [scene.length_elements]
  omega

/-- **The spots of a scene** go down by 225 for each element, at most, if the centers are in the
column of actors. -/
theorem Scene.spotIn_area
    (hcenters : ∀ actor, ∀ y ∈ centers actor,
      100 ≤ y ∧ y ≤ columnEnd {} scene.buckets 100 scene.ordered) (hx : 100 ≤ x) {spot : Spot}
    (h : spot ∈ scene.spots {} start centers x) :
    SpotIn ⟨100, 100, max x (900 + 50 * scene.ordered.length),
      250 + 225 * scene.elements.length⟩ spot := by
  have hlength := scene.length_elements
  have hstart := start_le_columnEnd scene.buckets 100 scene.ordered
  have hcolumn := columnEnd_le scene.buckets 100 scene.ordered
  have hshared : ∀ y ∈ scene.sharedTops {} centers,
      100 ≤ y ∧ y ≤ columnEnd {} scene.buckets 100 scene.ordered
        + 150 * scene.buckets.shared.length := by
    have hmeans : ∀ height ∈ scene.buckets.shared.map (meanHeight? scene.blueprints centers),
        ∀ m ∈ height, 100 ≤ m ∧ m ≤ columnEnd {} scene.buckets 100 scene.ordered := by
      intro height hheight m hm
      obtain ⟨useCase, -, rfl⟩ := List.mem_map.1 hheight
      refine mean_mem (by decide) (fun v hv => ?_) hm
      obtain ⟨actor, -, hactor⟩ := List.mem_filterMap.1 hv
      exact hcenters actor v hactor
    intro y hy
    have hmem := sharedTops_mem hmeans ⟨Int.le_refl _, hstart⟩ hy
    rwa [List.length_map] at hmem
  rcases List.mem_append.1 h with h | h
  · rcases List.mem_append.1 h with h | h
    · obtain ⟨hleft, htop, hright, hbottom⟩ := spotIn_column
        (fun o ho => Nat.le_of_lt (depth_lt_orderActors ho)) h
      constructor <;> simp only [Scene.ordered] at * <;> omega
    · obtain ⟨placed, hplaced, rfl⟩ := List.mem_map.1 h
      have hy := hshared placed.2 (List.of_mem_zip hplaced).2
      constructor <;> simp only [useCaseSpot] <;> omega
  · have hrows : 100 ≤ scene.rowsTop {} centers ∧
        scene.rowsTop {} centers ≤ columnEnd {} scene.buckets 100 scene.ordered
          + 150 * scene.buckets.shared.length + 150 := by
      have hlast : (scene.sharedTops {} centers).getLastD 100 ≤
          columnEnd {} scene.buckets 100 scene.ordered + 150 * scene.buckets.shared.length := by
        have hmem : (scene.sharedTops {} centers).getLastD 100
            ∈ 100 :: scene.sharedTops {} centers := List.getLastD_mem_cons
        rcases List.mem_cons.1 hmem with horigin | hlast
        · omega
        · exact (hshared _ hlast).2
      simp only [Scene.rowsTop]
      omega
    obtain ⟨hleft, htop, hright, hbottom⟩ := spotIn_wrapped (by simp only; omega) h
    constructor <;> simp only at * <;> omega

/-- What stands at a spot is as large as the characters that declare it. -/
theorem Scene.size_le {e : LayoutEntry} {spot : Spot}
    (hspot : spot ∈ scene.spots {} start centers x) (h : Fills start e spot)
    (hplaceable : Placeable start spot.element) :
    e.size.width ≤ 60 + 10 * start.charge e.element ∧
      e.size.height ≤ 15 * start.charge e.element := by
  refine h.size_le hplaceable fun width hwidth => ?_
  have hname := UseCaseSettings.useCaseWidth_le (ModelStore.nameOf start spot.element)
  rw [Scene.width_eq hspot hwidth]
  omega

end Scene

omit [ModelStore σ] [ViewStore σ] [BackedStore σ] in
/-- The centers of actors are in their column. -/
theorem center_mem {buckets : UseCaseBuckets} {ordered : List (ElementId × Nat)} {q : Placement σ}
    {actor : ElementId} {y : Int}
    (h : (({} : OrderedMap ElementId Int).fill
      (centersOf {} q (actorTops {} buckets 100 ordered))).get? actor = some y) :
    100 ≤ y ∧ y ≤ columnEnd {} buckets 100 ordered := by
  obtain ⟨top, htop, heq⟩ := List.mem_map.1 (OrderedMap.mem_of_get?_fill h)
  obtain ⟨-, rfl⟩ := Prod.mk.inj heq
  have hmem := (List.mem_filter.1 htop).1
  have hstart := start_le_top hmem
  have hend := le_columnEnd hmem
  have hband := actor_le_bandHeight (buckets.exclusiveOf top.1.1).length
  simp only
  omega

section Arrange

variable {start : Workspace} {p : Placement σ} {roots : List ElementId}
  {blueprints : List Blueprint}

/-- The shared column makes way for actors, and for one use case of an actor. -/
theorem sharedX_le {scene : Scene} (h : Awaiting start p scene.elements)
    (hplaceable : ∀ m ∈ scene.elements, Placeable start m) {right : Option Int}
    (hwidens : Widens p (p.placeSpots (columnSpots {} start scene.buckets 100 scene.ordered)) none
      right (scene.ordered.map Prod.fst)) :
    800 ≤ sharedX {} right ∧
      sharedX {} right ≤ 800 + 50 * scene.ordered.length + 10 * start.charges scene.elements := by
  cases right with
  | none => exact ⟨Int.le_refl _, by simp only [sharedX, Option.elim_none]; omega⟩
  | some r =>
      obtain ⟨es, hentries, hright⟩ := hwidens.attained
      obtain ⟨e, he, hend⟩ := (hright r rfl).resolve_left nofun
      have hcolumn : Awaiting start p
          ((columnSpots {} start scene.buckets 100 scene.ordered).map Spot.element) := by
        rw [map_element_columnSpots]
        exact h.of_append.of_append
      obtain ⟨spot, hspot, hfill⟩ := hcolumn.fills_of_append hentries he
      have hmem : spot ∈ scene.spots {} start (fun _ => none) 0 :=
        List.mem_append_left _ (List.mem_append_left _ hspot)
      have helement : spot.element ∈ scene.elements := by
        rw [← scene.map_element_spots {} start (fun _ => none) 0]
        exact List.mem_map_of_mem hmem
      obtain ⟨hwidth, -⟩ := Scene.size_le hmem hfill (hplaceable _ helement)
      have hcharge : start.charge e.element ≤ start.charges scene.elements :=
        Workspace.charge_le_charges (hfill.element_eq ▸ helement)
      have hx := (spotIn_column (fun o ho => Nat.le_of_lt (depth_lt_orderActors ho)) hspot).right
      have hposition : e.position.x = spot.position.x := congrArg Point.x hfill.position_eq
      simp only [LayoutEntry.bounds, Point.toBounds, Scene.ordered] at *
      simp only [sharedX, Option.elim_some]
      omega

/-- **A use case diagram stays in an area** that grows with the characters that declare its
elements. -/
theorem within_arrange (h : Awaiting start p (Scene.of start roots blueprints).elements)
    (hplaceable : ∀ m ∈ (Scene.of start roots blueprints).elements, Placeable start m)
    {e : LayoutEntry} (he : e ∈ (arrange p roots blueprints {}).entries) :
    e ∈ p.entries ∨ e.bounds.Solid ∧
      (areaFor (start.charges (Scene.of start roots blueprints).elements)).contains e.bounds := by
  obtain ⟨right, hwidens, harrange⟩ := arrange_eq_placeSpots {} h
  let scene := Scene.of start roots blueprints
  let column := p.placeSpots (columnSpots {} start scene.buckets 100 scene.ordered)
  let centers := ({} : OrderedMap ElementId Int).fill
    (centersOf {} column (actorTops {} scene.buckets 100 scene.ordered))
  have hspots : Awaiting start p
      ((scene.spots {} start centers.get? (sharedX {} right)).map Spot.element) := by
    rwa [scene.map_element_spots]
  rw [harrange] at he
  refine (hspots.fills_of_mem he).imp_right ?_
  rintro ⟨spot, hspot, hfill⟩
  have helement : spot.element ∈ scene.elements := by
    rw [← scene.map_element_spots {} start centers.get? (sharedX {} right)]
    exact List.mem_map_of_mem hspot
  obtain ⟨hleft, hright⟩ := sharedX_le h hplaceable hwidens
  obtain ⟨hminX, hminY, hmaxX, hmaxY⟩ := Scene.spotIn_area (fun actor y hy => center_mem hy)
    (by omega) hspot
  obtain ⟨hwidth, hheight⟩ := Scene.size_le hspot hfill (hplaceable _ helement)
  have hcharge : start.charge e.element ≤ start.charges scene.elements :=
    Workspace.charge_le_charges (hfill.element_eq ▸ helement)
  have hcount : 6 * scene.elements.length ≤ start.charges scene.elements :=
    Workspace.length_le_charges fun m hm => (hplaceable m hm).isSome_kind?
  have hordered := scene.length_ordered_le
  refine ⟨hfill.solid fun width hwidth =>
    Int.lt_of_lt_of_le (by decide) (Scene.le_width hspot hwidth), ?_⟩
  simp only [areaFor, Bounds.contains_iff, LayoutEntry.bounds, Point.toBounds, hfill.position_eq]
  simp only [scene] at *
  omega

end Arrange

end UmlText.UseCases
