import UmlText.Proofs.Import.Independence
import UmlText.Proofs.Layout.Blocks
import UmlText.Proofs.Layout.Columns
import UmlText.Proofs.Layout.Settling

/-!
# UmlText.Proofs.Layout.Scenes

**A use case diagram shows its scene.** On a workspace, the report of a use case diagram with the
usual settings has an entry at every spot of the scene (`shows_layout`), whatever packages there
are. So where an import puts actors and use cases can be told from what was read
(`shows_importText`).
-/

namespace UmlText

universe u

open Packages (Settles)
open Placement (Awaiting Running)
open UseCases

variable {σ : Type u} [ModelStore σ] [ViewStore σ] [BackedStore σ]

/-! ### Sizes -/

theorem Workspace.nodeSize_width (e : Element) : 0 < (nodeSize e).width := by
  unfold nodeSize
  split
  case h_4 | h_5 | h_6 => exact (by decide : (0 : Int) < 100)
  all_goals decide

/-- An entry at a spot has room inside, if a width asked for is positive. -/
theorem Fills.solid {start : Workspace} {e : LayoutEntry} {spot : Spot} (h : Fills start e spot)
    (hwidth : ∀ width ∈ spot.width, 0 < width) : e.bounds.Solid := by
  obtain ⟨model, -, hsize⟩ := h.size_eq
  have hnodeWidth := Workspace.nodeSize_width model
  have hnodeHeight := Workspace.nodeSize_height model
  have hpositive : 0 < spot.width.getD (Workspace.nodeSize model).width := by
    cases hspot : spot.width with
    | none => exact hnodeWidth
    | some width => exact hwidth width hspot
  constructor <;> simp only [LayoutEntry.bounds, Point.toBounds, hsize] <;> omega

/-- The kind of an element gives the height of an entry at its spot. -/
theorem Fills.height_eq {start : Workspace} {e : LayoutEntry} {spot : Spot} (h : Fills start e spot)
    {kind : ElementKind} (hkind : start.kind? spot.element = some kind) :
    (kind = .actor → e.size.height = 80) ∧ (kind = .useCase → e.size.height = 60) := by
  obtain ⟨model, hmodel, hsize⟩ := h.size_eq
  have hmodelKind : model.kind? = some kind := (Workspace.kind?_of_element? hmodel).symm.trans hkind
  constructor
  · rintro rfl
    simp only [hsize, Workspace.nodeSize, hmodelKind]
  · rintro rfl
    simp only [hsize, Workspace.nodeSize, hmodelKind]

/-! ### The actors of a scene -/

/-- The height at which a report has an element. -/
def LayoutReport.height? (report : LayoutReport) (element : ElementId) : Option Int :=
  (report.entryOf? element).map fun e => e.position.y

namespace UseCases

namespace Scene

variable {scene : Scene} {s : UseCaseSettings} {top : (ElementId × Nat) × Int}

/-- The actors of a scene, each with its height. -/
def actorTops (scene : Scene) (s : UseCaseSettings) : List ((ElementId × Nat) × Int) :=
  UseCases.actorTops s scene.buckets s.originY scene.ordered

/-- The centers of the actors, if all of them are placed. -/
def centers (scene : Scene) (s : UseCaseSettings) : OrderedMap ElementId Int :=
  ({} : OrderedMap ElementId Int).fill
    ((scene.actorTops s).map fun top => (top.1.1, top.2 + s.actorCenterOffset))

theorem keys_actorTops :
    (((scene.actorTops s).map fun top => (top.1.1, top.2 + s.actorCenterOffset)).map Prod.fst)
      = scene.ordered.map Prod.fst := by
  rw [← map_fst_actorTops s scene.buckets s.originY scene.ordered, List.map_map, List.map_map]
  rfl

/-- Every actor has a height. -/
theorem exists_actorTop {actor : ElementId} (h : actor ∈ scene.actors) :
    ∃ top ∈ scene.actorTops s, top.1.1 = actor := by
  have hordered : actor ∈ scene.ordered.map Prod.fst :=
    (orderActors_perm scene.actors scene.blueprints).mem_iff.2 (List.mem_eraseDups.2 h)
  rw [← keys_actorTops (s := s), List.map_map] at hordered
  exact List.mem_map.1 hordered

/-- What has a height is an actor. -/
theorem mem_actors (h : top ∈ scene.actorTops s) : top.1.1 ∈ scene.actors := by
  have hordered : top.1.1 ∈ scene.ordered.map Prod.fst := by
    rw [← keys_actorTops (s := s), List.map_map]
    exact List.mem_map_of_mem h
  exact List.mem_eraseDups.1 ((orderActors_perm scene.actors scene.blueprints).mem_iff.1 hordered)

theorem nodup_ordered : (scene.ordered.map Prod.fst).Nodup :=
  (orderActors_perm scene.actors scene.blueprints).nodup_iff.2 (nodup_eraseDups _)

theorem get?_centers (h : top ∈ scene.actorTops s) :
    (scene.centers s).get? top.1.1 = some (top.2 + s.actorCenterOffset) := by
  have hnodup : (scene.ordered.map Prod.fst).Nodup := nodup_ordered
  rw [← keys_actorTops (s := s)] at hnodup
  have hentries := OrderedMap.entries_fill hnodup
  refine OrderedMap.get?_of_mem ?_ ?_
  · rw [OrderedMap.keys, centers, hentries]
    exact hnodup
  · rw [centers, hentries]
    exact List.mem_map_of_mem h

theorem get?_centers_of_not_mem {element : ElementId} (h : element ∉ scene.actors) :
    (scene.centers s).get? element = none := by
  refine OrderedMap.get?_eq_none_iff.2 fun hmem => h ?_
  rw [centers, OrderedMap.keys_fill, List.mem_eraseDups, keys_actorTops] at hmem
  exact List.mem_eraseDups.1 ((orderActors_perm scene.actors scene.blueprints).mem_iff.1 hmem)

/-- Where a width is asked for, it is that of a use case with the name of the element. -/
theorem width_eq {start : Workspace} {centers : ElementId → Option Int} {x : Int} {spot : Spot}
    (h : spot ∈ scene.spots s start centers x) {width : Int} (hwidth : width ∈ spot.width) :
    width = s.useCaseWidth (ModelStore.nameOf start spot.element) := by
  rcases List.mem_append.1 h with h | h
  · rcases List.mem_append.1 h with h | h
    · obtain ⟨top, -, h⟩ := List.mem_flatMap.1 h
      rcases List.mem_cons.1 h with rfl | h
      · cases hwidth
      · obtain ⟨numbered, -, rfl⟩ := List.mem_map.1 h
        exact (Option.some.inj hwidth).symm
    · obtain ⟨placed, -, rfl⟩ := List.mem_map.1 h
      exact (Option.some.inj hwidth).symm
  · obtain ⟨position, element, rfl⟩ := exists_eq_wrappedSpot h
    simp only [wrappedSpot] at hwidth
    split at hwidth
    · exact (Option.some.inj hwidth).symm
    · cases hwidth

theorem le_width {start : Workspace} {centers : ElementId → Option Int} {x : Int} {spot : Spot}
    (h : spot ∈ scene.spots s start centers x) {width : Int} (hwidth : width ∈ spot.width) :
    s.minUseCaseWidth ≤ width := by
  rw [width_eq h hwidth]
  exact Int.le_max_left _ _

theorem actorSpot_mem_columnSpots {start : Workspace} (h : top ∈ scene.actorTops s) :
    actorSpot s top ∈ columnSpots s start scene.buckets s.originY scene.ordered :=
  List.mem_flatMap.2 ⟨top, h, List.mem_cons_self⟩

theorem useCaseSpot_mem_columnSpots {start : Workspace} (h : top ∈ scene.actorTops s)
    {useCase : ElementId} {index : Nat}
    (hindex : (scene.buckets.exclusiveOf top.1.1)[index]? = some useCase) :
    useCaseSpot s start (blockPosition s top.2 index) useCase
      ∈ columnSpots s start scene.buckets s.originY scene.ordered :=
  List.mem_flatMap.2 ⟨top, h, List.mem_cons_of_mem _
    (List.mem_map.2 ⟨(useCase, index), List.mem_zipIdx_iff_getElem?.2 hindex, rfl⟩)⟩

/-- The use cases of a single actor are use cases of the scene, -/
theorem mem_useCases_of_exclusive {actor useCase : ElementId}
    (h : useCase ∈ scene.buckets.exclusiveOf actor) : useCase ∈ scene.useCases := by
  rw [Scene.buckets, exclusiveOf_bucketUseCases] at h
  exact (List.mem_filter.1 h).1

/-- and so are those of several actors. -/
theorem mem_useCases_of_shared {useCase : ElementId} (h : useCase ∈ scene.buckets.shared) :
    useCase ∈ scene.useCases := by
  rw [Scene.buckets, shared_bucketUseCases] at h
  exact (List.mem_filter.1 h).1

end Scene

/-- **On a known diagram all actors are placed**, so it is known where the shared use cases go. -/
theorem arrange_granted {start : Workspace} {p : Placement Workspace} {roots : List ElementId}
    {blueprints : List Blueprint} (s : UseCaseSettings)
    (h : Awaiting start p (Scene.of start roots blueprints).elements)
    (hdiagram : (start.diagram? p.diagram).isSome)
    (hkinds : ∀ e ∈ (Scene.of start roots blueprints).elements, (start.kind? e).isSome) :
    let scene := Scene.of start roots blueprints
    ∃ x, arrange p roots blueprints s
      = p.placeSpots (scene.spots s start (scene.centers s).get? x) := by
  intro scene
  let column := columnSpots s start scene.buckets s.originY scene.ordered
  have hcolumn : Awaiting start p (column.map Spot.element) := by
    rw [map_element_columnSpots]
    exact h.of_append.of_append
  have hcolumnKinds : ∀ spot ∈ column, (start.kind? spot.element).isSome := by
    intro spot hspot
    refine hkinds _ (List.mem_append_left _ (List.mem_append_left _ ?_))
    rw [← map_element_columnSpots s start scene.buckets s.originY]
    exact List.mem_map_of_mem hspot
  have hplaced : ∀ top ∈ scene.actorTops s,
      ((p.placeSpots column).viewOf? top.1.1).isSome := fun top htop =>
    hcolumn.viewOf?_isSome_granted hdiagram hcolumnKinds (Scene.actorSpot_mem_columnSpots htop)
  have hcenters : ({} : OrderedMap ElementId Int).fill
      (centersOf s (p.placeSpots column) (scene.actorTops s)) = scene.centers s := by
    rw [centersOf, List.filter_eq_self.2 hplaced, Scene.centers]
  obtain ⟨right, -, harrange⟩ := arrange_eq_placeSpots s h
  refine ⟨sharedX s right, harrange.trans ?_⟩
  exact congrArg (fun centers : OrderedMap ElementId Int =>
    p.placeSpots (scene.spots s start centers.get? (sharedX s right))) hcenters

/-- The members of a scene are of their kinds. -/
theorem kind?_of_mem_filter {w : Workspace} {roots : List ElementId} {kind : ElementKind}
    {element : ElementId} (h : element ∈ roots.filter fun e => (w.kind? e).any (· = kind)) :
    w.kind? element = some kind := by
  obtain ⟨found, hfound, hkind⟩ := (Option.any_eq_true _ _).1 (List.mem_filter.1 h).2
  exact hfound.trans (congrArg some (of_decide_eq_true hkind))

/-! ### The report -/

/-- A report that has an entry at every spot of a scene, with the shared column at `x`. -/
structure Shows (scene : Scene) (start : Workspace) (x : Int) (report : LayoutReport) : Prop where
  kind_actor : ∀ a ∈ scene.actors, start.kind? a = some .actor
  kind_useCase : ∀ u ∈ scene.useCases, start.kind? u = some .useCase
  filled : ∀ spot ∈ scene.spots {} start (scene.centers {}).get? x,
    ∃ e, report.entryOf? spot.element = some e ∧ Fills start e spot

/-- The entry of an element that has just one. -/
theorem entryOf?_of_mem {report : LayoutReport} {e : LayoutEntry} (he : e ∈ report.entries)
    (hunique : ∀ e' ∈ report.entries, e'.element = e.element → e' = e) :
    report.entryOf? e.element = some e := by
  cases hfound : report.entryOf? e.element with
  | none => exact absurd (decide_eq_true rfl) (List.find?_eq_none.1 hfound e he)
  | some e' =>
      have hfind : report.entries.find? (fun e' => e'.element = e.element) = some e' := hfound
      have hsame := List.find?_some hfind
      rw [hunique e' (List.mem_of_find?_eq_some hfind) (of_decide_eq_true hsame)]

/-- A scene has all that was declared but packages. -/
theorem Scene.perm_elements {w : Workspace} {p : Placement σ} (h : Running w p)
    {roots : List ElementId} (hnodup : roots.Nodup) (blueprints : List Blueprint) :
    (Scene.of w roots blueprints).elements.Perm
      (roots.filter fun e => (w.kind? e).any (· ≠ .package)) := by
  have horder := perm_order p hnodup blueprints
  simp only [order, ofKind, h.kind?_eq] at horder
  exact horder

/-- Once the packages are opened, the use case layout fills the spots of the scene. -/
theorem settles_arrange {w : Workspace} {diagram : DiagramId} {roots packages : List ElementId}
    {p : Placement Workspace} (h : Packages.Opened w diagram roots p packages)
    (hnodup : roots.Nodup) (hdiagram : (w.diagram? diagram).isSome)
    (hkinds : ∀ e ∈ roots, (w.kind? e).isSome) (blueprints : List Blueprint) :
    let scene := Scene.of w roots blueprints
    ∃ x es, List.Forall₂ (Fills w) es (scene.spots {} w (scene.centers {}).get? x) ∧
      (∀ e ∈ es, e.bounds.Solid) ∧ Settles w p (arrange p roots blueprints {}) es := by
  intro scene
  have hknown : (w.diagram? p.diagram).isSome := by rwa [h.diagram_eq]
  have hperm : scene.elements.Perm (roots.filter fun e => (w.kind? e).any (· ≠ .package)) :=
    Scene.perm_elements h.running hnodup blueprints
  have hkinds' : ∀ e ∈ scene.elements, (w.kind? e).isSome :=
    fun e he => hkinds e (List.mem_filter.1 (hperm.mem_iff.1 he)).1
  have hawaiting : Awaiting w p scene.elements := h.awaiting hnodup hperm
  obtain ⟨x, hspots⟩ := arrange_granted {} hawaiting hknown hkinds'
  let spots := scene.spots {} w (scene.centers {}).get? x
  have helements : spots.map Spot.element = scene.elements := scene.map_element_spots ..
  obtain ⟨es, hfills, hentries⟩ : ∃ es, List.Forall₂ (Fills w) es spots ∧
      (p.placeSpots spots).entries = p.entries ++ es :=
    Awaiting.fills_granted (by rwa [helements]) hknown fun spot hspot =>
      hkinds' _ (helements ▸ List.mem_map_of_mem hspot)
  have hsolid : ∀ e ∈ es, e.bounds.Solid := by
    intro e he
    obtain ⟨spot, hspot, hfill⟩ := exists_of_forall₂ hfills he
    refine hfill.solid fun width hwidth => ?_
    have hle := Scene.le_width hspot hwidth
    exact Int.lt_of_lt_of_le (by decide) hle
  refine ⟨x, es, hfills, hsolid, ?_⟩
  rw [hspots]
  exact h.settles hnodup (Placement.tries_placeSpots p spots) (by rwa [helements]) hentries

/-- **A use case diagram shows its scene.** -/
theorem shows_layout {w : Workspace} (h : w.Numbered) {diagram : DiagramId}
    (hdiagram : (w.diagram? diagram).isSome) {parsed : Parsed}
    (hkind : parsed.diagramKind = .useCaseDiagram)
    (hkinds : ∀ e ∈ parsed.uniqueElements, (w.kind? e).isSome) :
    ∃ x, Shows (.of w parsed.uniqueElements parsed.blueprints) w x
      (layout w diagram parsed {}).1 := by
  have hnodup : parsed.uniqueElements.Nodup := nodup_eraseDups _
  let opened := Packages.openViews ({ store := w, diagram } : Placement Workspace)
    parsed.uniqueElements
  have hopened : Packages.Opened w diagram parsed.uniqueElements opened.1 opened.2 :=
    Packages.opened_openViews h diagram hnodup
  obtain ⟨x, es, hfills, hsolid, hsettles⟩ :=
    settles_arrange hopened hnodup hdiagram hkinds parsed.blueprints
  -- What is placed stays where it is when the packages are fitted.
  have hfitted := hsettles.fitted hopened hsolid ⟨100, 100⟩
  have hplace : placeAll w diagram parsed {} = Packages.fit
      (arrange opened.1 parsed.uniqueElements parsed.blueprints {}) opened.2 ⟨100, 100⟩ {} := by
    simp only [placeAll, hkind, Strategy.ofDiagram, Strategy.arrange, Strategy.origin]
    rfl
  rw [← hplace] at hfitted
  have hreport : (layout w diagram parsed {}).1.entries = (placeAll w diagram parsed {}).entries :=
    Relationships.entries_realize _ _
  refine ⟨x, fun a ha => kind?_of_mem_filter ha, fun u hu => kind?_of_mem_filter hu, ?_⟩
  intro spot hspot
  obtain ⟨e, he, hfill⟩ := exists_of_forall₂ hfills.flip hspot
  have hmem := (List.mem_filter.1 ((hsettles.mem_iff hfitted.intact).2 he)).1
  refine ⟨e, ?_, hfill⟩
  rw [← hfill.element_eq]
  refine entryOf?_of_mem (hreport ▸ hmem) fun e' he' hsame => ?_
  rw [hreport] at he'
  exact hfitted.intact.redrawn.running.eq_of_element_eq he' hmem hsame

/-! ### What stands where -/

/-- The center of an actor in a report. -/
def Scene.center? (scene : Scene) (report : LayoutReport) (actor : ElementId) : Option Int :=
  if actor ∈ scene.actors then (report.height? actor).map (· + 40) else none

namespace Shows

variable {scene : Scene} {start : Workspace} {x : Int} {report : LayoutReport}

theorem actor (h : Shows scene start x report) {top : (ElementId × Nat) × Int}
    (htop : top ∈ scene.actorTops {}) :
    ∃ e, report.entryOf? top.1.1 = some e ∧ e.position.y = top.2 ∧ e.size.height = 80 := by
  obtain ⟨e, he, hfill⟩ := h.filled (actorSpot {} top) (List.mem_append_left _
    (List.mem_append_left _ (Scene.actorSpot_mem_columnSpots htop)))
  refine ⟨e, he, congrArg Point.y hfill.position_eq, ?_⟩
  exact (hfill.height_eq (h.kind_actor _ (Scene.mem_actors htop))).1 rfl

theorem exclusive (h : Shows scene start x report) {top : (ElementId × Nat) × Int}
    (htop : top ∈ scene.actorTops {}) {useCase : ElementId} {index : Nat}
    (hindex : (scene.buckets.exclusiveOf top.1.1)[index]? = some useCase) :
    ∃ e, report.entryOf? useCase = some e ∧
      e.position = blockPosition {} top.2 index ∧ e.size.height = 60 := by
  obtain ⟨e, he, hfill⟩ := h.filled _ (List.mem_append_left _ (List.mem_append_left _
    (Scene.useCaseSpot_mem_columnSpots htop hindex)))
  have huseCase := Scene.mem_useCases_of_exclusive (List.mem_of_getElem? hindex)
  exact ⟨e, he, hfill.position_eq, (hfill.height_eq (h.kind_useCase _ huseCase)).2 rfl⟩

theorem shared (h : Shows scene start x report) {placed : ElementId × Int}
    (hmem : placed ∈ scene.buckets.shared.zip (scene.sharedTops {} (scene.centers {}).get?)) :
    ∃ e, report.entryOf? placed.1 = some e ∧ e.position = ⟨x, placed.2⟩ ∧
      120 ≤ e.size.width ∧ e.size.height = 60 := by
  obtain ⟨e, he, hfill⟩ := h.filled (useCaseSpot {} start ⟨x, placed.2⟩ placed.1)
    (List.mem_append_left _ (List.mem_append_right _ (List.mem_map_of_mem hmem)))
  have huseCase := Scene.mem_useCases_of_shared (List.of_mem_zip hmem).1
  refine ⟨e, he, hfill.position_eq, ?_, (hfill.height_eq (h.kind_useCase _ huseCase)).2 rfl⟩
  obtain ⟨model, -, hsize⟩ := hfill.size_eq
  rw [hsize]
  exact Int.le_max_left _ _

/-- Each shared use case stands at one of the heights. -/
theorem exists_top (h : Shows scene start x report) {useCase : ElementId}
    (hmem : useCase ∈ scene.buckets.shared) :
    ∃ y ∈ scene.sharedTops {} (scene.centers {}).get?, ∃ e, report.entryOf? useCase = some e ∧
      e.position = ⟨x, y⟩ ∧ 120 ≤ e.size.width ∧ e.size.height = 60 := by
  rw [← List.map_fst_zip (Nat.le_of_eq
    (scene.length_sharedTops {} (scene.centers {}).get?).symm)] at hmem
  obtain ⟨placed, hplaced, rfl⟩ := List.mem_map.1 hmem
  exact ⟨placed.2, (List.of_mem_zip hplaced).2, h.shared hplaced⟩

/-- At each of the heights stands a shared use case. -/
theorem exists_shared (h : Shows scene start x report) {y : Int}
    (hmem : y ∈ scene.sharedTops {} (scene.centers {}).get?) :
    ∃ useCase ∈ scene.buckets.shared, ∃ e, report.entryOf? useCase = some e ∧
      e.position = ⟨x, y⟩ ∧ 120 ≤ e.size.width ∧ e.size.height = 60 := by
  rw [← List.map_snd_zip (Nat.le_of_eq
    (scene.length_sharedTops {} (scene.centers {}).get?))] at hmem
  obtain ⟨placed, hplaced, rfl⟩ := List.mem_map.1 hmem
  exact ⟨placed.1, (List.of_mem_zip hplaced).1, h.shared hplaced⟩

/-- The first of what is left stands where the rows start. -/
theorem first (h : Shows scene start x report) {element : ElementId} {rest : List ElementId}
    (htrailing : scene.trailing = element :: rest) : ∃ e, report.entryOf? element = some e ∧
      e.position.y = scene.rowsTop {} (scene.centers {}).get? := by
  have hspot : wrappedSpot {} start
      ⟨({} : UseCaseSettings).originX, scene.rowsTop {} (scene.centers {}).get?⟩ element
        ∈ scene.spots {} start (scene.centers {}).get? x := by
    refine List.mem_append_right _ ?_
    rw [htrailing]
    exact List.mem_cons_self
  obtain ⟨e, he, hfill⟩ := h.filled _ hspot
  exact ⟨e, he, congrArg Point.y hfill.position_eq⟩

theorem trailing (h : Shows scene start x report) {element : ElementId}
    (hmem : element ∈ scene.trailing) : ∃ e, report.entryOf? element = some e ∧
      scene.rowsTop {} (scene.centers {}).get? ≤ e.position.y := by
  have hspots := map_element_wrappedSpots {} start
    ⟨({} : UseCaseSettings).originX, scene.rowsTop {} (scene.centers {}).get?⟩ scene.trailing
  rw [← hspots] at hmem
  obtain ⟨spot, hspot, rfl⟩ := List.mem_map.1 hmem
  obtain ⟨e, he, hfill⟩ := h.filled spot (List.mem_append_right _ hspot)
  refine ⟨e, he, ?_⟩
  rw [hfill.position_eq]
  exact le_wrappedSpots (by decide) hspot

/-- The centers of the actors can be told from the report. -/
theorem center?_eq (h : Shows scene start x report) :
    scene.center? report = (scene.centers {}).get? := by
  funext element
  unfold Scene.center?
  split
  · next hmem =>
      obtain ⟨top, htop, rfl⟩ := Scene.exists_actorTop hmem
      obtain ⟨e, he, hy, -⟩ := h.actor htop
      rw [Scene.get?_centers htop, LayoutReport.height?, he, ← hy]
      rfl
  · next hmem => exact (Scene.get?_centers_of_not_mem hmem).symm

end Shows

end UseCases

/-! ### Imports -/

/-- Realizing relationships leaves elements their kinds. -/
theorem Relationships.kind?_realize (p : Placement Workspace) (blueprints : List Blueprint)
    {element : ElementId} {kind : ElementKind} (h : p.store.kind? element = some kind) :
    (realize p blueprints).placement.store.kind? element = some kind := by
  refine realize_induct p blueprints (motive := fun w => w.kind? element = some kind) h ?_
  intro w request b _ hw _ _ _ _
  refine (Workspace.kind?_updateElement _ _ _ fun e _ => (decoration b).kind?_apply e).trans ?_
  exact (Workspace.kind?_pushElement (by rw [hw]; rfl)).trans hw

/-- A layout leaves the declared elements their kinds. -/
theorem kind?_layout {w : Workspace} (h : w.Numbered) (diagram : DiagramId) (parsed : Parsed)
    (s : LayoutSettings) {element : ElementId} (hkind : (w.kind? element).isSome) :
    (layout w diagram parsed s).2.kind? element = w.kind? element := by
  obtain ⟨kind, hkind⟩ := Option.isSome_iff_exists.1 hkind
  obtain ⟨hrunning, -⟩ : Running w (placeAll w diagram parsed s) ∧ _ :=
    running_placeAll h diagram parsed s
  have hplaced : (placeAll w diagram parsed s).store.kind? element = w.kind? element :=
    hrunning.kind?_eq element
  rw [hkind] at hplaced ⊢
  exact Relationships.kind?_realize _ _ hplaced

namespace UseCases

theorem Scene.of_congr {w w' : Workspace} {roots : List ElementId}
    (h : ∀ e ∈ roots, w'.kind? e = w.kind? e) (blueprints : List Blueprint) :
    Scene.of w' roots blueprints = Scene.of w roots blueprints := by
  have hfilter : ∀ wanted : ElementKind → Bool, (roots.filter fun e => (w'.kind? e).any wanted)
      = roots.filter fun e => (w.kind? e).any wanted :=
    fun wanted => List.filter_congr fun e he => by rw [h e he]
  simp only [Scene.of, hfilter]

/-- What an import shows. -/
def Scene.ofImport (run : ImportOutcome × Workspace) : Scene :=
  .of run.2 run.1.parsed.uniqueElements run.1.parsed.blueprints

/-- **An import of a use case diagram shows its scene**, whatever requests made the workspace, so
long as the import parent is known. -/
theorem shows_importText {w : Workspace} (h : w.Reachable)
    (hparent : (w.element? (rootParent w)).isSome) {source : String}
    (hkind : detectDiagramKind source = .useCaseDiagram) :
    ∃ start x, Shows (.ofImport (importText w source {})) start x
      (importText w source {}).1.layout := by
  obtain ⟨diagram, opened, hdiagram, hreachable, hopened⟩ :=
    reachable_diagramForImport h hparent (detectDiagramKind source)
  obtain ⟨parsed, read, hparse⟩ :
      ∃ parsed read, parse opened (rootParent w) source = (parsed, read) := ⟨_, _, rfl⟩
  obtain ⟨hread, hdeclared⟩ := declares_parse hreachable hparse
  have hgrown := (growing_parse (Workspace.Growing.refl opened (rootParent w)) hparse).1
  have hknown : (read.diagram? diagram).isSome := by
    obtain ⟨d, hd, -⟩ := Option.map_eq_some_iff.1 hopened.kind_eq
    obtain ⟨added, hdiagrams, -⟩ := hgrown.diagrams_eq
    have hdiagrams : read.diagrams = opened.diagrams ++ added := hdiagrams
    have hkept : read.diagram? diagram = opened.diagram? diagram := by
      rw [Workspace.diagram?, hdiagrams]
      exact List.getElem?_append_left (List.getElem?_eq_some_iff.1 hd).1
    rw [hkept, hd]
    rfl
  have hparsedKind : parsed.diagramKind = .useCaseDiagram := by
    rw [← show (parse opened (rootParent w) source).1 = parsed from congrArg Prod.fst hparse,
      ← hkind]
    rfl
  obtain ⟨x, hshows⟩ := shows_layout hread.numbered hknown hparsedKind hdeclared
  have hrun := importText_eq hdiagram hparse {}
  refine ⟨read, x, ?_⟩
  rw [hrun]
  have hscene : Scene.of (layout read diagram parsed {}).2.repaint parsed.uniqueElements
      parsed.blueprints = .of read parsed.uniqueElements parsed.blueprints :=
    Scene.of_congr (fun e he => kind?_layout hread.numbered diagram parsed {} (hdeclared e he)) _
  rw [Scene.ofImport, hscene]
  exact hshows

end UseCases

end UmlText
