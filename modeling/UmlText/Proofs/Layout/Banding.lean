import Mathlib.Data.List.Pairwise
import UmlText.Proofs.Layout.Keeping
import UmlText.Proofs.Layout.Wrapping

/-!
# UmlText.Proofs.Layout.Banding

**Every actor of a use case diagram has a band of its own.** The band starts at the height of the
actor and has the block of its own use cases beside it, and the next actor stands where the band
ends (`isChain_actorTops`). So with the usual settings nothing that belongs to one actor overlaps
what belongs to another, and the shared use cases stand right of all blocks (`banded_layout`). A
refusal only leaves a place empty: the places are those of the requests, granted or not.
-/

namespace UmlText.UseCases

universe u

open BackedStore (workspace)
open Placement (Awaiting Running)

variable {σ : Type u} [ModelStore σ] [ViewStore σ] [BackedStore σ]

/-! ### Bands -/

/-- **Every actor stands where the band of the one before it ends.** -/
theorem isChain_actorTops (s : UseCaseSettings) (buckets : UseCaseBuckets) (y : Int)
    (ordered : List (ElementId × Nat)) :
    (actorTops s buckets y ordered).IsChain fun top below =>
      below.2 = top.2 + bandHeight s (buckets.exclusiveOf top.1.1).length := by
  induction ordered generalizing y with
  | nil => exact .nil
  | cons o rest ih =>
      cases rest with
      | nil => exact .singleton _
      | cons o' rest => exact (ih _).cons_cons rfl

/-- With the usual settings, one actor stands below the band of another. -/
def Above (buckets : UseCaseBuckets) (top below : (ElementId × Nat) × Int) : Prop :=
  top.2 + bandHeight {} (buckets.exclusiveOf top.1.1).length ≤ below.2

theorem pairwise_actorTops (buckets : UseCaseBuckets) (y : Int)
    (ordered : List (ElementId × Nat)) :
    (actorTops {} buckets y ordered).Pairwise (Above buckets) := by
  -- A band in between has a positive height, so bands further apart do not come closer.
  have : Trans (Above buckets) (Above buckets) (Above buckets) := ⟨fun {a b c} hab hbc => by
    have hband := actor_le_bandHeight (buckets.exclusiveOf b.1.1).length
    unfold Above at hab hbc ⊢
    omega⟩
  refine List.isChain_iff_pairwise.1 ((isChain_actorTops {} buckets y ordered).imp ?_)
  exact fun top below hbelow => Int.le_of_eq hbelow.symm

/-- An entry that is in the band of an actor. -/
structure InBand (buckets : UseCaseBuckets) (top : (ElementId × Nat) × Int) (e : LayoutEntry) :
    Prop where
  top_le : top.2 ≤ e.bounds.minY
  le_bottom : e.bounds.maxY ≤ top.2 + bandHeight {} (buckets.exclusiveOf top.1.1).length

section InBand

variable {buckets : UseCaseBuckets} {top : (ElementId × Nat) × Int} {start : Workspace}
  {e : LayoutEntry}

theorem inBand_actor (h : Fills start e (actorSpot {} top))
    (hkind : start.kind? top.1.1 = some .actor) : InBand buckets top e := by
  have hheight := (h.height_eq hkind).1 rfl
  have hband := actor_le_bandHeight (buckets.exclusiveOf top.1.1).length
  have hy : e.position.y = top.2 := congrArg Point.y h.position_eq
  constructor <;> simp only [LayoutEntry.bounds, Point.toBounds, hy, hheight] <;> omega

theorem inBand_useCase {useCase : ElementId} {index : Nat}
    (h : Fills start e (useCaseSpot {} start (blockPosition {} top.2 index) useCase))
    (hkind : start.kind? useCase = some .useCase)
    (hindex : (buckets.exclusiveOf top.1.1)[index]? = some useCase) : InBand buckets top e := by
  have hheight := (h.height_eq hkind).2 rfl
  have hrow := row_le_bandHeight (List.getElem?_eq_some_iff.1 hindex).1 top.2
  have hy : e.position.y = (blockPosition {} top.2 index).y := congrArg Point.y h.position_eq
  have htop : top.2 ≤ (blockPosition {} top.2 index).y :=
    Int.le_add_of_nonneg_right (Int.mul_nonneg (Int.natCast_nonneg _) (by decide))
  constructor <;> simp only [LayoutEntry.bounds, Point.toBounds, hy, hheight] <;> omega

/-- What is in different bands does not overlap from top to bottom. -/
theorem InBand.apart {ordered : List (ElementId × Nat)} {y : Int}
    {other : (ElementId × Nat) × Int} {e' : LayoutEntry} (h : InBand buckets top e)
    (h' : InBand buckets other e') (htop : top ∈ actorTops {} buckets y ordered)
    (hother : other ∈ actorTops {} buckets y ordered) (hne : top ≠ other) :
    e.bounds.maxY ≤ e'.bounds.minY ∨ e'.bounds.maxY ≤ e.bounds.minY := by
  have hapart : (actorTops {} buckets y ordered).Pairwise fun a b =>
      Above buckets a b ∨ Above buckets b a := (pairwise_actorTops buckets y ordered).imp Or.inl
  have : Std.Symm fun a b => Above buckets a b ∨ Above buckets b a := ⟨fun _ _ => Or.symm⟩
  rcases hapart.forall htop hother hne with habove | habove
  · exact .inl (h.le_bottom.trans (habove.trans h'.top_le))
  · exact .inr (h'.le_bottom.trans (habove.trans h.top_le))

end InBand

/-! ### Reports -/

/-- A use case diagram for which `spots` were asked for: every actor with its block beside it, and
the next actor below both. -/
structure Banded (start : Workspace) (scene : Scene) (s : UseCaseSettings) (spots : List Spot)
    (entries : List LayoutEntry) : Prop where
  /-- Everything but the packages is asked for once. -/
  elements_eq : spots.map Spot.element = scene.elements
  nodup : scene.elements.Nodup
  ordered_eq : (scene.actorTops s).map Prod.fst = scene.ordered
  first : ∀ top ∈ (scene.actorTops s).head?, top.2 = s.originY
  next : (scene.actorTops s).IsChain fun top below =>
    below.2 = top.2 + max s.minActorAdvance
      (s.rowSpacing * (max 1 (((scene.buckets.exclusiveOf top.1.1).length
        + max s.exclusiveColumns 1 - 1) / max s.exclusiveColumns 1) : Nat))
  actor_mem : ∀ top ∈ scene.actorTops s, actorSpot s top ∈ spots
  /-- The use cases of an actor stand row by row, granted or not. -/
  exclusive_mem : ∀ top ∈ scene.actorTops s, ∀ k useCase,
    (scene.buckets.exclusiveOf top.1.1)[k]? = some useCase →
      ⟨useCase, ⟨s.exclusiveX + (k % max s.exclusiveColumns 1 : Nat) * s.columnSpacing,
          top.2 + (k / max s.exclusiveColumns 1 : Nat) * s.rowSpacing⟩,
        some (s.useCaseWidth (ModelStore.nameOf start useCase))⟩ ∈ spots
  /-- What is in the report stands where it was asked for. -/
  filled : ∀ e ∈ entries, ∀ spot ∈ spots, e.element = spot.element → Fills start e spot

/-- A report in which bands do not overlap, and the shared use cases are right of all blocks. -/
structure Apart (scene : Scene) (s : UseCaseSettings) (entries : List LayoutEntry) : Prop where
  bands : ∀ a ∈ scene.actors, ∀ b ∈ scene.actors, a ≠ b →
    ∀ e ∈ entries, e.element ∈ scene.buckets.exclusiveOf a →
      ∀ e' ∈ entries, e'.element = b ∨ e'.element ∈ scene.buckets.exclusiveOf b →
        e.bounds.maxY ≤ e'.bounds.minY ∨ e'.bounds.maxY ≤ e.bounds.minY
  shared : ∀ a ∈ scene.actors, ∀ e ∈ entries, e.element ∈ scene.buckets.exclusiveOf a →
    ∀ e' ∈ entries, e'.element ∈ scene.buckets.shared →
      e.bounds.maxX + s.sharedGap ≤ e'.bounds.minX

theorem head?_actorTops {s : UseCaseSettings} {buckets : UseCaseBuckets} {y : Int}
    {ordered : List (ElementId × Nat)} {top : (ElementId × Nat) × Int}
    (h : top ∈ (actorTops s buckets y ordered).head?) : top.2 = y := by
  cases ordered with
  | nil => cases h
  | cons o rest =>
      obtain rfl := Option.mem_some.1 h
      rfl

/-- The spots of a scene have its actors and their blocks in bands. -/
theorem Scene.banded {start : Workspace} {scene : Scene} {s : UseCaseSettings}
    {centers : ElementId → Option Int} {x : Int} {entries : List LayoutEntry}
    (hnodup : scene.elements.Nodup)
    (hfilled : ∀ e ∈ entries, e.element ∈ scene.elements →
      ∃ spot ∈ scene.spots s start centers x, Fills start e spot) :
    Banded start scene s (scene.spots s start centers x) entries where
  elements_eq := scene.map_element_spots ..
  nodup := hnodup
  ordered_eq := map_fst_actorTops ..
  first _ htop := head?_actorTops htop
  next := (isChain_actorTops s scene.buckets s.originY scene.ordered).imp fun top below hnext => by
    rw [hnext, bandHeight, Int.mul_comm]
    rfl
  actor_mem _ htop := List.mem_append_left _ (List.mem_append_left _
    (Scene.actorSpot_mem_columnSpots htop))
  exclusive_mem _ htop _ _ hindex := List.mem_append_left _ (List.mem_append_left _
    (Scene.useCaseSpot_mem_columnSpots htop hindex))
  filled e he spot hspot hsame := by
    have helements := scene.map_element_spots s start centers x
    have helement : e.element ∈ scene.elements := by
      rw [hsame, ← helements]
      exact List.mem_map_of_mem hspot
    obtain ⟨filled, hmem, hfill⟩ := hfilled e he helement
    have hunique : ((scene.spots s start centers x).map Spot.element).Nodup := by rwa [helements]
    -- No other spot has the same element.
    obtain rfl := List.inj_on_of_nodup_map hunique hmem hspot (hfill.element_eq.symm.trans hsame)
    exact hfill

section Usual

variable {start : Workspace} {roots : List ElementId} {blueprints : List Blueprint}
  {spots : List Spot} {entries : List LayoutEntry}

/-- With the usual settings, what belongs to an actor is in its band. -/
theorem Banded.exists_band
    (h : Banded start (.of start roots blueprints) {} spots entries) {actor : ElementId}
    (hactor : actor ∈ (Scene.of start roots blueprints).actors) :
    ∃ top ∈ (Scene.of start roots blueprints).actorTops {}, top.1.1 = actor ∧
      ∀ e ∈ entries, e.element = actor ∨
        e.element ∈ (Scene.of start roots blueprints).buckets.exclusiveOf actor →
          InBand (Scene.of start roots blueprints).buckets top e := by
  obtain ⟨top, htop, rfl⟩ := Scene.exists_actorTop (s := {}) hactor
  refine ⟨top, htop, rfl, fun e he hbelongs => ?_⟩
  rcases hbelongs with hactor' | hexclusive
  · exact inBand_actor (h.filled e he _ (h.actor_mem top htop) hactor') (kind?_of_mem_filter hactor)
  · obtain ⟨k, hk⟩ := List.mem_iff_getElem?.1 hexclusive
    have hkind : start.kind? e.element = some .useCase :=
      kind?_of_mem_filter (Scene.mem_useCases_of_exclusive hexclusive)
    have hfill : Fills start e (useCaseSpot {} start (blockPosition {} top.2 k) e.element) :=
      h.filled e he _ (h.exclusive_mem top htop k _ hk) rfl
    exact inBand_useCase hfill hkind hk

/-- With the usual settings, a use case of a block ends on the grid, so the shared column is right of
it. -/
theorem maxX_add_sharedGap_le {e e' : LayoutEntry} {y y' : Int} {k : Nat} {useCase useCase' : ElementId}
    {right : Option Int}
    (h : Fills start e (useCaseSpot {} start (blockPosition {} y k) useCase))
    (hreaches : Reaches right e)
    (h' : Fills start e' (useCaseSpot {} start ⟨sharedX {} right, y'⟩ useCase')) :
    e.bounds.maxX + ({} : UseCaseSettings).sharedGap ≤ e'.bounds.minX := by
  have hx : 450 ≤ e.position.x := by
    rw [h.position_eq]
    exact Int.le_add_of_nonneg_right (Int.mul_nonneg (Int.natCast_nonneg _) (by decide))
  have hwidth : 120 ≤ e.size.width := by
    obtain ⟨model, -, hsize⟩ := h.size_eq
    rw [hsize]
    exact Int.le_max_left _ _
  have hlowest : Saturating.lowest < e.bounds.maxX :=
    Int.lt_of_lt_of_le (by decide : Saturating.lowest < 450 + 120) (Int.add_le_add hx hwidth)
  have hx' : e'.bounds.minX = sharedX {} right := congrArg Point.x h'.position_eq
  rw [hx']
  exact hreaches.le_sharedX hlowest {}

/-- **With the usual settings, bands are apart**, and so is the shared column from all blocks if it
is right of them. -/
theorem Banded.apart (h : Banded start (.of start roots blueprints) {} spots entries)
    {right : Option Int}
    (hreaches : ∀ actor ∈ (Scene.of start roots blueprints).actors, ∀ e ∈ entries,
      e.element ∈ (Scene.of start roots blueprints).buckets.exclusiveOf actor → Reaches right e)
    (hshared : ∀ useCase ∈ (Scene.of start roots blueprints).buckets.shared, ∃ y,
      useCaseSpot {} start ⟨sharedX {} right, y⟩ useCase ∈ spots) :
    Apart (.of start roots blueprints) {} entries where
  bands a ha b hb hne e he hexclusive e' he' hbelongs := by
    obtain ⟨top, htop, rfl, hband⟩ := h.exists_band ha
    obtain ⟨other, hother, rfl, hband'⟩ := h.exists_band hb
    exact (hband e he (.inr hexclusive)).apart (hband' e' he' hbelongs) htop hother
      fun heq => hne (by rw [heq])
  shared a ha e he hexclusive e' he' hmem := by
    obtain ⟨top, htop, rfl⟩ := Scene.exists_actorTop (s := {}) ha
    obtain ⟨k, hk⟩ := List.mem_iff_getElem?.1 hexclusive
    obtain ⟨y, hspot⟩ := hshared _ hmem
    have hfill : Fills start e (useCaseSpot {} start (blockPosition {} top.2 k) e.element) :=
      h.filled e he _ (h.exclusive_mem top htop k _ hk) rfl
    exact maxX_add_sharedGap_le hfill (hreaches _ ha e he hexclusive) (h.filled e' he' _ hspot rfl)

end Usual

/-- Every shared use case has a spot in the shared column. -/
theorem Scene.exists_sharedSpot {scene : Scene} {s : UseCaseSettings} {start : Workspace}
    {centers : ElementId → Option Int} {x : Int} {useCase : ElementId}
    (h : useCase ∈ scene.buckets.shared) :
    ∃ y, useCaseSpot s start ⟨x, y⟩ useCase ∈ scene.spots s start centers x := by
  have hshared : (sharedSpots s start x scene.buckets.shared (scene.sharedTops s centers)).map
      Spot.element = scene.buckets.shared := map_element_sharedSpots (scene.length_sharedTops s _)
  rw [← hshared] at h
  obtain ⟨spot, hspot, rfl⟩ := List.mem_map.1 h
  have hmem : spot ∈ scene.spots s start centers x :=
    List.mem_append_left _ (List.mem_append_right _ hspot)
  obtain ⟨placed, -, rfl⟩ := List.mem_map.1 hspot
  exact ⟨placed.2, hmem⟩

/-! ### Runs -/

/-- The actors of a scene and their own use cases come before everything else. -/
theorem Scene.mem_column {scene : Scene} {actor useCase : ElementId} (hactor : actor ∈ scene.actors)
    (h : useCase ∈ scene.buckets.exclusiveOf actor) :
    useCase ∈ scene.ordered.flatMap fun o => o.1 :: scene.buckets.exclusiveOf o.1 := by
  obtain ⟨top, htop, rfl⟩ := Scene.exists_actorTop (s := {}) hactor
  have hordered : top.1 ∈ scene.ordered := by
    rw [← map_fst_actorTops {} scene.buckets ({} : UseCaseSettings).originY scene.ordered]
    exact List.mem_map_of_mem htop
  exact List.mem_flatMap.2 ⟨top.1, hordered, List.mem_cons_of_mem _ h⟩

/-- **A use case layout asks for everything at the spots of a scene**, with the shared column right
of all blocks as far as they were placed. -/
theorem arrange_reaches {start : Workspace} {p : Placement σ} {roots : List ElementId}
    {blueprints : List Blueprint} (s : UseCaseSettings)
    (h : Awaiting start p (Scene.of start roots blueprints).elements)
    (hpackages : ∀ e ∈ p.entries, start.kind? e.element = some .package) :
    let scene := Scene.of start roots blueprints
    ∃ centers right,
      arrange p roots blueprints s = p.placeSpots (scene.spots s start centers (sharedX s right)) ∧
      ∀ actor ∈ scene.actors, ∀ e ∈ (arrange p roots blueprints s).entries,
        e.element ∈ scene.buckets.exclusiveOf actor → Reaches right e := by
  intro scene
  let column := columnSpots s start scene.buckets s.originY scene.ordered
  obtain ⟨centers, right, hwidens, harrange⟩ : ∃ centers right,
      Widens p (p.placeSpots column) none right (scene.ordered.map Prod.fst) ∧
        arrange p roots blueprints s
          = p.placeSpots (scene.spots s start centers (sharedX s right)) :=
    ⟨_, arrange_eq_placeSpots s h⟩
  refine ⟨centers, right, harrange, fun actor hactor e he hexclusive => ?_⟩
  have hkind : start.kind? e.element = some .useCase :=
    kind?_of_mem_filter (Scene.mem_useCases_of_exclusive hexclusive)
  have hcolumn : e ∈ (p.placeSpots column).entries := by
    rw [← scene.map_element_spots s start centers (sharedX s right), Scene.spots,
      List.append_assoc] at h
    rw [harrange, Scene.spots, List.append_assoc] at he
    refine h.mem_of_append he ?_
    rw [map_element_columnSpots]
    exact Scene.mem_column hactor hexclusive
  rcases hwidens.reaches e hcolumn with hopened | hordered | hreaches
  · simp [hpackages e hopened] at hkind
  · have hactor : e.element ∈ scene.actors :=
      List.mem_eraseDups.1 ((orderActors_perm scene.actors blueprints).mem_iff.1 hordered)
    simp [kind?_of_mem_filter hactor] at hkind
  · exact hreaches

end UmlText.UseCases

namespace UmlText.Staged

universe u

open BackedStore (workspace)
open Placement (Awaiting)
open UseCases

variable {σ : Type u} [ModelStore σ] [ViewStore σ] [BackedStore σ] {store : σ}
  {diagram : DiagramId} {parsed : Parsed} {s : LayoutSettings} {es : List LayoutEntry}

/-- The scene of a text has all that was declared but packages. -/
theorem perm_elements (h : Staged store diagram parsed s es) :
    (Scene.of (workspace store) parsed.uniqueElements parsed.blueprints).elements.Perm
      (parsed.uniqueElements.filter fun e => ((workspace store).kind? e).any (· ≠ .package)) :=
  Scene.perm_elements h.opened.running (nodup_eraseDups _) parsed.blueprints

/-- Once the packages are opened, all of that awaits its place. -/
theorem awaiting_elements (h : Staged store diagram parsed s es) :
    Awaiting (workspace store) (openedFor store diagram parsed)
      (Scene.of (workspace store) parsed.uniqueElements parsed.blueprints).elements :=
  h.opened.awaiting (nodup_eraseDups _) h.perm_elements

theorem kind_ne_package (h : Staged store diagram parsed s es) {element : ElementId}
    (helement : element ∈
      (Scene.of (workspace store) parsed.uniqueElements parsed.blueprints).elements) :
    (workspace store).kind? element ≠ some .package := by
  intro hpackage
  have hother := (List.mem_filter.1 (h.perm_elements.mem_iff.1 helement)).2
  simp [hpackage] at hother

/-- What the strategy has placed is a declared element that is no package, and fills a spot. -/
theorem exists_spot (h : Staged store diagram parsed s es) {e : LayoutEntry} (he : e ∈ es) :
    e.element ∈ parsed.uniqueElements.filter
        (fun e => ((workspace store).kind? e).any (· ≠ .package)) ∧
      ∃ spot, Fills (workspace store) e spot := by
  obtain ⟨elements, htries, hawaiting, hperm⟩ :=
    h.opened.tries_strategy (Strategy.ofDiagram parsed.diagramKind) s
  obtain ⟨spot, hspot, hfill⟩ := (hawaiting.fills_tries htries (h.mem_arrangedFor he)).resolve_left
    (h.not_mem_openedFor he)
  exact ⟨hfill.element_eq ▸ hperm.mem_iff.1 hspot, spot, hfill⟩

/-- What the report has of a scene is as it was placed. -/
theorem mem_arranged (h : Staged store diagram parsed s es) {e : LayoutEntry}
    (he : e ∈ (layout store diagram parsed s).1.entries)
    (helement : e.element ∈
      (Scene.of (workspace store) parsed.uniqueElements parsed.blueprints).elements) :
    e ∈ (arrangedFor store diagram parsed s).entries := by
  rw [entries_layout] at he
  exact h.intact.mem_of_mem he (h.kind_ne_package helement)

/-- A use case diagram asks for everything at the spots of its scene. -/
theorem arranged_reaches (h : Staged store diagram parsed s es)
    (hkind : parsed.diagramKind = .useCaseDiagram) :
    let scene := Scene.of (workspace store) parsed.uniqueElements parsed.blueprints
    ∃ centers right,
      arrangedFor store diagram parsed s = (openedFor store diagram parsed).placeSpots
        (scene.spots s.useCase (workspace store) centers (sharedX s.useCase right)) ∧
      ∀ actor ∈ scene.actors, ∀ e ∈ (arrangedFor store diagram parsed s).entries,
        e.element ∈ scene.buckets.exclusiveOf actor → Reaches right e := by
  have harranged : arrangedFor store diagram parsed s = arrange (openedFor store diagram parsed)
      parsed.uniqueElements parsed.blueprints s.useCase := by
    simp only [arrangedFor, hkind, Strategy.ofDiagram, Strategy.arrange]
  rw [harranged]
  exact arrange_reaches s.useCase h.awaiting_elements h.settles.kind_of_opened

/-- What the report has of a scene fills a spot that was asked for. -/
theorem exists_fills (h : Staged store diagram parsed s es) {centers : ElementId → Option Int}
    {x : Int} (hspots : arrangedFor store diagram parsed s
      = (openedFor store diagram parsed).placeSpots
        ((Scene.of (workspace store) parsed.uniqueElements parsed.blueprints).spots s.useCase
          (workspace store) centers x)) {e : LayoutEntry}
    (he : e ∈ (layout store diagram parsed s).1.entries)
    (helement : e.element ∈
      (Scene.of (workspace store) parsed.uniqueElements parsed.blueprints).elements) :
    ∃ spot ∈ (Scene.of (workspace store) parsed.uniqueElements parsed.blueprints).spots s.useCase
      (workspace store) centers x, Fills (workspace store) e spot := by
  have hmem := h.mem_arranged he helement
  rw [hspots] at hmem
  have hawaiting := h.awaiting_elements
  rw [← Scene.map_element_spots _ s.useCase (workspace store) centers x] at hawaiting
  refine (hawaiting.fills_of_mem hmem).resolve_left fun hopened => ?_
  exact h.kind_ne_package helement (h.settles.kind_of_opened e hopened)

end UmlText.Staged

namespace UmlText.UseCases

universe u

open BackedStore (workspace)

variable {σ : Type u} [ModelStore σ] [ViewStore σ] [BackedStore σ]

/-- **Blocks follow the closed form and keep to their bands.** Whatever the store refuses and
whatever the settings are: a use case diagram asks for everything at spots that are known in
advance, and what is in the report of the layout stands there. With the usual settings, nothing that
belongs to one actor overlaps what belongs to another, and the shared use cases are right of all
others that belong to an actor. -/
theorem banded_layout (store : σ) (h : (workspace store).Reachable) (diagram : DiagramId)
    (parsed : Parsed) (hkind : parsed.diagramKind = .useCaseDiagram) (s : LayoutSettings) :
    let scene := Scene.of (workspace store) parsed.uniqueElements parsed.blueprints
    ∃ spots,
      arrangedFor store diagram parsed s = (openedFor store diagram parsed).placeSpots spots ∧
      Banded (workspace store) scene s.useCase spots (layout store diagram parsed s).1.entries ∧
      (s.useCase = {} → Apart scene s.useCase (layout store diagram parsed s).1.entries) := by
  intro scene
  obtain ⟨es, hstaged⟩ := exists_staged store h.numbered diagram parsed s
  obtain ⟨centers, right, hspots, hreaches⟩ := hstaged.arranged_reaches hkind
  have hnodup : scene.elements.Nodup :=
    hstaged.perm_elements.nodup_iff.2 ((nodup_eraseDups _).filter _)
  have hbanded : Banded (workspace store) scene s.useCase
      (scene.spots s.useCase (workspace store) centers (sharedX s.useCase right))
      (layout store diagram parsed s).1.entries :=
    Scene.banded hnodup fun e he helement => hstaged.exists_fills hspots he helement
  refine ⟨_, hspots, hbanded, fun husual => ?_⟩
  rw [husual] at hbanded ⊢
  refine hbanded.apart (fun actor hactor e he hexclusive => ?_)
    fun useCase hshared => Scene.exists_sharedSpot hshared
  have helement : e.element ∈ scene.elements := List.mem_append_left _
    (List.mem_append_left _ (Scene.mem_column hactor hexclusive))
  exact hreaches actor hactor e (hstaged.mem_arranged he helement) hexclusive

/-- Two actors, one of them with three use cases of its own, and one use case that they share. -/
def bandedText : String :=
  "actor A\nactor B\nusecase U\nusecase V\nusecase W\n" ++
    "usecase ReconcileOutstandingInvoicesOfTheMonth\nusecase S\n" ++
    "A -- U\nA -- V\nA -- W\nB -- ReconcileOutstandingInvoicesOfTheMonth\nA -- S\nB -- S"

/-- The block of the first actor has two rows, so the second actor stands further down than usual.
The place of a use case that is refused stays empty, and the shared column makes way for a long
name. -/
theorem banded_bandedText :
    ∃ (parsed : Parsed) (read h : Host) (scene : Scene),
      parse (Host.mk
        ((Workspace.new "Model").after (.createDiagram .useCaseDiagram Workspace.root)) {})
        Workspace.root bandedText = (parsed, read) ∧
      h = { read with policy := ({ views := ["V"] } : Refusals).policy } ∧
      scene = .of h.workspace parsed.uniqueElements parsed.blueprints ∧
      (parsed.diagramKind = .useCaseDiagram ∧ h.workspace.Reachable) ∧
      scene.buckets.exclusive.entries = [(⟨1⟩, [⟨3⟩, ⟨4⟩, ⟨5⟩]), (⟨2⟩, [⟨6⟩])] ∧
      scene.buckets.shared = [⟨7⟩] ∧
      (layout h ⟨0⟩ parsed {}).1.entries.map (fun e => (e.element, e.bounds))
        = [(⟨1⟩, ⟨100, 100, 140, 180⟩), (⟨3⟩, ⟨450, 100, 570, 160⟩), (⟨5⟩, ⟨450, 250, 570, 310⟩),
          (⟨2⟩, ⟨100, 400, 140, 480⟩), (⟨6⟩, ⟨450, 400, 784, 460⟩),
          (⟨7⟩, ⟨834, 290, 954, 350⟩)] ∧
      ∃ spots, arrangedFor h ⟨0⟩ parsed {} = (openedFor h ⟨0⟩ parsed).placeSpots spots ∧
        Banded h.workspace scene {} spots (layout h ⟨0⟩ parsed {}).1.entries ∧
        Apart scene {} (layout h ⟨0⟩ parsed {}).1.entries := by
  obtain ⟨parsed, read, hparse, hread⟩ := exists_parse_new .useCaseDiagram bandedText
  let h : Host := { read with policy := ({ views := ["V"] } : Refusals).policy }
  obtain ⟨hkind, hflat, hexclusive, hshared⟩ : parsed.diagramKind = .useCaseDiagram ∧
      (∀ b ∈ parsed.blueprints, b.kind ≠ .generalization) ∧
      (Scene.of h.workspace parsed.uniqueElements parsed.blueprints).buckets.exclusive.entries
        = [(⟨1⟩, [⟨3⟩, ⟨4⟩, ⟨5⟩]), (⟨2⟩, [⟨6⟩])] ∧
      (Scene.of h.workspace parsed.uniqueElements parsed.blueprints).buckets.shared = [⟨7⟩] := by
    obtain ⟨rfl, rfl⟩ := Prod.mk.inj hparse
    decide +kernel
  obtain ⟨spots, hspots, hbanded, hapart⟩ := banded_layout h hread ⟨0⟩ parsed hkind {}
  refine ⟨parsed, read, h, _, hparse, rfl, rfl, ⟨hkind, hread⟩, hexclusive, hshared, ?_, spots,
    hspots, hbanded, hapart rfl⟩
  simp only [layout, placeAll, Strategy.arrange, arrange, Packages.openViews_eq_insertionSort,
    orderActors_of_flat _ _ hflat]
  obtain ⟨rfl, rfl⟩ := Prod.mk.inj hparse
  decide +kernel

end UmlText.UseCases
