import Mathlib.Tactic.Ring
import UmlText.Proofs.Layout.Spots

/-!
# UmlText.Proofs.Layout.Columns

**Where a use case diagram has its elements.** The cursors of the use case layout run over the same
places whatever the store grants, so what is asked for can be told in advance: the actors stand in
bands one below the other, each with the block of its own use cases (`columnSpots`), the shared use
cases at heights that follow from the centers of the actors (`sharedSpots`), and the rest in rows
(`wrappedSpots`). The whole arrangement places elements at these spots (`arrange_eq_placeSpots`).
Only how far right the shared column is depends on what was granted: it is past all blocks
(`Widens`).
-/

namespace UmlText.UseCases

universe u

open Placement (Awaiting Running)

variable {σ : Type u} [ModelStore σ] [ViewStore σ] [BackedStore σ]

/-! ### How far the column reaches -/

/-- An entry ends at the edge `right` or further left, unless it ends on the left border of the
grid. -/
def Reaches (right : Option Int) (e : LayoutEntry) : Prop :=
  Saturating.lowest < e.bounds.maxX → ∃ r ∈ right, e.bounds.maxX ≤ r

theorem reaches_furthest (right : Option Int) (e : LayoutEntry) :
    Reaches (furthest right e.bounds.maxX) e := by
  intro hlt
  rw [furthest, if_neg (Int.not_le.2 hlt)]
  refine ⟨_, rfl, ?_⟩
  cases right with
  | none => exact Int.le_refl _
  | some r => exact Int.le_max_right _ _

theorem Reaches.furthest {right : Option Int} {e : LayoutEntry} (h : Reaches right e) (x : Int) :
    Reaches (furthest right x) e := by
  intro hlt
  obtain ⟨r, hr, hle⟩ := h hlt
  obtain rfl := Option.mem_def.1 hr
  unfold UseCases.furthest
  split
  · exact ⟨r, rfl, hle⟩
  · exact ⟨max r x, rfl, Int.le_trans hle (Int.le_max_left _ _)⟩

/-- The edge goes to where something ends. -/
theorem mem_furthest {right : Option Int} {x r : Int} (h : r ∈ furthest right x) :
    r ∈ right ∨ r = x := by
  unfold furthest at h
  split at h
  · exact .inl h
  · cases right with
    | none => exact .inr (Option.some.inj h).symm
    | some edge =>
        obtain rfl := Option.some.inj h
        rcases Int.le_total edge x with hle | hle
        · exact .inr (Int.max_eq_right hle)
        · exact .inl (congrArg some (Int.max_eq_left hle).symm)

/-- The shared column is right of everything that the edge tells of. -/
theorem Reaches.le_sharedX {right : Option Int} {e : LayoutEntry} (h : Reaches right e)
    (hlt : Saturating.lowest < e.bounds.maxX) (s : UseCaseSettings) :
    e.bounds.maxX + s.sharedGap ≤ sharedX s right := by
  obtain ⟨r, hr, hle⟩ := h hlt
  obtain rfl := Option.mem_def.1 hr
  exact Int.le_trans (Int.add_le_add_right hle _) (Int.le_max_right _ _)

/-- From `p` to `q` the edge goes on to the right, past all that was placed but the actors. -/
structure Widens (p q : Placement σ) (right right' : Option Int) (actors : List ElementId) :
    Prop where
  mono : ∀ e, Reaches right e → Reaches right' e
  reaches : ∀ e ∈ q.entries, e ∈ p.entries ∨ e.element ∈ actors ∨ Reaches right' e
  /-- The edge is where something ends that was added. -/
  attained : ∃ es, q.entries = p.entries ++ es ∧
    ∀ r ∈ right', r ∈ right ∨ ∃ e ∈ es, e.bounds.maxX = r

omit [ModelStore σ] [BackedStore σ] in
/-- What adds nothing leaves the edge as it is. -/
theorem Widens.of_entries_eq {p q : Placement σ} (h : q.entries = p.entries)
    (right : Option Int) : Widens p q right right [] :=
  ⟨fun _ h => h, fun _ he => .inl (h ▸ he), [], h.trans (List.append_nil _).symm,
    fun _ hr => .inl hr⟩

omit [ModelStore σ] [BackedStore σ] in
theorem Widens.trans {p q q' : Placement σ} {right right' right'' : Option Int}
    {actors actors' : List ElementId} (h : Widens p q right right' actors)
    (h' : Widens q q' right' right'' actors') :
    Widens p q' right right'' (actors ++ actors') where
  mono e he := h'.mono e (h.mono e he)
  reaches e he := by
    rcases h'.reaches e he with he | he | he
    · rcases h.reaches e he with he | he | he
      · exact .inl he
      · exact .inr (.inl (List.mem_append_left _ he))
      · exact .inr (.inr (h'.mono e he))
    · exact .inr (.inl (List.mem_append_right _ he))
    · exact .inr (.inr he)
  attained := by
    obtain ⟨es, hentries, hright⟩ := h.attained
    obtain ⟨es', hentries', hright'⟩ := h'.attained
    refine ⟨es ++ es', by rw [hentries', hentries, List.append_assoc], fun r hr => ?_⟩
    rcases hright' r hr with hr | ⟨e, he, hend⟩
    · rcases hright r hr with hr | ⟨e, he, hend⟩
      · exact .inl hr
      · exact .inr ⟨e, List.mem_append_left _ he, hend⟩
    · exact .inr ⟨e, List.mem_append_right _ he, hend⟩

/-- An actor does not count. -/
theorem widens_placeSpot {start : Workspace} {p : Placement σ} {spot : Spot}
    {rest : List ElementId} (h : Awaiting start p (spot.element :: rest)) (right : Option Int) :
    Widens p (p.placeSpot spot) right right [spot.element] where
  mono _ he := he
  reaches e he := by
    rcases h.fills_place with ⟨-, hsame⟩ | ⟨new, -, hentries, hfill⟩
    · exact .inl (hsame ▸ he)
    · rw [hentries, List.mem_append, List.mem_singleton] at he
      refine he.imp id fun hnew => .inl ?_
      rw [hnew, hfill.element_eq]
      exact List.mem_singleton_self _
  attained := by
    rcases h.fills_place with ⟨-, hsame⟩ | ⟨new, -, hentries, -⟩
    · exact ⟨[], hsame.trans (List.append_nil _).symm, fun _ hr => .inl hr⟩
    · exact ⟨[new], hentries, fun _ hr => .inl hr⟩

/-! ### Blocks -/

/-- The number of columns of a block. -/
def blockColumns (s : UseCaseSettings) : Nat := max s.exclusiveColumns 1

/-- The place of use case number `index` in a block that starts at height `y`. -/
def blockPosition (s : UseCaseSettings) (y : Int) (index : Nat) : Point :=
  ⟨s.exclusiveX + (index % blockColumns s : Nat) * s.columnSpacing,
    y + (index / blockColumns s : Nat) * s.rowSpacing⟩

/-- The spot of a use case. -/
def useCaseSpot (s : UseCaseSettings) (start : Workspace) (position : Point)
    (useCase : ElementId) : Spot :=
  ⟨useCase, position, some (s.useCaseWidth (ModelStore.nameOf start useCase))⟩

/-- The spots of a block, numbered from `index` on. -/
def blockSpots (s : UseCaseSettings) (start : Workspace) (y : Int) (index : Nat)
    (block : List ElementId) : List Spot :=
  (block.zipIdx index).map fun numbered =>
    useCaseSpot s start (blockPosition s y numbered.2) numbered.1

/-- The number of rows of a block, at least one. -/
def blockRows (s : UseCaseSettings) (size : Nat) : Nat :=
  max 1 ((size + blockColumns s - 1) / blockColumns s)

theorem blockColumns_pos (s : UseCaseSettings) : 0 < blockColumns s :=
  Nat.lt_of_lt_of_le Nat.zero_lt_one (Nat.le_max_right _ _)

/-- The cursor of a block of `total` use cases that starts at height `y`, before use case number
`index` is placed. Behind the last one only the height of the full rows matters. -/
structure AtIndex (s : UseCaseSettings) (y : Int) (total index : Nat) (c : BlockCursor) :
    Prop where
  position_eq : index < total → (⟨c.x, c.y⟩ : Point) = blockPosition s y index
  offset_eq : c.offset = (min index (total - 1) / blockColumns s : Nat) * s.rowSpacing

theorem atIndex_zero (s : UseCaseSettings) (y : Int) (total : Nat) :
    AtIndex s y total 0 ⟨s.exclusiveX, y, 0⟩ where
  position_eq _ := by simp [blockPosition]
  offset_eq := by simp

/-- Behind a place comes the next one of its row, or the first one of the next row. -/
theorem next_place {columns : Nat} (h : 0 < columns) (index : Nat) :
    ((index + 1) / columns = index / columns + 1 ∧ (index + 1) % columns = 0) ∨
      ((index + 1) / columns = index / columns ∧
        (index + 1) % columns = index % columns + 1 ∧ (index + 1) % columns ≠ 0) := by
  have hindex := Nat.div_add_mod index columns
  have hlt := Nat.mod_lt index h
  by_cases hfull : index % columns + 1 = columns
  · refine .inl ((Nat.div_mod_unique h).2 ⟨?_, h⟩)
    rw [Nat.mul_add]
    omega
  · obtain ⟨hdiv, hmod⟩ := (Nat.div_mod_unique (a := index + 1) (d := index / columns)
      (c := index % columns + 1) h).2 ⟨by omega, by omega⟩
    exact .inr ⟨hdiv, hmod, by omega⟩

/-- The cursor moves on to the next place, or stays in its row behind the last one. -/
theorem AtIndex.next {s : UseCaseSettings} {y : Int} {total index : Nat} {c : BlockCursor}
    (h : AtIndex s y total index c) (hindex : index < total) :
    AtIndex s y total (index + 1) (c.next s total index) := by
  obtain ⟨hx, hy⟩ := Point.mk.inj (h.position_eq hindex)
  have hoffset := h.offset_eq
  rw [Nat.min_eq_left (by omega)] at hoffset
  change AtIndex s y total (index + 1)
    (if (index + 1) % blockColumns s = 0 ∧ index + 1 < total then
      ⟨s.exclusiveX, c.y + s.rowSpacing, c.offset + s.rowSpacing⟩
    else { c with x := c.x + s.columnSpacing })
  by_cases hlast : index + 1 < total
  · have hmin : min (index + 1) (total - 1) = index + 1 := Nat.min_eq_left (by omega)
    rcases next_place (blockColumns_pos s) index with ⟨hdiv, hmod⟩ | ⟨hdiv, hmod, hne⟩
    · rw [if_pos ⟨hmod, hlast⟩]
      refine ⟨fun _ => ?_, ?_⟩
      · rw [blockPosition, hmod, hdiv, hy]
        simp only [Point.mk.injEq]
        push_cast
        constructor <;> ring
      · rw [hmin, hdiv, hoffset]
        push_cast
        ring
    · rw [if_neg fun hfull => hne hfull.1]
      refine ⟨fun _ => ?_, ?_⟩
      · rw [blockPosition, hmod, hdiv, hx, hy]
        congr 1
        push_cast
        ring
      · rw [hmin, hdiv, hoffset]
  · rw [if_neg fun hfull => hlast hfull.2]
    have hmin : min (index + 1) (total - 1) = index := by omega
    exact ⟨fun h => absurd h hlast, by rw [hmin]; exact hoffset⟩

/-- **One use case** of a block is placed where the cursor is. -/
theorem placeExclusive_eq {start : Workspace} {p : Placement σ} {useCase : ElementId}
    {rest : List ElementId} (h : Awaiting start p (useCase :: rest)) (s : UseCaseSettings)
    (total index : Nat) (cursor : BlockCursor) (right : Option Int) :
    ∃ right', placeExclusive s total (p, right, cursor) (useCase, index)
        = (p.placeSpot (useCaseSpot s start ⟨cursor.x, cursor.y⟩ useCase), right',
          cursor.next s total index) ∧
      Widens p (p.placeSpot (useCaseSpot s start ⟨cursor.x, cursor.y⟩ useCase)) right right' [] := by
  let spot := useCaseSpot s start ⟨cursor.x, cursor.y⟩ useCase
  have hspot : Awaiting start p (spot.element :: rest) := h
  rcases hspot.fills_place with ⟨hnone, hsame⟩ | ⟨e, hview, hentries, -⟩
  · have hplace : p.place useCase ⟨cursor.x, cursor.y⟩
        (some (s.useCaseWidth (ModelStore.nameOf start useCase))) = (none, p.placeSpot spot) :=
      Prod.ext hnone rfl
    refine ⟨right, ?_, .of_entries_eq hsame right⟩
    simp only [placeExclusive, h.running.nameOf_eq, hplace, Option.bind_none]
    rfl
  · have hplace : p.place useCase ⟨cursor.x, cursor.y⟩
        (some (s.useCaseWidth (ModelStore.nameOf start useCase)))
          = (some e.view, p.placeSpot spot) :=
      Prod.ext hview rfl
    have hbounds : (p.placeSpot spot).boundsOf? e.view = some e.bounds :=
      Placement.boundsOf?_eq (by rw [hentries]; simp)
    refine ⟨furthest right e.bounds.maxX, ?_, fun _ he => he.furthest _, fun e' he' => ?_,
      [e], hentries, fun r hr => ?_⟩
    · simp only [placeExclusive, h.running.nameOf_eq, hplace, Option.bind_some, hbounds]
      rfl
    · rw [hentries, List.mem_append, List.mem_singleton] at he'
      rcases he' with he' | rfl
      · exact .inl he'
      · exact .inr (.inr (reaches_furthest right e'))
    · exact (mem_furthest hr).imp_right fun hend => ⟨e, List.mem_singleton_self e, hend.symm⟩

/-- **A block** is placed at its spots, and the cursor ends in its last row. -/
theorem foldl_placeExclusive {start : Workspace} {p : Placement σ} {s : UseCaseSettings} {y : Int}
    {total index : Nat} {block : List ElementId} {cursor : BlockCursor}
    (h : Awaiting start p block) (hcursor : AtIndex s y total index cursor)
    (htotal : index + block.length = total) (right : Option Int) :
    ∃ right' cursor', (block.zipIdx index).foldl (placeExclusive s total) (p, right, cursor)
        = (p.placeSpots (blockSpots s start y index block), right', cursor') ∧
      AtIndex s y total total cursor' ∧
      Widens p (p.placeSpots (blockSpots s start y index block)) right right' [] := by
  induction block generalizing p index cursor right with
  | nil =>
      obtain rfl : index = total := htotal
      exact ⟨right, cursor, rfl, hcursor, .of_entries_eq rfl right⟩
  | cons useCase rest ih =>
      have hindex : index < total := by
        rw [List.length_cons] at htotal
        omega
      obtain ⟨next, hstep, hwidens⟩ := placeExclusive_eq h s total index cursor right
      rw [hcursor.position_eq hindex] at hstep hwidens
      have hrest : Awaiting start
          (p.placeSpot (useCaseSpot s start (blockPosition s y index) useCase)) rest :=
        h.place _ _
      obtain ⟨right', cursor', hfold, hend, hwidens'⟩ := ih hrest (hcursor.next hindex)
        (by rw [← htotal, List.length_cons]; omega) next
      rw [List.zipIdx_cons, List.foldl_cons, hstep]
      exact ⟨right', cursor', hfold, hend, hwidens.trans hwidens'⟩

/-! ### The column of actors -/

/-- How far the next actor stands below one with `size` use cases of its own. -/
def bandHeight (s : UseCaseSettings) (size : Nat) : Int :=
  max s.minActorAdvance (blockRows s size * s.rowSpacing)

/-- The actors of a column, each with its height. -/
def actorTops (s : UseCaseSettings) (buckets : UseCaseBuckets) (y : Int) :
    List (ElementId × Nat) → List ((ElementId × Nat) × Int)
  | [] => []
  | ordered :: rest =>
    (ordered, y) ::
      actorTops s buckets (y + bandHeight s (buckets.exclusiveOf ordered.1).length) rest

/-- Where a column of actors ends that starts at `y`. -/
def columnEnd (s : UseCaseSettings) (buckets : UseCaseBuckets) (y : Int)
    (ordered : List (ElementId × Nat)) : Int :=
  y + (ordered.map fun o => bandHeight s (buckets.exclusiveOf o.1).length).sum

theorem map_fst_actorTops (s : UseCaseSettings) (buckets : UseCaseBuckets) (y : Int)
    (ordered : List (ElementId × Nat)) :
    (actorTops s buckets y ordered).map Prod.fst = ordered := by
  induction ordered generalizing y with
  | nil => rfl
  | cons o rest ih => exact congrArg (o :: ·) (ih _)

/-- The spot of an actor, indented by its depth. -/
def actorSpot (s : UseCaseSettings) (top : (ElementId × Nat) × Int) : Spot :=
  let indent := Saturating.mul s.depthIndent (Saturating.ofNat top.1.2 Saturating.highest)
  ⟨top.1.1, ⟨Saturating.add s.originX indent, top.2⟩, none⟩

/-- The spots of an actor and its own use cases. -/
def bandSpots (s : UseCaseSettings) (start : Workspace) (buckets : UseCaseBuckets)
    (top : (ElementId × Nat) × Int) : List Spot :=
  actorSpot s top :: blockSpots s start top.2 0 (buckets.exclusiveOf top.1.1)

/-- The spots of a column of actors. -/
def columnSpots (s : UseCaseSettings) (start : Workspace) (buckets : UseCaseBuckets) (y : Int)
    (ordered : List (ElementId × Nat)) : List Spot :=
  (actorTops s buckets y ordered).flatMap (bandSpots s start buckets)

/-- The centers of those actors that have a view. -/
def centersOf (s : UseCaseSettings) (p : Placement σ) (tops : List ((ElementId × Nat) × Int)) :
    List (ElementId × Int) :=
  (tops.filter fun top => (p.viewOf? top.1.1).isSome).map fun top =>
    (top.1.1, top.2 + s.actorCenterOffset)

omit [ModelStore σ] [ViewStore σ] [BackedStore σ] in
theorem centersOf_cons (s : UseCaseSettings) (p : Placement σ) (top : (ElementId × Nat) × Int)
    (tops : List ((ElementId × Nat) × Int)) :
    centersOf s p (top :: tops) = centersOf s p [top] ++ centersOf s p tops := by
  rw [centersOf, centersOf, centersOf, ← List.map_append, ← List.filter_append]
  rfl

omit [ModelStore σ] [ViewStore σ] [BackedStore σ] in
theorem centersOf_congr {s : UseCaseSettings} {p q : Placement σ}
    {tops : List ((ElementId × Nat) × Int)}
    (h : ∀ top ∈ tops, q.viewOf? top.1.1 = p.viewOf? top.1.1) :
    centersOf s q tops = centersOf s p tops :=
  congrArg (List.map _) (List.filter_congr fun top htop => by rw [h top htop])

theorem map_element_blockSpots (s : UseCaseSettings) (start : Workspace) (y : Int) (index : Nat)
    (block : List ElementId) : (blockSpots s start y index block).map Spot.element = block := by
  rw [blockSpots, List.map_map]
  exact List.zipIdx_map_fst index block

theorem map_element_columnSpots (s : UseCaseSettings) (start : Workspace)
    (buckets : UseCaseBuckets) (y : Int) (ordered : List (ElementId × Nat)) :
    (columnSpots s start buckets y ordered).map Spot.element
      = ordered.flatMap fun o => o.1 :: buckets.exclusiveOf o.1 := by
  induction ordered generalizing y with
  | nil => rfl
  | cons o rest ih =>
      rw [columnSpots, actorTops, List.flatMap_cons, List.map_append, List.flatMap_cons, bandSpots,
        List.map_cons, map_element_blockSpots]
      exact congrArg _ (ih _)

/-- The rows above the last one and the last one are all the rows of a block. -/
theorem offset_add_rowSpacing (s : UseCaseSettings) (size : Nat) :
    (min size (size - 1) / blockColumns s : Nat) * s.rowSpacing + s.rowSpacing
      = blockRows s size * s.rowSpacing := by
  have hpos := blockColumns_pos s
  have hrows : blockRows s size = min size (size - 1) / blockColumns s + 1 := by
    unfold blockRows
    cases size with
    | zero =>
        rw [Nat.zero_add, Nat.zero_min, Nat.div_eq_of_lt (by omega), Nat.zero_div]
        rfl
    | succ n =>
        have hlast : n + 1 + blockColumns s - 1 = n + blockColumns s := by omega
        have hmin : min (n + 1) (n + 1 - 1) = n := by omega
        rw [hlast, hmin, Nat.add_div_right _ hpos]
        exact Nat.max_eq_right (Nat.succ_le_succ (Nat.zero_le _))
  rw [hrows]
  push_cast
  ring

/-- **One actor** is placed with its block, and the next one goes below its band. -/
theorem placeActor_eq {start : Workspace} {s : UseCaseSettings} {buckets : UseCaseBuckets}
    {column : ActorColumn σ} {ordered : ElementId × Nat}
    (h : Awaiting start column.placement (ordered.1 :: buckets.exclusiveOf ordered.1)) :
    (placeActor s buckets column ordered).placement
        = column.placement.placeSpots (bandSpots s start buckets (ordered, column.y)) ∧
      (placeActor s buckets column ordered).y
        = column.y + bandHeight s (buckets.exclusiveOf ordered.1).length ∧
      (placeActor s buckets column ordered).centers
        = column.centers.fill
          (centersOf s (column.placement.placeSpots (bandSpots s start buckets (ordered, column.y)))
            [(ordered, column.y)]) ∧
      Widens column.placement (placeActor s buckets column ordered).placement column.right
        (placeActor s buckets column ordered).right [ordered.1] := by
  let spot := actorSpot s (ordered, column.y)
  let block := buckets.exclusiveOf ordered.1
  let run := block.zipIdx.foldl (placeExclusive s block.length)
    (column.placement.placeSpot spot, column.right, ⟨s.exclusiveX, column.y, 0⟩)
  have heq : placeActor s buckets column ordered =
      { placement := run.1
        y := column.y + max s.minActorAdvance (run.2.2.offset + s.rowSpacing)
        centers :=
          if (column.placement.place spot.element spot.position spot.width).1.isSome then
            column.centers.insert ordered.1 (column.y + s.actorCenterOffset)
          else column.centers
        right := run.2.1 } := rfl
  have hactor : Awaiting start column.placement (spot.element :: block) := h
  have hblock : Awaiting start (column.placement.placeSpot spot) block := h.place _ _
  obtain ⟨right, cursor, hrun, hcursor, hwidens⟩ := foldl_placeExclusive hblock
    (atIndex_zero s column.y block.length) (Nat.zero_add _) column.right
  have hrun : run = (column.placement.placeSpots (bandSpots s start buckets (ordered, column.y)),
      right, cursor) := hrun
  -- The block does not change whether the actor has got a view.
  have hplaced : ((column.placement.placeSpots
      (bandSpots s start buckets (ordered, column.y))).viewOf? ordered.1).isSome
        = (column.placement.place spot.element spot.position spot.width).1.isSome := by
    rw [← map_element_blockSpots s start column.y 0 block] at hblock
    refine (congrArg Option.isSome (hblock.viewOf?_placeSpots ?_)).trans
      hactor.isSome_viewOf?_placeSpot
    rw [map_element_blockSpots]
    exact (List.nodup_cons.1 (List.nodup_append.1 h.nodup).2.1).1
  rw [heq, hrun]
  refine ⟨rfl, ?_, ?_, (widens_placeSpot hactor column.right).trans hwidens⟩
  · simp only [hcursor.offset_eq, offset_add_rowSpacing]
    rfl
  · simp only [← hplaced, centersOf]
    split <;> rename_i hview <;> simp [hview, OrderedMap.fill]

/-- **The column of actors** is placed at its spots. -/
theorem foldl_placeActor {start : Workspace} {s : UseCaseSettings} {buckets : UseCaseBuckets}
    {column : ActorColumn σ} {ordered : List (ElementId × Nat)}
    (h : Awaiting start column.placement
      (ordered.flatMap fun o => o.1 :: buckets.exclusiveOf o.1)) :
    (ordered.foldl (placeActor s buckets) column).placement
        = column.placement.placeSpots (columnSpots s start buckets column.y ordered) ∧
      (ordered.foldl (placeActor s buckets) column).y = columnEnd s buckets column.y ordered ∧
      (ordered.foldl (placeActor s buckets) column).centers
        = column.centers.fill (centersOf s
          (column.placement.placeSpots (columnSpots s start buckets column.y ordered))
          (actorTops s buckets column.y ordered)) ∧
      Widens column.placement (ordered.foldl (placeActor s buckets) column).placement column.right
        (ordered.foldl (placeActor s buckets) column).right (ordered.map Prod.fst) := by
  induction ordered generalizing column with
  | nil => exact ⟨rfl, (Int.add_zero _).symm, rfl, .of_entries_eq rfl _⟩
  | cons o rest ih =>
      rw [List.flatMap_cons] at h
      obtain ⟨hplacement, hy, hcenters, hwidens⟩ := placeActor_eq (s := s) h.of_append
      let first := column.placement.placeSpots (bandSpots s start buckets (o, column.y))
      let below := columnSpots s start buckets
        (column.y + bandHeight s (buckets.exclusiveOf o.1).length) rest
      have hrest : Awaiting start first (rest.flatMap fun o => o.1 :: buckets.exclusiveOf o.1) := by
        refine Awaiting.afterSpots ?_
        rwa [bandSpots, List.map_cons, map_element_blockSpots]
      have hfinal : column.placement.placeSpots (columnSpots s start buckets column.y (o :: rest))
          = first.placeSpots below := Placement.placeSpots_append
      obtain ⟨ihplacement, ihy, ihcenters, ihwidens⟩ := ih (by rw [hplacement]; exact hrest)
      rw [hplacement, hy] at ihplacement ihcenters
      refine ⟨ihplacement.trans hfinal.symm, ?_, ?_, hwidens.trans ihwidens⟩
      · rw [List.foldl_cons, ihy, hy]
        exact Int.add_assoc _ _ _
      · -- What is placed later leaves the first actor its view.
        have hnew : o.1 ∉ below.map Spot.element := by
          rw [map_element_columnSpots]
          exact fun hmem => (List.nodup_cons.1 (List.nodup_append.1 h.nodup).2.1).1
            (List.mem_append_right _ hmem)
        have hbelow : Awaiting start first (below.map Spot.element) := by
          rwa [map_element_columnSpots]
        have hview : (first.placeSpots below).viewOf? o.1 = first.viewOf? o.1 :=
          hbelow.viewOf?_placeSpots hnew
        have hfirst : centersOf s (first.placeSpots below) [(o, column.y)]
            = centersOf s first [(o, column.y)] := by
          refine centersOf_congr fun top htop => ?_
          rw [List.mem_singleton.1 htop]
          exact hview
        rw [List.foldl_cons, ihcenters, hcenters, hfinal]
        refine (OrderedMap.fill_append _ _ _).symm.trans (congrArg column.centers.fill ?_)
        rw [actorTops, centersOf_cons s (first.placeSpots below), hfirst]

/-! ### The shared column -/

/-- The mean height of the centers that a use case is connected to. -/
def meanHeight? (blueprints : List Blueprint) (centers : ElementId → Option Int)
    (useCase : ElementId) : Option Int :=
  mean? ((connectedActors useCase blueprints).filterMap centers)

/-- The height of what follows at `previous` and would stand at `y`: a row below if that is too
close. -/
def spaced (row previous y : Int) : Int :=
  if (y - previous).natAbs < row then previous + row else y

/-- The heights of shared use cases that follow one at `previous`, given their mean heights. -/
def followers (row previous : Int) : List (Option Int) → List Int
  | [] => []
  | mean :: rest =>
    spaced row previous (mean.getD previous) ::
      followers row (spaced row previous (mean.getD previous)) rest

/-- The heights of the shared use cases, given their mean heights. -/
def sharedTops (row origin : Int) : List (Option Int) → List Int
  | [] => []
  | mean :: rest => mean.getD origin :: followers row (mean.getD origin) rest

/-- The spots of the shared use cases: a column at `x`. -/
def sharedSpots (s : UseCaseSettings) (start : Workspace) (x : Int) (shared : List ElementId)
    (tops : List Int) : List Spot :=
  (shared.zip tops).map fun placed => useCaseSpot s start ⟨x, placed.2⟩ placed.1

section Shared

variable {start : Workspace} {p : Placement σ} {s : UseCaseSettings} {blueprints : List Blueprint}
  {centers : OrderedMap ElementId Int} {shared : List ElementId}

theorem length_followers (row previous : Int) (means : List (Option Int)) :
    (followers row previous means).length = means.length := by
  induction means generalizing previous with
  | nil => rfl
  | cons mean rest ih => exact congrArg (· + 1) (ih _)

theorem length_sharedTops (row origin : Int) (means : List (Option Int)) :
    (sharedTops row origin means).length = means.length := by
  cases means with
  | nil => rfl
  | cons mean rest => exact congrArg (· + 1) (length_followers ..)

theorem map_element_sharedSpots {x : Int} {tops : List Int} (h : tops.length = shared.length) :
    (sharedSpots s start x shared tops).map Spot.element = shared := by
  induction shared generalizing tops with
  | nil => rfl
  | cons useCase rest ih =>
      cases tops with
      | nil => cases h
      | cons y tops => exact congrArg (useCase :: ·) (ih (Nat.succ.inj h))

theorem sharedY_of_not_first (previous : Int) (useCase : ElementId) :
    sharedY s blueprints centers previous false useCase
      = spaced s.rowSpacing previous
          ((meanHeight? blueprints centers.get? useCase).getD previous) := by
  unfold sharedY spaced
  by_cases hclose : (((meanHeight? blueprints centers.get? useCase).getD previous
    - previous).natAbs : Int) < s.rowSpacing
  · exact (if_pos (by simpa [meanHeight?] using hclose)).trans (if_pos hclose).symm
  · exact (if_neg (by simpa [meanHeight?] using hclose)).trans (if_neg hclose).symm

theorem placeShared_eq (h : Awaiting start p shared) (x previous : Int) (useCase : ElementId)
    (index : Nat) :
    placeShared s blueprints centers x (p, previous) (useCase, index)
      = (p.placeSpot (useCaseSpot s start
          ⟨x, sharedY s blueprints centers previous (index = 0) useCase⟩ useCase),
        sharedY s blueprints centers previous (index = 0) useCase) := by
  simp only [placeShared, h.running.nameOf_eq]
  rfl

/-- Shared use cases behind the first one are placed at the heights of followers. -/
theorem foldl_placeShared_followers (h : Awaiting start p shared) (x previous : Int) (index : Nat) :
    (shared.zipIdx (index + 1)).foldl (placeShared s blueprints centers x) (p, previous)
      = (p.placeSpots (sharedSpots s start x shared (followers s.rowSpacing previous
          (shared.map (meanHeight? blueprints centers.get?)))),
        (followers s.rowSpacing previous
          (shared.map (meanHeight? blueprints centers.get?))).getLastD previous) := by
  induction shared generalizing p previous index with
  | nil => rfl
  | cons useCase rest ih =>
      have hindex : decide (index + 1 = 0) = false := decide_eq_false (Nat.succ_ne_zero index)
      rw [List.zipIdx_cons, List.foldl_cons, placeShared_eq h, hindex, sharedY_of_not_first,
        ih (h.afterSpot (useCaseSpot ..)), List.map_cons, followers, List.getLastD_cons]
      rfl

/-- **The shared use cases** are placed at their spots. -/
theorem foldl_placeShared (h : Awaiting start p shared) (x origin : Int) :
    shared.zipIdx.foldl (placeShared s blueprints centers x) (p, origin)
      = (p.placeSpots (sharedSpots s start x shared (sharedTops s.rowSpacing origin
          (shared.map (meanHeight? blueprints centers.get?)))),
        (sharedTops s.rowSpacing origin
          (shared.map (meanHeight? blueprints centers.get?))).getLastD origin) := by
  cases shared with
  | nil => rfl
  | cons useCase rest =>
      rw [List.zipIdx_cons, List.foldl_cons, placeShared_eq h,
        foldl_placeShared_followers (h.afterSpot (useCaseSpot ..)), List.map_cons, sharedTops,
        List.getLastD_cons]
      rfl

end Shared

/-! ### The rows below -/

/-- The spot of what is left: use cases are as wide as elsewhere. -/
def wrappedSpot (s : UseCaseSettings) (start : Workspace) (position : Point)
    (element : ElementId) : Spot :=
  ⟨element, position, if start.kind? element = some .useCase then
    some (s.useCaseWidth (ModelStore.nameOf start element)) else none⟩

/-- The spots of what is left, in rows from `position` on. -/
def wrappedSpots (s : UseCaseSettings) (start : Workspace) (position : Point) :
    List ElementId → List Spot
  | [] => []
  | element :: rest =>
    wrappedSpot s start position element ::
      wrappedSpots s start (nextWrapped s position) rest

theorem map_element_wrappedSpots (s : UseCaseSettings) (start : Workspace) (position : Point)
    (elements : List ElementId) :
    (wrappedSpots s start position elements).map Spot.element = elements := by
  induction elements generalizing position with
  | nil => rfl
  | cons element rest ih => exact congrArg (element :: ·) (ih _)

/-- What stands in the rows are spots of what is left. -/
theorem exists_eq_wrappedSpot {s : UseCaseSettings} {start : Workspace}
    {elements : List ElementId} {position : Point} {spot : Spot}
    (h : spot ∈ wrappedSpots s start position elements) :
    ∃ position' element, spot = wrappedSpot s start position' element := by
  induction elements generalizing position with
  | nil => cases h
  | cons element rest ih =>
      rcases List.mem_cons.1 h with rfl | h
      · exact ⟨position, element, rfl⟩
      · exact ih h

/-- Rows go on at the height where they start, or further down. -/
theorem le_wrappedSpots {s : UseCaseSettings} (hrow : 0 ≤ s.rowSpacing) {start : Workspace}
    {elements : List ElementId} {position : Point} {spot : Spot}
    (h : spot ∈ wrappedSpots s start position elements) : position.y ≤ spot.position.y := by
  induction elements generalizing position with
  | nil => cases h
  | cons element rest ih =>
      rcases List.mem_cons.1 h with rfl | h
      · exact Int.le_refl _
      · refine Int.le_trans ?_ (ih h)
        simp only [nextWrapped]
        split
        · exact Int.le_add_of_nonneg_right hrow
        · exact Int.le_refl _

/-- **What is left** is placed at its spots. -/
theorem foldl_placeWrapped {start : Workspace} {p : Placement σ} {s : UseCaseSettings}
    {elements : List ElementId} (h : Awaiting start p elements) (position : Point) :
    (elements.foldl (placeWrapped s) (p, position)).1
      = p.placeSpots (wrappedSpots s start position elements) := by
  induction elements generalizing p position with
  | nil => rfl
  | cons element rest ih =>
      have hstep : placeWrapped s (p, position) element
          = (p.placeSpot (wrappedSpot s start position element), nextWrapped s position) := by
        simp only [placeWrapped, h.running.nameOf_eq, h.running.kind?_eq]
        rfl
      rw [List.foldl_cons, hstep, ih (h.afterSpot (wrappedSpot ..))]
      rfl

/-! ### The whole diagram -/

/-- What a use case diagram is made of, packages apart. -/
structure Scene where
  actors : List ElementId
  useCases : List ElementId
  others : List ElementId
  blueprints : List Blueprint

namespace Scene

/-- The declared elements of a workspace, by their kinds. -/
def of (w : Workspace) (roots : List ElementId) (blueprints : List Blueprint) : Scene where
  actors := roots.filter fun e => (w.kind? e).any (· = .actor)
  useCases := roots.filter fun e => (w.kind? e).any (· = .useCase)
  others := roots.filter fun e => (w.kind? e).any fun kind => !kind.isParticipant && kind ≠ .package
  blueprints

/-- The use cases by how many actors are connected to them. -/
def buckets (scene : Scene) : UseCaseBuckets :=
  bucketUseCases scene.actors scene.useCases scene.blueprints

/-- The actors in the order in which they stand, with their depths. -/
def ordered (scene : Scene) : List (ElementId × Nat) :=
  orderActors scene.actors scene.blueprints

/-- What stands in the rows below. -/
def trailing (scene : Scene) : List ElementId :=
  scene.buckets.orphans ++ scene.others

/-- All elements, in the order in which they are placed. -/
def elements (scene : Scene) : List ElementId :=
  (scene.ordered.flatMap fun o => o.1 :: scene.buckets.exclusiveOf o.1) ++ scene.buckets.shared ++
    scene.trailing

/-- The heights of the shared use cases, given the centers of the actors. -/
def sharedTops (scene : Scene) (s : UseCaseSettings) (centers : ElementId → Option Int) :
    List Int :=
  UseCases.sharedTops s.rowSpacing s.originY
    (scene.buckets.shared.map (meanHeight? scene.blueprints centers))

/-- Where the rows start. -/
def rowsTop (scene : Scene) (s : UseCaseSettings) (centers : ElementId → Option Int) : Int :=
  max (columnEnd s scene.buckets s.originY scene.ordered)
    ((scene.sharedTops s centers).getLastD s.originY + s.rowSpacing)

/-- The spots of all elements, with the shared column at `x`. -/
def spots (scene : Scene) (s : UseCaseSettings) (start : Workspace)
    (centers : ElementId → Option Int) (x : Int) : List Spot :=
  columnSpots s start scene.buckets s.originY scene.ordered ++
    sharedSpots s start x scene.buckets.shared (scene.sharedTops s centers) ++
    wrappedSpots s start ⟨s.originX, scene.rowsTop s centers⟩ scene.trailing

theorem length_sharedTops (scene : Scene) (s : UseCaseSettings)
    (centers : ElementId → Option Int) :
    (scene.sharedTops s centers).length = scene.buckets.shared.length := by
  rw [sharedTops, UseCases.length_sharedTops, List.length_map]

theorem map_element_spots (scene : Scene) (s : UseCaseSettings) (start : Workspace)
    (centers : ElementId → Option Int) (x : Int) :
    (scene.spots s start centers x).map Spot.element = scene.elements := by
  rw [spots, List.map_append, List.map_append, map_element_columnSpots,
    map_element_sharedSpots (scene.length_sharedTops s centers), map_element_wrappedSpots, elements]

end Scene

/-- **A use case diagram** has its elements at the spots of its scene. The centers are those of the
actors that have a view once the column is placed, and the shared column is right of all else that
has one by then. -/
theorem arrange_eq_placeSpots {start : Workspace} {p : Placement σ} {roots : List ElementId}
    {blueprints : List Blueprint} (s : UseCaseSettings)
    (h : Awaiting start p (Scene.of start roots blueprints).elements) :
    let scene := Scene.of start roots blueprints
    let column := p.placeSpots (columnSpots s start scene.buckets s.originY scene.ordered)
    let centers := ({} : OrderedMap ElementId Int).fill
      (centersOf s column (actorTops s scene.buckets s.originY scene.ordered))
    ∃ right, Widens p column none right (scene.ordered.map Prod.fst) ∧
      arrange p roots blueprints s
        = p.placeSpots (scene.spots s start centers.get? (sharedX s right)) := by
  intro scene column centers
  have hkinds : ∀ wanted, ofKind p roots wanted = roots.filter fun e => (start.kind? e).any wanted :=
    fun wanted => by simp only [ofKind, h.running.kind?_eq]
  let begun : ActorColumn σ := { placement := p, y := s.originY }
  let run := scene.ordered.foldl (placeActor s scene.buckets) begun
  have hactors : Awaiting start begun.placement
      (scene.ordered.flatMap fun o => o.1 :: scene.buckets.exclusiveOf o.1) :=
    h.of_append.of_append
  obtain ⟨hplacement, hy, hcenters, hwidens⟩ :
      run.placement = column ∧ run.y = columnEnd s scene.buckets s.originY scene.ordered ∧
        run.centers = centers ∧
        Widens p run.placement none run.right (scene.ordered.map Prod.fst) :=
    foldl_placeActor hactors
  have hrest : Awaiting start column (scene.buckets.shared ++ scene.trailing) := by
    refine Awaiting.afterSpots ?_
    rw [map_element_columnSpots, ← List.append_assoc]
    exact h
  let shared := sharedSpots s start (sharedX s run.right) scene.buckets.shared
    (scene.sharedTops s centers.get?)
  have hshared : scene.buckets.shared.zipIdx.foldl
        (placeShared s blueprints centers (sharedX s run.right)) (column, s.originY)
      = (column.placeSpots shared, (scene.sharedTops s centers.get?).getLastD s.originY) :=
    foldl_placeShared hrest.of_append _ _
  have htrailing : Awaiting start (column.placeSpots shared) scene.trailing := by
    refine Awaiting.afterSpots ?_
    rwa [map_element_sharedSpots (scene.length_sharedTops s centers.get?)]
  refine ⟨run.right, hplacement ▸ hwidens, ?_⟩
  have harrange : arrange p roots blueprints s = (scene.trailing.foldl (placeWrapped s)
      ((scene.buckets.shared.zipIdx.foldl
        (placeShared s blueprints run.centers (sharedX s run.right))
        (run.placement, s.originY)).1,
      ⟨s.originX, max run.y ((scene.buckets.shared.zipIdx.foldl
        (placeShared s blueprints run.centers (sharedX s run.right))
        (run.placement, s.originY)).2 + s.rowSpacing)⟩)).1 := by
    unfold arrange
    simp only [hkinds]
    rfl
  rw [harrange, hplacement, hy, hcenters, hshared, foldl_placeWrapped htrailing, Scene.spots,
    Placement.placeSpots_append, Placement.placeSpots_append]
  rfl

end UmlText.UseCases
