import UmlText.Layout.Actors
import UmlText.Layout.Buckets
import UmlText.Layout.Placement
import UmlText.Layout.Settings

/-!
# Use case layout

Actors form a column on the left, in the order of their hierarchy. The use cases of a single actor
stand in a block beside it; those of several actors in a column further right, near the mean height
of their actors. Everything else wraps in rows below.
-/

namespace UmlText.UseCases

universe u

variable {σ : Type u} [ModelStore σ] [ViewStore σ]

/-! ### Actors and their own use cases -/

/-- Where the next use case of a block goes. -/
structure BlockCursor where
  x : Int
  y : Int
  /-- The height of the rows that are already full. -/
  offset : Int := 0
deriving DecidableEq, Repr

/-- Moves on behind the use case number `index` of `total`: to the next column, or to a new row if
the row is full and another use case follows. -/
def BlockCursor.next (s : UseCaseSettings) (total index : Nat) (c : BlockCursor) : BlockCursor :=
  if (index + 1) % max s.exclusiveColumns 1 = 0 ∧ index + 1 < total then
    ⟨s.exclusiveX, c.y + s.rowSpacing, c.offset + s.rowSpacing⟩
  else
    { c with x := c.x + s.columnSpacing }

/-- The rightmost of the edges so far and a new one. An edge on the left border of the grid does not
count. -/
def furthest (edge : Option Int) (x : Int) : Option Int :=
  if x ≤ Saturating.lowest then edge else some (edge.elim x (max · x))

/-- The actor column being filled. -/
structure ActorColumn (σ : Type u) where
  placement : Placement σ
  /-- The top of the next actor. -/
  y : Int
  /-- The vertical centers of the placed actors. -/
  centers : OrderedMap ElementId Int := {}
  /-- The right edge of the exclusive use cases, none if it is on the left border of the grid. -/
  right : Option Int := none

/-- Places one use case of a block. -/
def placeExclusive (s : UseCaseSettings) (total : Nat)
    (state : Placement σ × Option Int × BlockCursor) (numbered : ElementId × Nat) :
    Placement σ × Option Int × BlockCursor :=
  let (p, right, cursor) := state
  let (useCase, index) := numbered
  let width := s.useCaseWidth (p.nameOf useCase)
  let (placed, p) := p.place useCase ⟨cursor.x, cursor.y⟩ (some width)
  let right :=
    match placed.bind p.boundsOf? with
    | some bounds => furthest right bounds.maxX
    | none => right
  (p, right, cursor.next s total index)

/-- Places an actor with the block of its own use cases, and moves on by the height of the block,
but not less than the minimum. -/
def placeActor (s : UseCaseSettings) (buckets : UseCaseBuckets) (column : ActorColumn σ)
    (ordered : ElementId × Nat) : ActorColumn σ :=
  let (actor, depth) := ordered
  let indent := Saturating.mul s.depthIndent (Saturating.ofNat depth Saturating.highest)
  let (placed, p) :=
    column.placement.place actor ⟨Saturating.add s.originX indent, column.y⟩ none
  let centers :=
    if placed.isSome then column.centers.insert actor (column.y + s.actorCenterOffset)
    else column.centers
  let block := buckets.exclusiveOf actor
  let (p, right, cursor) :=
    block.zipIdx.foldl (placeExclusive s block.length)
      (p, column.right, ⟨s.exclusiveX, column.y, 0⟩)
  { placement := p
    y := column.y + max s.minActorAdvance (cursor.offset + s.rowSpacing)
    centers
    right }

/-! ### Shared use cases -/

/-- The mean of some heights, rounded toward zero. -/
def mean? (values : List Int) : Option Int :=
  if values.isEmpty then none else some ((values.foldl (· + ·) 0).tdiv values.length)

/-- The left edge of the shared column: right of the exclusive use cases. -/
def sharedX (s : UseCaseSettings) (right : Option Int) : Int :=
  right.elim s.sharedMinX fun x => max s.sharedMinX (x + s.sharedGap)

/-- The height of a shared use case: the mean height of its placed actors, or that of the one
before if it has none; but a row below the one before if it would come too close to it. -/
def sharedY (s : UseCaseSettings) (blueprints : List Blueprint)
    (centers : OrderedMap ElementId Int) (previous : Int) (isFirst : Bool)
    (useCase : ElementId) : Int :=
  let heights := (connectedActors useCase blueprints).filterMap centers.get?
  let y := (mean? heights).getD previous
  if !isFirst && (y - previous).natAbs < s.rowSpacing then previous + s.rowSpacing else y

/-- Places one shared use case; the state holds the height of the one before. -/
def placeShared (s : UseCaseSettings) (blueprints : List Blueprint)
    (centers : OrderedMap ElementId Int) (x : Int) (state : Placement σ × Int)
    (numbered : ElementId × Nat) : Placement σ × Int :=
  let (p, previous) := state
  let (useCase, index) := numbered
  let y := sharedY s blueprints centers previous (index = 0) useCase
  let width := s.useCaseWidth (p.nameOf useCase)
  ((p.place useCase ⟨x, y⟩ (some width)).2, y)

/-! ### Everything else -/

/-- The place behind `c` in rows that wrap. -/
def nextWrapped (s : UseCaseSettings) (c : Point) : Point :=
  let x := c.x + s.columnSpacing
  if x > s.wrapX then ⟨s.originX, c.y + s.rowSpacing⟩ else ⟨x, c.y⟩

/-- Places one of the remaining elements and moves on. -/
def placeWrapped (s : UseCaseSettings) (state : Placement σ × Point) (element : ElementId) :
    Placement σ × Point :=
  let (p, position) := state
  let width :=
    if p.kind? element = some .useCase then some (s.useCaseWidth (p.nameOf element)) else none
  ((p.place element position width).2, nextWrapped s position)

/-- The declared elements that satisfy a condition on their kind. -/
def ofKind (p : Placement σ) (roots : List ElementId) (wanted : ElementKind → Bool) :
    List ElementId :=
  roots.filter fun e => (p.kind? e).any wanted

/-- Places everything but packages. -/
def arrange (p : Placement σ) (roots : List ElementId) (blueprints : List Blueprint)
    (s : UseCaseSettings) : Placement σ :=
  let actors := ofKind p roots (· = .actor)
  let useCases := ofKind p roots (· = .useCase)
  let others := ofKind p roots fun kind => !kind.isParticipant && kind ≠ .package
  let buckets := bucketUseCases actors useCases blueprints
  let column :=
    (orderActors actors blueprints).foldl (placeActor s buckets)
      { placement := p, y := s.originY }
  let (p, sharedBottom) :=
    buckets.shared.zipIdx.foldl
      (placeShared s blueprints column.centers (sharedX s column.right))
      (column.placement, s.originY)
  let start : Point := ⟨s.originX, max column.y (sharedBottom + s.rowSpacing)⟩
  ((buckets.orphans ++ others).foldl (placeWrapped s) (p, start)).1

end UmlText.UseCases
