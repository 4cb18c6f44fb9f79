import UmlText.Layout.Placement
import UmlText.Layout.Settings

/-!
# Grid layout

Class diagrams are laid out on a grid. Elements are grouped by the package views around them, and
every group has a block of rows of its own, so that a package box does not reach over an element
that is not inside it. Free elements come first; the groups of packages follow in declaration order,
the members of a package before those of the packages inside it.
-/

namespace UmlText.Grid

universe u

variable {σ : Type u} [ModelStore σ] [ViewStore σ]

/-- The packages whose views are around an element, outermost first. Owners are created before what
they own, so their ids decrease along the way up. -/
def enclosingPackages (p : Placement σ) (element : ElementId) : List ElementId :=
  match ModelStore.owningPackage? p.store element with
  | some package =>
    if (p.viewOf? package).isSome then
      if package.index < element.index then enclosingPackages p package ++ [package]
      else [package]
    else
      []
  | none => []
termination_by element.index

/-- The place of a group: the declaration ranks of the packages around its members. -/
def groupKey (p : Placement σ) (roots : List ElementId) (element : ElementId) : List Nat :=
  (enclosingPackages p element).map roots.idxOf

/-- Lexicographic order, a list before its extensions. -/
def keyLE : List Nat → List Nat → Bool
  | [], _ => true
  | _ :: _, [] => false
  | a :: as, b :: bs => a < b || (a = b && keyLE as bs)

/-- A block of the grid: the members of one group. -/
structure Group where
  key : List Nat
  members : List ElementId
deriving DecidableEq, Repr

/-- The number of packages around a group. -/
def Group.depth (g : Group) : Nat := g.key.length

/-- The elements that go on the grid: those with a kind, except packages. -/
def gridElements (p : Placement σ) (roots : List ElementId) : List ElementId :=
  roots.filter fun e => (p.kind? e).any (· ≠ .package)

/-- The groups of the grid, in the order of their keys. -/
def groups (p : Placement σ) (roots : List ElementId) : List Group :=
  let keyed := (gridElements p roots).map fun e => (groupKey p roots e, e)
  let keys := (keyed.map Prod.fst).eraseDups.mergeSort keyLE
  keys.map fun key => ⟨key, (keyed.filter (·.1 = key)).map Prod.snd⟩

/-- The position of a cell in a block that starts at `top`. -/
def cellPosition (g : GridSettings) (top : Int) (cell : Nat) : Point :=
  let columns := max g.columns 1
  let column := Saturating.ofNat (cell % columns) Saturating.highest
  let row := Saturating.ofNat (cell / columns) Saturating.highest
  ⟨Saturating.add g.originX (Saturating.mul column g.columnSpacing),
    Saturating.add top (Saturating.mul row g.rowSpacing)⟩

/-- The number of rows that some cells take. -/
def rowsFor (g : GridSettings) (cells : Nat) : Int :=
  let columns := max g.columns 1
  Saturating.ofNat ((cells + columns - 1) / columns) Saturating.highest

/-- A block being filled: the number of cells used and the bounds of what is in them. -/
structure Filling (σ : Type u) where
  placement : Placement σ
  cells : Nat := 0
  bounds : Option Bounds := none

/-- Places one member in the next cell. The cell stays free if the member is skipped. -/
def Filling.add (g : GridSettings) (top : Int) (f : Filling σ) (element : ElementId) : Filling σ :=
  let width := g.widthFor (f.placement.nameOf element)
  match f.placement.place element (cellPosition g top f.cells) (some width) with
  | (none, placement) => { f with placement }
  | (some view, placement) =>
    { placement
      cells := f.cells + 1
      bounds :=
        match placement.boundsOf? view with
        | some placed => some (f.bounds.elim placed (·.merge placed))
        | none => f.bounds }

/-- Places the members of a group from `top` on. -/
def fillBlock (p : Placement σ) (g : GridSettings) (top : Int) (members : List ElementId) :
    Filling σ :=
  members.foldl (Filling.add g top) { placement := p }

/-- Where the block of a group starts, below the headers of the packages around it. -/
def blockTop (s : PackageSettings) (top : Int) (depth : Nat) : Int :=
  let header := Saturating.add s.padding s.header
  Saturating.add top
    (Saturating.mul header (Saturating.ofNat depth Saturating.highest))

/-- Where the next block starts: below the rows of this one, and clear of the package borders
around what was placed. -/
def nextTop (g : GridSettings) (s : PackageSettings) (blockTop : Int) (depth : Nat) (cells : Nat)
    (bounds : Bounds) : Int :=
  let nextRow := Saturating.add blockTop (Saturating.mul (rowsFor g cells) g.rowSpacing)
  let padding := Saturating.mul s.padding (Saturating.ofNat depth Saturating.highest)
  let below := Saturating.add (Saturating.add bounds.maxY padding) s.spacing
  max nextRow below

/-- Places one group at `top` and returns where the next one starts. -/
def placeGroup (g : GridSettings) (s : PackageSettings) (state : Placement σ × Int)
    (group : Group) : Placement σ × Int :=
  let (p, top) := state
  let start := blockTop s top group.depth
  let filled := fillBlock p g start group.members
  match filled.bounds with
  | none => (filled.placement, top)
  | some bounds => (filled.placement, nextTop g s start group.depth filled.cells bounds)

/-- Places everything but packages on the grid. -/
def arrange (p : Placement σ) (roots : List ElementId) (g : GridSettings) (s : PackageSettings) :
    Placement σ :=
  ((groups p roots).foldl (placeGroup g s) (p, g.originY)).1

end UmlText.Grid
