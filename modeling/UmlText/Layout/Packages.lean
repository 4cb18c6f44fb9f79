import UmlText.Layout.Placement
import UmlText.Layout.Settings

/-!
# Package boxes

Packages get their views before everything else, at a temporary place, so that what they own can be
placed inside. Once all else is placed, every package is fitted around what is inside it, the
deepest first. A package is *anchored* if it contains something a layout placed, directly or through
packages inside it. The others float: they are moved beside their anchored siblings, or into a row
below the diagram.
-/

namespace UmlText.Packages

universe u

variable {σ : Type u} [ModelStore σ] [ViewStore σ]

/-- The number of packages around an element in the model. Owners are created before what they own,
so their ids decrease along the way up. -/
def depth (s : σ) (element : ElementId) : Nat :=
  match ModelStore.owningPackage? s element with
  | some package => if package.index < element.index then depth s package + 1 else 1
  | none => 0
termination_by element.index

/-- Opens the view of one package, and keeps the package in the list of those that got one. -/
def openView (state : Placement σ × List (ElementId × Nat)) (package : ElementId × Nat) :
    Placement σ × List (ElementId × Nat) :=
  let (p, opened) := state
  match p.place package.1 ⟨0, 0⟩ none with
  | (some _, p) => (p, opened ++ [package])
  | (none, p) => (p, opened)

/-- Creates the views of all packages, outer ones first. The packages that got a view are returned
deepest first. -/
def openViews (p : Placement σ) (roots : List ElementId) : Placement σ × List ElementId :=
  let packages := (roots.filter (p.kind? · = some .package)).map fun e => (e, depth p.store e)
  let outerFirst := packages.mergeSort fun a b => a.2 ≤ b.2
  let (p, opened) := outerFirst.foldl openView (p, [])
  (p, (opened.mergeSort fun a b => b.2 ≤ a.2).map Prod.fst)

/-- Moves one view to the end of a row at `x`, and returns where the next one goes. -/
def layOutNext (top spacing : Int) (state : Placement σ × Int) (view : ViewId) :
    Placement σ × Int :=
  let (p, x) := state
  match p.boundsOf? view with
  | none => (p, x)
  | some bounds =>
    (p.translate view (x - bounds.minX) (top - bounds.minY), x + (bounds.width + spacing))

/-- Moves views into a row from left to right, and returns the bounds of the row. -/
def layOutRow (p : Placement σ) (views : List ViewId) (start : Point) (spacing : Int) :
    Option Bounds × Placement σ :=
  let (p, _) := views.foldl (layOutNext start.y spacing) (p, start.x)
  (p.mergedBounds? views, p)

/-- The space around the children of a package. -/
def insets (s : PackageSettings) : Insets :=
  ⟨s.padding + s.header, s.padding, s.padding, s.padding⟩

/-- Packages being fitted: which of their views are anchored. -/
structure Fitting (σ : Type u) where
  placement : Placement σ
  anchored : List ViewId := []

/-- Fits one package around its children. Floating children are moved beside the fixed ones, or
into a row of their own where there are none. -/
def fitPackage (s : PackageSettings) (packageViews : List ViewId) (f : Fitting σ)
    (package : ElementId) : Fitting σ :=
  match f.placement.viewOf? package with
  | none => f
  | some view =>
    let (fixed, floating) := (f.placement.children view).partition fun child =>
      child ∉ packageViews || child ∈ f.anchored
    let (bounds, p, anchored) :=
      match f.placement.mergedBounds? fixed with
      | some content =>
        let (row, p) :=
          layOutRow f.placement floating ⟨content.maxX + s.spacing, content.minY⟩ s.spacing
        (some (row.elim content content.merge), p, f.anchored ++ [view])
      | none =>
        let (row, p) := layOutRow f.placement floating ⟨0, 0⟩ s.spacing
        (row, p, f.anchored)
    let fitted :=
      match bounds with
      | some bounds => bounds.pad (insets s)
      | none => Point.toBounds ⟨0, 0⟩ ⟨s.minWidth, s.minHeight⟩
    { placement := p.updateView view (·.setBounds fitted), anchored }

/-- Whether a view of the store is in no container. -/
def isTopLevel (p : Placement σ) (view : ViewId) : Bool :=
  (ViewStore.view? p.store view).any fun v => v.container.isNone

/-- Moves floating packages that are in no container into a row below everything else that is in no
container, starting at `origin`. -/
def moveFloating (s : PackageSettings) (origin : Point) (packageViews : List ViewId)
    (f : Fitting σ) : Placement σ :=
  let p := f.placement
  let floating := packageViews.filter fun view => view ∉ f.anchored && isTopLevel p view
  let others := p.views.values.filter fun view => view ∉ floating && isTopLevel p view
  let top := (p.mergedBounds? others).elim origin.y fun bounds => bounds.maxY + s.spacing
  if floating.isEmpty then p else (layOutRow p floating ⟨origin.x, top⟩ s.spacing).2

/-- Fits all packages, given deepest first, and moves the floating ones out of the way. -/
def fit (p : Placement σ) (packages : List ElementId) (origin : Point) (s : PackageSettings) :
    Placement σ :=
  let packageViews := packages.filterMap p.viewOf?
  moveFloating s origin packageViews
    (packages.foldl (fitPackage s packageViews) { placement := p })

end UmlText.Packages
