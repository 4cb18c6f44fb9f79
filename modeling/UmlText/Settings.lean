import UmlText.Color
import UmlText.Failure
import UmlText.Layout.Settings
import UmlText.Settings.Value

/-!
# Settings

What a user can configure: the distances of the layout and the colors of the preview. Colors are
kept as text and read when they are needed.
-/

namespace UmlText

/-- The colors of a preview, as text. One that is not set is up to the preview. -/
structure StyleSettings where
  backgroundColor : Option String := none
  lineColor : Option String := none
  packageColor : Option String := none
deriving DecidableEq, Repr, Inhabited

/-- All that a user can configure. -/
structure Settings where
  layout : LayoutSettings := {}
  style : StyleSettings := {}
deriving DecidableEq, Repr, Inhabited

namespace StyleSettings

/-- Reads a color setting; a fault is reported with what the color is for. -/
def color? (purpose : String) (value : Option String) : Except String (Option Color) :=
  match value with
  | none => .ok none
  | some text =>
    match Color.ofText text with
    | .ok color => .ok (some color)
    | .error fault =>
      .error s!"Invalid {purpose} color in config: {Color.faultMessage text fault}"

def background (s : StyleSettings) : Except String (Option Color) :=
  color? "background" s.backgroundColor

def line (s : StyleSettings) : Except String (Option Color) :=
  color? "line" s.lineColor

def package (s : StyleSettings) : Except String (Option Color) :=
  color? "package" s.packageColor

/-- The first color, of background, line and package, that cannot be read. -/
def fault? (s : StyleSettings) : Option String :=
  match s.background, s.line, s.package with
  | .error message, _, _ => some message
  | .ok _, .error message, _ => some message
  | .ok _, .ok _, .error message => some message
  | .ok _, .ok _, .ok _ => none

end StyleSettings

/-! ### Settings from configuration values -/

/-- A coordinate or a distance. -/
def ConfigFields.coordinate? (fields : ConfigFields) (key : String) (fallback : Int) :
    Option Int :=
  fields.integer? key Saturating.lowest Saturating.highest fallback

/-- The largest count. -/
def largestCount : Int := 18446744073709551615

/-- A count that fits into 64 bits. -/
def ConfigFields.count? (fields : ConfigFields) (key : String) (fallback : Nat) : Option Nat :=
  (fields.integer? key 0 largestCount fallback).map Int.toNat

/-- The keys of a grid, in their order. -/
def GridSettings.keys : List String :=
  ["origin_x", "origin_y", "column_spacing", "row_spacing", "columns", "min_width",
   "char_width"]

def GridSettings.ofFields? (fields : ConfigFields) : Option GridSettings := do
  let base : GridSettings := {}
  return {
    originX := ← fields.coordinate? "origin_x" base.originX
    originY := ← fields.coordinate? "origin_y" base.originY
    columnSpacing := ← fields.coordinate? "column_spacing" base.columnSpacing
    rowSpacing := ← fields.coordinate? "row_spacing" base.rowSpacing
    columns := ← fields.count? "columns" base.columns
    minWidth := ← fields.coordinate? "min_width" base.minWidth
    charWidth := ← fields.coordinate? "char_width" base.charWidth }

/-- The keys of the placement of use cases, in their order. -/
def UseCaseSettings.keys : List String :=
  ["origin_x", "origin_y", "depth_indent", "actor_center_offset", "min_actor_advance",
   "exclusive_x", "exclusive_columns", "column_spacing", "row_spacing", "shared_min_x",
   "shared_gap", "wrap_x", "min_use_case_width", "use_case_char_width", "use_case_text_padding"]

def UseCaseSettings.ofFields? (fields : ConfigFields) : Option UseCaseSettings := do
  let base : UseCaseSettings := {}
  return {
    originX := ← fields.coordinate? "origin_x" base.originX
    originY := ← fields.coordinate? "origin_y" base.originY
    depthIndent := ← fields.coordinate? "depth_indent" base.depthIndent
    actorCenterOffset := ← fields.coordinate? "actor_center_offset" base.actorCenterOffset
    minActorAdvance := ← fields.coordinate? "min_actor_advance" base.minActorAdvance
    exclusiveX := ← fields.coordinate? "exclusive_x" base.exclusiveX
    exclusiveColumns := ← fields.count? "exclusive_columns" base.exclusiveColumns
    columnSpacing := ← fields.coordinate? "column_spacing" base.columnSpacing
    rowSpacing := ← fields.coordinate? "row_spacing" base.rowSpacing
    sharedMinX := ← fields.coordinate? "shared_min_x" base.sharedMinX
    sharedGap := ← fields.coordinate? "shared_gap" base.sharedGap
    wrapX := ← fields.coordinate? "wrap_x" base.wrapX
    minUseCaseWidth := ← fields.coordinate? "min_use_case_width" base.minUseCaseWidth
    useCaseCharWidth := ← fields.coordinate? "use_case_char_width" base.useCaseCharWidth
    useCaseTextPadding := ← fields.coordinate? "use_case_text_padding" base.useCaseTextPadding }

/-- The keys of packages, in their order. -/
def PackageSettings.keys : List String :=
  ["padding", "header", "min_width", "min_height", "spacing"]

def PackageSettings.ofFields? (fields : ConfigFields) : Option PackageSettings := do
  let base : PackageSettings := {}
  return {
    padding := ← fields.coordinate? "padding" base.padding
    header := ← fields.coordinate? "header" base.header
    minWidth := ← fields.coordinate? "min_width" base.minWidth
    minHeight := ← fields.coordinate? "min_height" base.minHeight
    spacing := ← fields.coordinate? "spacing" base.spacing }

/-- The keys of the layout, in their order. -/
def LayoutSettings.keys : List String := ["grid", "use_case", "packages"]

def LayoutSettings.ofFields? (fields : ConfigFields) : Option LayoutSettings := do
  return {
    grid := ← GridSettings.ofFields? (← fields.section? "grid" GridSettings.keys)
    useCase := ← UseCaseSettings.ofFields? (← fields.section? "use_case" UseCaseSettings.keys)
    packages := ← PackageSettings.ofFields? (← fields.section? "packages" PackageSettings.keys) }

/-- The keys of the style, in their order. -/
def StyleSettings.keys : List String := ["background_color", "line_color", "package_color"]

def StyleSettings.ofFields? (fields : ConfigFields) : Option StyleSettings := do
  return {
    backgroundColor := ← fields.text? "background_color"
    lineColor := ← fields.text? "line_color"
    packageColor := ← fields.text? "package_color" }

/-- The keys of a configuration, in their order. -/
def Settings.keys : List String := ["layout", "style"]

/-- The settings that a configuration gives, none if a section or a field has the wrong type.
Unknown fields are ignored. -/
def Settings.ofValue? (value : ConfigValue) : Option Settings := do
  let fields ← value.sectionFields? Settings.keys
  return {
    layout := ← LayoutSettings.ofFields? (← fields.section? "layout" LayoutSettings.keys)
    style := ← StyleSettings.ofFields? (← fields.section? "style" StyleSettings.keys) }

end UmlText
