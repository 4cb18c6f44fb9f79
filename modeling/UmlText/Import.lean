import UmlText.Layout

/-!
# Importing diagram text

An import reads a text into the store, under the first selected element, and lays the result out.
The current diagram is used if it has the kind the text asks for; otherwise a new one is created and
opened. Where the store refuses that, the import goes on with whatever diagram is current, or
without one.
-/

namespace UmlText

universe u

/-- What an import produced. -/
structure ImportOutcome where
  diagram : Option DiagramId
  /-- The owner of what is declared outside any package. -/
  rootParent : ElementId
  parsed : Parsed
  layout : LayoutReport

/-- The first selected element, or the project if nothing is selected. -/
def rootParent {σ : Type u} [ModelStore σ] (store : σ) : ElementId :=
  (ModelStore.selection store).head?.getD (ModelStore.projectRoot store)

/-- The current diagram if it has the wanted kind, or else a new one, made current. -/
def ensureDiagram {σ : Type u} [ViewStore σ] (store : σ) (kind : DiagramKind)
    (owner : ElementId) : Except StoreError DiagramId × σ :=
  match (ViewStore.currentDiagram? store).filter fun d => d.kind = kind with
  | some current => (.ok current.id, store)
  | none =>
    match ViewStore.createDiagram store kind owner with
    | (.error error, store) => (.error error, store)
    | (.ok diagram, store) =>
      match ViewStore.setCurrentDiagram store diagram with
      | (.error error, store) => (.error error, store)
      | (.ok _, store) => (.ok diagram, store)

/-- The diagram to import onto: the one that was asked for, or the current one. -/
def diagramForImport {σ : Type u} [ViewStore σ] (store : σ) (kind : DiagramKind)
    (owner : ElementId) : Option DiagramId × σ :=
  match ensureDiagram store kind owner with
  | (.ok diagram, store) => (some diagram, store)
  | (.error _, store) => ((ViewStore.currentDiagram? store).map Diagram.id, store)

/-- Reads a text, lays out what it declares, and asks the host to redraw. -/
def importText {σ : Type u} [ModelStore σ] [ViewStore σ] (store : σ) (source : String)
    (settings : LayoutSettings) : ImportOutcome × σ :=
  let rootParent := rootParent store
  let (diagram, store) := diagramForImport store (detectDiagramKind source) rootParent
  let (parsed, store) := parse store rootParent source
  let (report, store) :=
    match diagram with
    | some diagram => layout store diagram parsed settings
    | none => (.unplaced parsed, store)
  ({ diagram, rootParent, parsed, layout := report }, ViewStore.repaint store)

end UmlText
