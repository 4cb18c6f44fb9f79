import UmlText.Import
import UmlText.Proofs.Layout.Steps
import UmlText.Proofs.Reading.Appending
import UmlText.Proofs.Store.Ownership

/-!
# UmlText.Proofs.Import.Appending

**An import only appends.** Whatever is imported, whatever is selected and whatever the host refuses:
the workspace afterwards is the one before with more in it. Reading touches new elements and the one
that it reads into, placing and fitting touch views of the run, and realizing relationships puts
them below new elements; the host is asked to redraw once, at the end.
-/

namespace UmlText

universe u

open BackedStore (workspace)
open Workspace (Grown Growing)

variable {σ : Type u} [ModelStore σ] [ViewStore σ] [BackedStore σ]

/-! ### Laying out -/

/-- A layout adds views, edits those it added, and puts relationships below new elements. -/
theorem growing_layout {start : Workspace} {parent : ElementId} {store : σ}
    (hstart : start.Numbered) (hnumbered : (workspace store).Numbered)
    (hstore : Growing start parent (workspace store)) (diagram : DiagramId) {parsed : Parsed}
    (hsources : ∀ b ∈ parsed.blueprints, start.IsNew b.source) (s : LayoutSettings) :
    Growing start parent (workspace (layout store diagram parsed s).2) := by
  have hplaced : Growing start parent (workspace (placeAll store diagram parsed s).store) :=
    placeAll_induct hnumbered diagram parsed s hstore
      (fun _ _ _ _ hw _ => hw.withView _)
      (fun _ _ _ hview hw => hw.updateView hstart (Nat.le_trans hstore.nextView_le hview) _)
  refine Relationships.realize_induct _ parsed.blueprints hplaced ?_
  intro w request b hb hw _ _ hsource _
  exact (hw.withRelationship (hsource ▸ hsources b hb)).updateElement hw.length_le _

/-! ### The diagram -/

theorem growing_createDiagram {store : σ} (h : (workspace store).Reachable) (kind : DiagramKind)
    (owner parent : ElementId) :
    Growing (workspace store) parent (workspace (ViewStore.createDiagram store kind owner).2) ∧
      (workspace (ViewStore.createDiagram store kind owner).2).Reachable := by
  have hanswers := BackedStore.createDiagram_answers store kind owner
  refine ⟨?_, hanswers.keeps h (h.step (.createDiagram kind owner))⟩
  rcases hanswers.cases ((workspace store).createDiagram_cases kind owner) with
    ⟨_, -, hw⟩ | ⟨⟨_, -, he⟩, hgranted⟩
  · rw [hw]
    exact Growing.refl _ _
  · rw [(Prod.mk.inj (hgranted.trans he)).2]
    exact Growing.withDiagram _ _ _ _

theorem growing_setCurrentDiagram {start : Workspace} {parent : ElementId} {store : σ}
    (hstore : Growing start parent (workspace store)) (h : (workspace store).Reachable)
    (id : DiagramId) :
    Growing start parent (workspace (ViewStore.setCurrentDiagram store id).2) ∧
      (workspace (ViewStore.setCurrentDiagram store id).2).Reachable := by
  have hanswers := BackedStore.setCurrentDiagram_answers store id
  refine ⟨?_, hanswers.keeps h (h.step (.openDiagram id))⟩
  rcases hanswers.cases ((workspace store).setCurrentDiagram_cases id) with
    ⟨_, -, hw⟩ | ⟨⟨_, -, he⟩, hgranted⟩
  · rw [hw]
    exact hstore
  · rw [(Prod.mk.inj (hgranted.trans he)).2]
    exact hstore.withCurrent _

/-- At most one diagram is created, and requests only are sent. -/
theorem growing_ensureDiagram {store : σ} (h : (workspace store).Reachable) (kind : DiagramKind)
    (owner parent : ElementId) :
    Growing (workspace store) parent (workspace (ensureDiagram store kind owner).2) ∧
      (workspace (ensureDiagram store kind owner).2).Reachable := by
  simp only [ensureDiagram]
  split
  · exact ⟨Growing.refl _ _, h⟩
  · have hcreated := growing_createDiagram h kind owner parent
    split
    · next hc => rw [hc] at hcreated; exact hcreated
    · next diagram created hc =>
        rw [hc] at hcreated
        have hopened := growing_setCurrentDiagram hcreated.1 hcreated.2 diagram
        split
        · next ho => rw [ho] at hopened; exact hopened
        · next ho => rw [ho] at hopened; exact hopened

omit [ModelStore σ] [BackedStore σ] in
/-- Nothing is done but to look for a diagram. -/
theorem diagramForImport_store (store : σ) (kind : DiagramKind) (owner : ElementId) :
    (diagramForImport store kind owner).2 = (ensureDiagram store kind owner).2 := by
  simp only [diagramForImport]
  rcases ensureDiagram store kind owner with ⟨_ | _, _⟩ <;> rfl

theorem growing_diagramForImport {store : σ} (h : (workspace store).Reachable) (kind : DiagramKind)
    (owner parent : ElementId) :
    Growing (workspace store) parent (workspace (diagramForImport store kind owner).2) ∧
      (workspace (diagramForImport store kind owner).2).Reachable := by
  rw [diagramForImport_store]
  exact growing_ensureDiagram h kind owner parent

/-! ### The whole import -/

/-- **An import only appends.** Whatever text is imported into whatever workspace can be reached,
and whatever the host refuses: what was there before is there unchanged, except that the import
parent lists new elements at the end of what it owns; the selection is the same, there is at most
one diagram more, and the host was asked to redraw once. -/
theorem importText_appends (store : σ) (h : (workspace store).Reachable) (source : String)
    (s : LayoutSettings) :
    Grown (workspace store) (rootParent store) (workspace (importText store source s).2) ∧
      (workspace (importText store source s).2).repaints = (workspace store).repaints + 1 := by
  obtain ⟨hdiagram, hreachable⟩ :=
    growing_diagramForImport h (detectDiagramKind source) (rootParent store) (rootParent store)
  simp only [importText]
  rcases hd : diagramForImport store (detectDiagramKind source) (rootParent store)
    with ⟨diagram, opened⟩
  rw [hd] at hdiagram hreachable
  obtain ⟨parsed, read, hparse⟩ :
      ∃ parsed read, parse opened (rootParent store) source = (parsed, read) := ⟨_, _, rfl⟩
  obtain ⟨hread, hsources⟩ := growing_parse hdiagram hparse
  simp only [hparse, BackedStore.workspace_repaint]
  cases diagram with
  | none => exact ⟨hread.toGrown.repaint, congrArg (· + 1) hread.repaints_eq⟩
  | some diagram =>
      have hfinal := growing_layout h.numbered (declares_parse hreachable hparse).1.numbered hread
        diagram hsources s
      exact ⟨hfinal.toGrown.repaint, congrArg (· + 1) hfinal.repaints_eq⟩

/-- A second import, into a package, on a host that hides one class and draws no associations. -/
theorem importText_appends_package :
    let text := "package Q \x7b\nclass A \x7b\nx\n\x7d\n\x7d\nclass B\nA --> B\nA <|-- B"
    let w := ((Workspace.new "Model").after
      (.createElement { kind := .package, parent := Workspace.root, name := "P" })).after
        (.select [⟨1⟩])
    let refusals : Refusals := { views := ["B"], relationships := ["association"] }
    let h : Host := { workspace := w, policy := refusals.policy }
    Grown w ⟨1⟩ (importText h text {}).2.workspace ∧
      (importText h text {}).2.workspace.repaints = 1 ∧
      (importText h text {}).2.workspace.owned ⟨1⟩ = [⟨2⟩, ⟨4⟩] := by
  intro text w refusals h
  have hreachable : w.Reachable := .step (.step (.new "Model") _) _
  obtain ⟨hgrown, hrepaints⟩ :=
    importText_appends h (show (workspace h).Reachable from hreachable) text {}
  refine ⟨hgrown, hrepaints, ?_⟩
  simp only [importText, layout, placeAll, Packages.openViews_eq_insertionSort, Strategy.arrange,
    Grid.arrange, Grid.groups_eq_insertionSort]
  decide +kernel

end UmlText
