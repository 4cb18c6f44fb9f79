import UmlText.Proofs.Import.Appending
import UmlText.Proofs.Layout.Replaying
import UmlText.Proofs.Reading.Grafting
import UmlText.Proofs.Reading.Interning
import UmlText.Proofs.Store.Sound

/-!
# UmlText.Proofs.Import.Independence

**What was there before does not matter.** A text that is imported into a workspace, whatever
requests made it and whatever is selected there, declares and lays out what it declares and lays out
in a new workspace, under other numbers: the import parent stands in for the project, and elements
and views are numbered on from where those of the workspace end. Nor does it matter which names were
interned before.
-/

namespace UmlText

open Workspace (Ground root)

/-! ### Numbers that are free -/

/-- The numbers of what is imported into `w` below `parent`: those that `w` has not given yet. The
first diagram of a new workspace is `diagram`. -/
def Renumbering.onto (w : Workspace) {parent : ElementId} (hparent : parent.index < w.elements.length)
    (diagram : DiagramId) : Renumbering where
  element
    | ⟨0⟩ => parent
    | ⟨i + 1⟩ => ⟨w.elements.length + i⟩
  view id := ⟨w.nextView + id.index⟩
  diagram id := ⟨diagram.index + id.index⟩
  element_injective := by
    rintro ⟨_ | i⟩ ⟨_ | j⟩ h
    · rfl
    · exact absurd (congrArg ElementId.index h) (by simp only; omega)
    · exact absurd (congrArg ElementId.index h) (by simp only; omega)
    · have h := congrArg ElementId.index h
      simp only at h
      rw [Nat.add_left_cancel h]
  view_injective := by
    rintro ⟨i⟩ ⟨j⟩ h
    simpa using h
  diagram_injective := by
    rintro ⟨i⟩ ⟨j⟩ h
    simpa using h

/-! ### The diagram -/

/-- The workspace with one more diagram, which is the current one. -/
def Workspace.withDiagram (w : Workspace) (kind : DiagramKind) (owner : ElementId) : Workspace :=
  { w with
    diagrams := w.diagrams ++ [{ id := ⟨w.diagrams.length⟩, kind, owner }]
    current := some ⟨w.diagrams.length⟩ }

/-- A workspace that differs from another one in its diagrams alone, and has one of a kind. -/
structure Workspace.Opened (w opened : Workspace) (kind : DiagramKind) (diagram : DiagramId) :
    Prop where
  elements_eq : opened.elements = w.elements
  views_eq : opened.views = w.views
  relationshipViews_eq : opened.relationshipViews = w.relationshipViews
  nextView_eq : opened.nextView = w.nextView
  kind_eq : (opened.diagram? diagram).map Diagram.kind = some kind

/-- There is a diagram of the kind that is asked for, or one is created. -/
theorem opened_diagramForImport {w : Workspace} (h : w.Drawn) {owner : ElementId} {e : Element}
    (howner : w.element? owner = some e) (kind : DiagramKind) :
    ∃ diagram opened, diagramForImport w kind owner = (some diagram, opened) ∧
      w.Opened opened kind diagram := by
  cases hcurrent : (ViewStore.currentDiagram? w).filter fun d => d.kind = kind with
  | some current =>
      obtain ⟨hcurrent', hkind⟩ := Option.filter_eq_some_iff.1 hcurrent
      obtain ⟨id, -, hid⟩ := Option.bind_eq_some_iff.1 hcurrent'
      refine ⟨current.id, w, by simp only [diagramForImport, ensureDiagram, hcurrent],
        rfl, rfl, rfl, rfl, ?_⟩
      rw [h.diagram_id id current hid, hid, Option.map_some, of_decide_eq_true hkind]
  | none =>
      have hcreate : ViewStore.createDiagram w kind owner
          = (.ok ⟨w.diagrams.length⟩, w.withDiagram kind owner) := by
        change w.createDiagram kind owner = _
        simp only [Workspace.createDiagram, howner, Workspace.withDiagram]
      have hknown : (w.withDiagram kind owner).diagram? ⟨w.diagrams.length⟩
          = some { id := ⟨w.diagrams.length⟩, kind, owner } := List.getElem?_concat_length
      have hopen : ViewStore.setCurrentDiagram (w.withDiagram kind owner) ⟨w.diagrams.length⟩
          = (.ok (), w.withDiagram kind owner) := by
        change Workspace.setCurrentDiagram _ _ = _
        simp only [Workspace.setCurrentDiagram, hknown]
        rfl
      refine ⟨⟨w.diagrams.length⟩, w.withDiagram kind owner,
        by simp only [diagramForImport, ensureDiagram, hcurrent, hcreate, hopen],
        rfl, rfl, rfl, rfl, ?_⟩
      rw [hknown, Option.map_some]

/-- An import has a diagram of the kind that the text asks for, in a workspace that is reachable
as well. -/
theorem reachable_diagramForImport {w : Workspace} (h : w.Reachable)
    (hparent : (w.element? (rootParent w)).isSome) (kind : DiagramKind) :
    ∃ diagram opened, diagramForImport w kind (rootParent w) = (some diagram, opened) ∧
      opened.Reachable ∧ w.Opened opened kind diagram := by
  obtain ⟨parent, hparent⟩ := Option.isSome_iff_exists.1 hparent
  obtain ⟨diagram, opened, hdiagram, hopened⟩ := opened_diagramForImport
    (Workspace.Reachable.sound h).drawn hparent kind
  have hstore := (growing_diagramForImport (σ := Workspace) h kind (rootParent w)
    (rootParent w)).2
  rw [hdiagram] at hstore
  exact ⟨diagram, opened, hdiagram, hstore, hopened⟩

/-! ### The graft of a new workspace -/

/-- Numbers that go on from one workspace go on from another one with the same elements. -/
theorem Workspace.Ground.congr {w w' : Workspace} {ρ : Renumbering} (h : w.Ground ρ)
    (hnumbered : w'.Numbered) (helements : w'.elements = w.elements)
    (hnextView : w'.nextView = w.nextView) : w'.Ground ρ where
  numbered := hnumbered
  element_succ i := by rw [helements]; exact h.element_succ i
  view_eq i := by rw [hnextView]; exact h.view_eq i
  parent_node := by
    obtain ⟨e, he, hnode⟩ := h.parent_node
    exact ⟨e, by rw [Workspace.element?, helements]; exact he, hnode⟩

/-- The numbers are those that `w` gives next. -/
theorem ground_onto {w : Workspace} (h : w.Numbered) {parent : ElementId} {e : Element}
    (hparent : w.element? parent = some e) (hnode : e.body.relationship? = none)
    (diagram : DiagramId) :
    w.Ground (.onto w (Workspace.lt_of_element? hparent) diagram) where
  numbered := h
  element_succ _ := rfl
  view_eq _ := rfl
  parent_node := ⟨e, hparent, hnode⟩

section New

variable (projectName : String) (kind : DiagramKind)

theorem sprout_new : ((Workspace.new projectName).withDiagram kind root).Sprout where
  root_body := rfl
  numbered := (Workspace.Reachable.new projectName |>.step (.createDiagram kind root)).numbered

theorem nested_new : ((Workspace.new projectName).withDiagram kind root).Nested := by
  intro id hid hknown
  obtain ⟨i, rfl⟩ := Workspace.exists_succ_of_ne_root hid
  cases hknown

/-- A new workspace adds nothing. -/
theorem graft_new (base : Workspace) (ρ : Renumbering) :
    base.graft ρ ((Workspace.new projectName).withDiagram kind root) = base := by
  have hgraft : base.graft ρ ((Workspace.new projectName).withDiagram kind root) = { base with
      elements := extended base.elements (ρ.element root) [] []
      views := base.views ++ []
      relationshipViews := base.relationshipViews ++ [] } := rfl
  rw [hgraft, extended_nil, List.append_nil, List.append_nil]

end New

/-! ### Importing -/

/-- An import of a text into `w` that did what an import into a new workspace did, under the numbers
that `w` had not given yet. -/
structure SameImport (w : Workspace) (ρ : Renumbering) (run fresh : ImportOutcome × Workspace) :
    Prop where
  /-- The parent stands in for the project, and what is new is numbered on. -/
  ground : w.Ground ρ
  root_eq : ρ.element root = rootParent w
  /-- The same names, blueprints, diagnostics, entries, relationships and skips. -/
  outcome_eq : run.1 = fresh.1.renumber ρ
  /-- The parent owns what the project owns, and the new elements are the same. -/
  elements_eq : run.2.elements = extended w.elements (ρ.element root)
    ((fresh.2.owned root).map ρ.element) (fresh.2.elements.tail.map (·.renumber ρ))
  views_eq : run.2.views = w.views ++ fresh.2.views.map (·.renumber ρ)
  relationshipViews_eq : run.2.relationshipViews
    = w.relationshipViews ++ fresh.2.relationshipViews.map (·.renumber ρ)
  /-- There is a diagram, and it is of the same kind. -/
  diagram_kind : ∃ d ∈ fresh.1.diagram,
    (run.2.diagram? (ρ.diagram d)).map Diagram.kind = some fresh.1.parsed.diagramKind ∧
      (fresh.2.diagram? d).map Diagram.kind = some fresh.1.parsed.diagramKind

/-- An import, once there is a diagram and the text is read. -/
theorem importText_eq {store opened read : Workspace} {source : String} {parsed : Parsed}
    {diagram : DiagramId}
    (hdiagram : diagramForImport store (detectDiagramKind source) (rootParent store)
      = (some diagram, opened))
    (hparse : parse opened (rootParent store) source = (parsed, read)) (s : LayoutSettings) :
    importText store source s
      = ({ diagram := some diagram, rootParent := rootParent store, parsed
           layout := (layout read diagram parsed s).1 }, (layout read diagram parsed s).2.repaint) := by
  simp only [importText, hdiagram, hparse]
  rfl

/-- An import into a new workspace is laid out on a new diagram. -/
theorem diagramForImport_new (project : String) (kind : DiagramKind) :
    ∃ w : Workspace, diagramForImport (Workspace.new project) kind Workspace.root = (some ⟨0⟩, w) ∧
      w.Reachable ∧ w.elements = (Workspace.new project).elements ∧ (w.diagram? ⟨0⟩).isSome :=
  ⟨_, rfl, (Workspace.Reachable.new project).step (.createDiagram kind Workspace.root) |>.step
    (.openDiagram ⟨0⟩), rfl, rfl⟩

/-- The text is parsed into a workspace of one project with an open diagram. -/
theorem importText_new (project text : String) (s : LayoutSettings) :
    ∃ (start : Workspace) (parsed : Parsed) (read : Workspace),
      start.Reachable ∧ start.elements = (Workspace.new project).elements ∧
      (start.diagram? ⟨0⟩).isSome ∧ parse start Workspace.root text = (parsed, read) ∧
      importText (Workspace.new project) text s
        = ({ diagram := some ⟨0⟩, rootParent := Workspace.root, parsed,
              layout := (layout read ⟨0⟩ parsed s).1 }, (layout read ⟨0⟩ parsed s).2.repaint) := by
  obtain ⟨start, hstart, hreachable, helements, hdiagram⟩ :=
    diagramForImport_new project (detectDiagramKind text)
  obtain ⟨parsed, read, hparse⟩ : ∃ parsed read, parse start Workspace.root text = (parsed, read) :=
    ⟨_, _, rfl⟩
  refine ⟨start, parsed, read, hreachable, helements, hdiagram, hparse, ?_⟩
  simp only [importText, show rootParent (Workspace.new project) = Workspace.root from rfl,
    hstart, hparse]
  rfl

/-- **A text is imported into any workspace as into a new one.** -/
theorem sameImport_importText {w : Workspace} (h : w.Reachable) {parent : Element}
    (hparent : w.element? (rootParent w) = some parent) (hnode : parent.body.relationship? = none)
    (projectName source : String) (s : LayoutSettings) :
    ∃ ρ, SameImport w ρ (importText w source s)
      (importText (Workspace.new projectName) source s) := by
  obtain ⟨diagram, opened, hdiagram, hreachable, hopened⟩ :=
    reachable_diagramForImport h (by rw [hparent]; rfl) (detectDiagramKind source)
  let ρ : Renumbering := .onto w (Workspace.lt_of_element? hparent) diagram
  have hground : w.Ground ρ := ground_onto h.numbered hparent hnode diagram
  have hbase : opened.Ground ρ :=
    hground.congr hreachable.numbered hopened.elements_eq hopened.nextView_eq
  -- Reading the text into the new workspace, and into this one.
  let start := (Workspace.new projectName).withDiagram (detectDiagramKind source) root
  have hstart : diagramForImport (Workspace.new projectName) (detectDiagramKind source)
      (rootParent (Workspace.new projectName)) = (some ⟨0⟩, start) := rfl
  obtain ⟨parsed, read, hparse⟩ :
      ∃ parsed read, parse start root source = (parsed, read) := ⟨_, _, rfl⟩
  obtain ⟨hsprout, hnested, hdeclared, hparse'⟩ :=
    parse_graft hbase (sprout_new projectName _) (nested_new projectName _) hparse
  rw [graft_new] at hparse'
  have hkind : parsed.diagramKind = detectDiagramKind source := by
    rw [← show (parse start root source).1 = parsed from congrArg Prod.fst hparse]
    rfl
  -- The diagram of the new workspace stays.
  have hstarted : start.Numbered := (sprout_new projectName _).numbered
  obtain ⟨hread, hsources⟩ := growing_parse (Workspace.Growing.refl start root) hparse
  have hknown : ∀ {v : Workspace}, start.Growing root v →
      v.diagram? ⟨0⟩ = some { id := ⟨0⟩, kind := detectDiagramKind source, owner := root } := by
    intro v hv
    obtain ⟨added, hdiagrams, -⟩ := hv.diagrams_eq
    rw [Workspace.diagram?, hdiagrams]
    rfl
  have hlaid : start.Growing root (layout read ⟨0⟩ parsed s).2 :=
    growing_layout hstarted hsprout.numbered hread ⟨0⟩ hsources s
  -- Laying it out here and there.
  have hopenedKind : (opened.diagram? (ρ.diagram ⟨0⟩)).map Diagram.kind
      = some (detectDiagramKind source) := hopened.kind_eq
  have hlayout := layout_graft hbase hsprout hnested (congrArg Option.isSome (hknown hread))
    (by rw [← Option.isSome_map, hopenedKind]; rfl) hdeclared s
  have hdiagram : diagramForImport w (detectDiagramKind source) (rootParent w)
      = (some (ρ.diagram ⟨0⟩), opened) := hdiagram
  have hrun := importText_eq hdiagram hparse' s
  have hfresh := importText_eq hstart hparse s
  rw [hlayout] at hrun
  refine ⟨ρ, hground, rfl, ?_, ?_, ?_, ?_, ?_⟩
  · rw [hrun, hfresh]; rfl
  · rw [hrun, hfresh, ← hopened.elements_eq]; rfl
  · rw [hrun, hfresh, ← hopened.views_eq]; rfl
  · rw [hrun, hfresh, ← hopened.relationshipViews_eq]; rfl
  · rw [hrun, hfresh]
    refine ⟨⟨0⟩, rfl, ?_, ?_⟩
    · rw [hkind]; exact hopenedKind
    · rw [hkind]
      exact congrArg (Option.map Diagram.kind) (hknown hlaid)

/-- An import takes nothing but requests, so it can be followed by another one. -/
theorem reachable_importText {w : Workspace} (h : w.Reachable) (source : String)
    (s : LayoutSettings) : (importText w source s).2.Reachable := by
  have hopened := (growing_diagramForImport (σ := Workspace) h (detectDiagramKind source)
    (rootParent w) (rootParent w)).2
  simp only [importText]
  rcases hdiagram : diagramForImport w (detectDiagramKind source) (rootParent w)
    with ⟨diagram, opened⟩
  rw [hdiagram] at hopened
  obtain ⟨parsed, read, hparse⟩ :
      ∃ parsed read, parse opened (rootParent w) source = (parsed, read) := ⟨_, _, rfl⟩
  have hread := (declares_parse hopened hparse).1
  simp only [hparse]
  cases diagram with
  | none => exact Workspace.Reachable.step hread .repaint
  | some diagram =>
      have hplaced := reachable_placeAll hread diagram parsed s
      exact (Relationships.reachable_realize hplaced parsed.blueprints).step .repaint

/-! ### The result -/

/-- **Imports do not depend on what was before them.** Whatever requests made a workspace, whatever
is selected in it, so long as that can own elements, and whatever names were interned before: a text
is imported as it is into a new workspace, up to numbers. -/
theorem importInterned_independent {ι κ : Type} [Interner ι κ] [LawfulInterner ι κ] [DecidableEq κ]
    (names names' : ι) {w : Workspace} (h : w.Reachable) {parent : Element}
    (hparent : w.element? (rootParent w) = some parent) (hnode : parent.body.relationship? = none)
    (projectName source : String) (s : LayoutSettings) :
    ∃ ρ, SameImport w ρ (importInterned names w source s).1
      (importInterned names' (Workspace.new projectName) source s).1 := by
  rw [importInterned_eq, importInterned_eq]
  exact sameImport_importText h hparent hnode projectName source s

/-- A second import, into a package inside a package that the first one declared. -/
theorem importInterned_independent_nested :
    let earlier := "package Outer \x7b\npackage Inner \x7b\nclass A\n\x7d\n\x7d\nA --> A"
    let text := "package P \x7b\nclass B \x7b\nx\n\x7d\n\x7d\nclass A\nB --> A\nC --> A"
    let w := (importText (Workspace.new "Model") earlier {}).2.after (.select [⟨2⟩])
    let used : NameList := { names := ["Outer", "Inner", "A", "C"] }
    let unused : NameList := {}
    (w.kind? (rootParent w) = some .package ∧ w.views.length = 3) ∧
      ∃ ρ, SameImport w ρ (importInterned used w text {}).1
        (importInterned unused (Workspace.new "Other") text {}).1 := by
  intro earlier text w used unused
  have hreachable : w.Reachable :=
    (reachable_importText (.new "Model") earlier {}).step (.select [⟨2⟩])
  have hkind : w.kind? (rootParent w) = some .package ∧ w.views.length = 3 := by
    simp only [w, Workspace.after, importText, layout, placeAll, Packages.openViews_eq_insertionSort,
      Strategy.arrange, Grid.arrange, Grid.groups_eq_insertionSort]
    decide +kernel
  obtain ⟨parent, hparent, hparentKind⟩ := Option.bind_eq_some_iff.1 hkind.1
  have hisSome : parent.body.kind?.isSome := by rw [← Element.kind?, hparentKind]; rfl
  exact ⟨hkind, importInterned_independent used unused hreachable hparent
    (Body.relationship?_of_kind? hisSome) "Other" text {}⟩

end UmlText
