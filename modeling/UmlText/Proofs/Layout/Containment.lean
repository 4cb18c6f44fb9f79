import UmlText.Proofs.Layout.Coverage

/-!
# UmlText.Proofs.Layout.Containment

**Boxes in boxes.** In the report of a layout the container of an entry is the view of the package
that owns its element, and every package box is exactly around what is directly inside it
(`nested_layout`). So, going up from container to container, every entry lies within all the boxes
around it, as far as the padding is not negative.
-/

namespace UmlText

universe u

open BackedStore (workspace)
open ModelStore (owningPackage?)
open Placement (Running entriesIn mem_entriesIn)

variable {σ : Type u} [ModelStore σ] [ViewStore σ] [BackedStore σ]

/-- An entry is inside another: its container is the view of the other one, or that of an entry
inside it. -/
inductive Inside (entries : List LayoutEntry) : LayoutEntry → LayoutEntry → Prop
  | direct {e box : LayoutEntry} (he : e ∈ entries) (hbox : box ∈ entries)
      (hcontainer : e.container = some box.view) : Inside entries e box
  | step {e box outer : LayoutEntry} (he : e ∈ entries) (hcontainer : e.container = some box.view)
      (houter : Inside entries box outer) : Inside entries e outer

/-- A report in which entries are in their proper containers and package boxes are exact. -/
structure Nested (start : Workspace) (s : PackageSettings) (report : LayoutReport) : Prop where
  /-- The container of an entry is the view of the package that owns it, if that has an entry. -/
  container_eq : ∀ e ∈ report.entries, e.container =
    (owningPackage? start e.element).bind fun package =>
      (report.entryOf? package).map LayoutEntry.view
  fits : ∀ box ∈ report.entries, start.kind? box.element = some .package →
    Packages.Fits s report.entries box
  contains : 0 ≤ s.padding → 0 ≤ s.header → ∀ e box, Inside report.entries e box →
    box.bounds.contains e.bounds

/-! ### From one box to all boxes around -/

omit [ModelStore σ] [ViewStore σ] [BackedStore σ] in
/-- A box that is exact is around everything directly inside it. -/
theorem Packages.Fits.contains {s : PackageSettings} {entries : List LayoutEntry}
    {e box : LayoutEntry} (h : Packages.Fits s entries box) (hpadding : 0 ≤ s.padding)
    (hheader : 0 ≤ s.header) (he : e ∈ entries) (hcontainer : e.container = some box.view) :
    box.bounds.contains e.bounds := by
  have hmem : e ∈ entriesIn entries box.view := mem_entriesIn.2 ⟨he, hcontainer⟩
  obtain ⟨content, hcontent, hbox⟩ := h.exists_content hmem
  rw [hbox]
  exact Bounds.contains_trans
    (Bounds.pad_contains content (by simp only [insets]; omega) hpadding hpadding hpadding)
    (Bounds.mergeAll_contains hcontent (List.mem_map_of_mem hmem))

/-- Where boxes are around what is directly inside them, they are around all that is inside. -/
theorem Inside.contains {entries : List LayoutEntry}
    (hdirect : ∀ e ∈ entries, ∀ box ∈ entries, e.container = some box.view →
      box.bounds.contains e.bounds) {e box : LayoutEntry} (h : Inside entries e box) :
    e ∈ entries ∧ box ∈ entries ∧ box.bounds.contains e.bounds := by
  induction h with
  | direct he hbox hcontainer => exact ⟨he, hbox, hdirect _ he _ hbox hcontainer⟩
  | step he hcontainer _ ih =>
      obtain ⟨hbox, houter, hcontains⟩ := ih
      exact ⟨he, houter, Bounds.contains_trans hcontains (hdirect _ he _ hbox hcontainer)⟩

/-! ### Reports -/

/-- The entry of an element is found under its number. -/
theorem entryOf?_eq {start : Workspace} {p : Placement σ} (h : Running start p)
    {report : LayoutReport} (hentries : report.entries = p.entries) (element : ElementId) :
    (report.entryOf? element).map LayoutEntry.view = p.viewOf? element := by
  rw [LayoutReport.entryOf?, hentries]
  cases hfound : p.entries.find? fun e => e.element = element with
  | none =>
      symm
      rw [Option.map_none, Placement.viewOf?, OrderedMap.get?_eq_none_iff, ← h.map_element]
      intro hmem
      obtain ⟨e, he, rfl⟩ := List.mem_map.1 hmem
      exact List.find?_eq_none.1 hfound e he (decide_eq_true rfl)
  | some e =>
      have helement : e.element = element := by simpa using List.find?_some hfound
      symm
      rw [Option.map_some, h.viewOf?_eq_some, ← h.map_entries, ← helement]
      exact List.mem_map_of_mem (List.mem_of_find?_eq_some hfound)

/-- **A layout puts boxes around what is inside them.** -/
theorem nested_layout (store : σ) (h : (workspace store).Numbered) (diagram : DiagramId)
    (parsed : Parsed) (hkinds : ∀ e ∈ parsed.uniqueElements, ((workspace store).kind? e).isSome)
    (s : LayoutSettings) :
    Nested (workspace store) s.packages (layout store diagram parsed s).1 := by
  obtain ⟨packages, hplaced, hsettled⟩ := placed_placeAll store h diagram hkinds s
  have hentries : (layout store diagram parsed s).1.entries
      = (placeAll store diagram parsed s).entries := Relationships.entries_realize _ _
  have hfits : ∀ box ∈ (layout store diagram parsed s).1.entries,
      (workspace store).kind? box.element = some .package →
        Packages.Fits s.packages (layout store diagram parsed s).1.entries box := by
    intro box hbox hkind
    rw [hentries] at hbox ⊢
    have hkey : box.element ∈ (placeAll store diagram parsed s).views.keys := by
      rw [← hplaced.running.map_element]
      exact List.mem_map_of_mem hbox
    exact hsettled box.element (hplaced.mem_packages _ hkey hkind) box.view
      (hplaced.running.viewOf?_element hbox) box hbox rfl
  refine ⟨?_, hfits, ?_⟩
  · intro e he
    simp only [entryOf?_eq hplaced.running hentries]
    rw [hentries] at he
    exact hplaced.running.container_eq e he
  · intro hpadding hheader e box hinside
    refine (hinside.contains fun e he box hbox hcontainer => ?_).2.2
    refine (hfits box hbox ?_).contains hpadding hheader he hcontainer
    rw [hentries] at he hbox
    obtain ⟨q, hq, hview, howner⟩ := hplaced.running.container_mem he hcontainer
    rw [hplaced.running.eq_of_view_eq hbox hq hview.symm]
    exact kind?_of_owningPackage? howner

/-- **Exact package fitting and containment.** Whatever text was read, whichever strategy arranges
it and whatever the host refuses: in the report of a layout every entry is in its proper container,
the box of every package is exactly around what is directly inside it, and no entry sticks out of a
box around it. -/
theorem layout_nests_parsed {h read : Host} {root : ElementId} {source : String} {parsed : Parsed}
    (hreachable : h.workspace.Reachable) (hparse : parse h root source = (parsed, read))
    (policy : Policy) (diagram : DiagramId) (kind : DiagramKind) (s : LayoutSettings) :
    Nested read.workspace s.packages
      (layout ({ read with policy } : Host) diagram { parsed with diagramKind := kind } s).1 := by
  have hdeclared := declares_parse (show (workspace h).Reachable from hreachable) hparse
  exact nested_layout ({ read with policy } : Host) hdeclared.1.numbered diagram
    { parsed with diagramKind := kind } hdeclared.2 s

/-- Two packages, one in the other, whose boxes are around a class. -/
theorem nests_two_packages :
    ∃ (parsed : Parsed) (read : Host),
      parse (Host.mk
        ((Workspace.new "Model").after (.createDiagram .classDiagram Workspace.root)) {})
        Workspace.root
          "package P \x7b\npackage Q \x7b\nclass A\n\x7d\n\x7d" = (parsed, read) ∧
      (layout ({ read with policy := {} } : Host) ⟨0⟩
        { parsed with diagramKind := .classDiagram } {}).1.entries.map LayoutEntry.bounds
          = [⟨40, 100, 260, 325⟩, ⟨70, 160, 230, 295⟩, ⟨100, 220, 200, 265⟩] ∧
      Nested read.workspace {} (layout ({ read with policy := {} } : Host) ⟨0⟩
        { parsed with diagramKind := .classDiagram } {}).1 := by
  refine ⟨_, _, rfl, ?_, layout_nests_parsed
    (.step (.new "Model") (.createDiagram .classDiagram ⟨0⟩)) rfl _ _ _ {}⟩
  simp only [layout, placeAll, Packages.openViews_eq_insertionSort, Strategy.arrange, Grid.arrange,
    Grid.groups_eq_insertionSort]
  decide +kernel

end UmlText
