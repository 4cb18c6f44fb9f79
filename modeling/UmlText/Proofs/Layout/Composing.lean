import UmlText.Proofs.Layout.Settling
import UmlText.Proofs.Layout.Strangers

/-!
# UmlText.Proofs.Layout.Composing

**The boxes of a class diagram.** A layout of a class diagram with the usual settings is `Composed`:
first the packages get their views, then everything else goes into blocks by the packages around it,
at last the packages are fitted (`composed_placeAll`). So it is known exactly when a package covers
a stranger.
-/

namespace UmlText

universe u

open BackedStore (workspace)
open ModelStore (owningPackage?)
open Placement (Awaiting Running)

variable {σ : Type u} [ModelStore σ] [ViewStore σ] [BackedStore σ]

namespace Grid

variable {start : Workspace} {diagram : DiagramId} {roots packages : List ElementId}
  {p : Placement σ}

/-- The groups hold everything but packages. -/
theorem perm_flatMap_members (h : Packages.Opened start diagram roots p packages)
    (hnodup : roots.Nodup) : ((groups p roots).flatMap Group.members).Perm
      (roots.filter fun e => (start.kind? e).any (· ≠ .package)) := by
  have hperm := perm_groups p hnodup
  unfold gridElements at hperm
  simpa only [h.running.kind?_eq] using hperm

/-- Everything but packages is placed in its block. -/
theorem settles_arrange (h : Packages.Opened start diagram roots p packages)
    (hnodup : roots.Nodup) :
    ∃ es, Packages.Settles start p (arrange p roots {} {}) es ∧ Spread (groupKey p roots) es := by
  have hperm := perm_flatMap_members h hnodup
  obtain ⟨es, hentries, hspread⟩ := spread_arrange (h.awaiting hnodup hperm)
  exact ⟨es, h.settles hnodup (tries_arrange p roots {} {}) hperm hentries, hspread⟩

end Grid

theorem Grid.Spread.of_mem_iff {key : ElementId → List Nat} {es es' : List LayoutEntry}
    (h : Grid.Spread key es) (hmem : ∀ e, e ∈ es' ↔ e ∈ es) : Grid.Spread key es' where
  solid e he := h.solid e ((hmem e).1 he)
  flush e he := by
    obtain ⟨e', he', hkey, hleft⟩ := h.flush e ((hmem e).1 he)
    exact ⟨e', (hmem e').2 he', hkey, hleft⟩
  gap e he e' he' := h.gap e ((hmem e).1 he) e' ((hmem e').1 he')

/-- **A class diagram is composed** of blocks and packages, up to the end of the grid. -/
theorem composed_placeAll (store : σ) (h : (workspace store).Numbered) (diagram : DiagramId)
    {parsed : Parsed} (hkind : parsed.diagramKind = .classDiagram)
    (hkinds : ∀ e ∈ parsed.uniqueElements, ((workspace store).kind? e).isSome)
    (hend : ∀ e ∈ (placeAll store diagram parsed {}).entries,
      e.bounds.maxY ≤ Saturating.highest) :
    ∃ rank key, Composed (workspace store) rank key (placeAll store diagram parsed {}) := by
  have hnodup : parsed.uniqueElements.Nodup := nodup_eraseDups _
  have hopened := Packages.opened_openViews h diagram hnodup
  obtain ⟨es, hsettles, hspread⟩ := Grid.settles_arrange hopened hnodup
  have hplace : placeAll store diagram parsed {} = Packages.fit
      (Grid.arrange (Packages.openViews ({ store, diagram } : Placement σ)
        parsed.uniqueElements).1 parsed.uniqueElements {} {})
      (Packages.openViews ({ store, diagram } : Placement σ) parsed.uniqueElements).2
      ⟨100, 100⟩ {} := by
    simp only [placeAll, hkind, Strategy.ofDiagram, Strategy.arrange, Strategy.origin]
  have hfitted := hsettles.fitted hopened hspread.solid ⟨100, 100⟩
  rw [← hplace] at hfitted
  have hrunning := hfitted.intact.redrawn.running
  obtain ⟨packages, hplaced, hsettled⟩ := placed_placeAll store h diagram hkinds {}
  have hkey : ∀ e ∈ (placeAll store diagram parsed {}).entries,
      e.element ∈ (placeAll store diagram parsed {}).views.keys := by
    intro e he
    rw [← hrunning.map_element]
    exact List.mem_map_of_mem he
  refine ⟨_, _, {
    running := hrunning
    keyed := Grid.keyed_groupKey hopened.running hrunning (fun package hpackage => ?_)
      (fun e he _ => hplaced.perm.mem_iff.1 (List.mem_append_left _ (hkey e he)))
    spread := hspread.of_mem_iff fun e => hsettles.mem_iff hfitted.intact
    le_highest := hend
    solid := hfitted.solid
    fits := fun box hbox hpackage => hsettled _ (hplaced.mem_packages _ (hkey box hbox) hpackage)
      box.view (hrunning.viewOf?_element hbox) box hbox rfl
    arranged := hfitted.arranged
    lowered := hfitted.lowered }⟩
  rw [← hsettles.viewOf?_isSome hopened.running hpackage, Placement.viewOf?,
    hfitted.intact.redrawn.views_eq]
  rfl

/-- **When a package covers a stranger.** Whatever text was read, if it is laid out as a class
diagram with the usual settings and stays on the grid: no package shares area with an entry that is
neither inside nor around it, exactly if no floating package reaches down to an anchored one. -/
theorem layout_covers_no_stranger_iff {h read : Host} {root : ElementId} {source : String}
    {parsed : Parsed} (hreachable : h.workspace.Reachable)
    (hparse : parse h root source = (parsed, read))
    (hkind : parsed.diagramKind = .classDiagram) (policy : Policy) (diagram : DiagramId)
    (hend : ∀ e ∈ (layout ({ read with policy } : Host) diagram parsed {}).1.entries,
      e.bounds.maxY ≤ Saturating.highest) :
    CoversNoStranger read.workspace
        (layout ({ read with policy } : Host) diagram parsed {}).1.entries ↔
      FloatsClear read.workspace
        (layout ({ read with policy } : Host) diagram parsed {}).1.entries := by
  have hdeclared := declares_parse (show (workspace h).Reachable from hreachable) hparse
  have hentries : (layout ({ read with policy } : Host) diagram parsed {}).1.entries
      = (placeAll ({ read with policy } : Host) diagram parsed {}).entries :=
    Relationships.entries_realize _ _
  rw [hentries] at hend ⊢
  obtain ⟨rank, key, hcomposed⟩ := composed_placeAll ({ read with policy } : Host)
    hdeclared.1.numbered diagram hkind hdeclared.2 hend
  exact hcomposed.coversNoStranger_iff

/-- A class beside four empty packages, one in the other, and a package below. -/
def nestedText : String :=
  "package Outer \x7b\nclass A\npackage E \x7b\npackage F \x7b\npackage G \x7b\npackage H \x7b\n" ++
    "\x7d\n\x7d\n\x7d\n\x7d\n\x7d\npackage Other \x7b\nclass B\n\x7d"

/-- The empty packages reach down to the package below, and the box around them covers it. -/
theorem covers_stranger_nestedText :
    ∃ (parsed : Parsed) (read : Host),
      parse (Host.mk
        ((Workspace.new "Model").after (.createDiagram .classDiagram Workspace.root)) {})
        Workspace.root nestedText = (parsed, read) ∧
      (∃ box ∈ (layout ({ read with policy := {} } : Host) ⟨0⟩ parsed {}).1.entries,
        ∃ e ∈ (layout ({ read with policy := {} } : Host) ⟨0⟩ parsed {}).1.entries,
          Stranger (layout ({ read with policy := {} } : Host) ⟨0⟩ parsed {}).1.entries e box ∧
            box.bounds = ⟨70, 100, 660, 610⟩ ∧ e.bounds = ⟨70, 560, 230, 695⟩) ∧
      ¬ FloatsClear read.workspace
        (layout ({ read with policy := {} } : Host) ⟨0⟩ parsed {}).1.entries := by
  obtain ⟨parsed, read, hparse⟩ : ∃ parsed read,
      parse (Host.mk
        ((Workspace.new "Model").after (.createDiagram .classDiagram Workspace.root)) {})
        Workspace.root nestedText = (parsed, read) := ⟨_, _, Prod.mk.eta.symm⟩
  obtain ⟨hkind, hpackage, hentries⟩ : parsed.diagramKind = .classDiagram ∧
      read.workspace.kind? ⟨1⟩ = some .package ∧
      (layout ({ read with policy := {} } : Host) ⟨0⟩ parsed {}).1.entries
      = [⟨⟨1⟩, ⟨0⟩, ⟨70, 100⟩, ⟨590, 510⟩, none⟩, ⟨⟨7⟩, ⟨1⟩, ⟨70, 560⟩, ⟨160, 135⟩, none⟩,
        ⟨⟨3⟩, ⟨2⟩, ⟨250, 160⟩, ⟨380, 420⟩, some ⟨0⟩⟩, ⟨⟨4⟩, ⟨3⟩, ⟨280, 220⟩, ⟨320, 330⟩, some ⟨2⟩⟩,
        ⟨⟨5⟩, ⟨4⟩, ⟨310, 280⟩, ⟨260, 240⟩, some ⟨3⟩⟩, ⟨⟨6⟩, ⟨5⟩, ⟨340, 340⟩, ⟨200, 150⟩, some ⟨4⟩⟩,
        ⟨⟨2⟩, ⟨6⟩, ⟨100, 160⟩, ⟨100, 45⟩, some ⟨0⟩⟩,
        ⟨⟨8⟩, ⟨7⟩, ⟨100, 620⟩, ⟨100, 45⟩, some ⟨1⟩⟩] := by
    obtain ⟨rfl, rfl⟩ := Prod.mk.inj hparse
    simp only [layout, placeAll, Packages.openViews_eq_insertionSort, Strategy.arrange,
      Grid.arrange, Grid.groups_eq_insertionSort]
    decide +kernel
  have hiff := layout_covers_no_stranger_iff
    (.step (.new "Model") (.createDiagram .classDiagram ⟨0⟩)) hparse hkind {} ⟨0⟩ (by
      rw [hentries]
      decide)
  have hstranger : Stranger (layout ({ read with policy := {} } : Host) ⟨0⟩ parsed {}).1.entries
      ⟨⟨7⟩, ⟨1⟩, ⟨70, 560⟩, ⟨160, 135⟩, none⟩ ⟨⟨1⟩, ⟨0⟩, ⟨70, 100⟩, ⟨590, 510⟩, none⟩ :=
    .of_container rfl rfl (by decide)
  refine ⟨parsed, read, hparse, ⟨_, ?_, _, ?_, hstranger, rfl, rfl⟩, ?_⟩
  · simp [hentries]
  · simp [hentries]
  · intro hclear
    exact hiff.2 hclear _ (by simp [hentries]) hpackage _ (by simp [hentries]) hstranger (by decide)

end UmlText
