import UmlText.Proofs.Layout.Composing
import UmlText.Proofs.Layout.Keeping

/-!
# UmlText.Proofs.Layout.Spacing

**The blocks of a grid leave room for package boxes**, whatever the settings are, as long as they
only go forward and the grid does not come to its end (`leavesRoom_layout`). The group of an entry
is told by the packages around it. Groups come in the order in which their packages were declared,
a package's own members before those of the packages inside it, so that what is inside a package is
never interrupted by anything else. Between two groups there is room for the lower borders around
the one and for the headers around the other.
-/

namespace UmlText

universe u

open BackedStore (workspace)
open Placement (Running)

variable {σ : Type u} [ModelStore σ] [ViewStore σ] [BackedStore σ]

namespace Grid

/-! ### The order of groups -/

/-- One group comes before another if the packages around it are also around the other, which is in
further ones, or if at the first package that they do not share its own was declared earlier. -/
inductive Precedes : List Nat → List Nat → Prop
  | outer (key : List Nat) (rank : Nat) (inner : List Nat) : Precedes key (key ++ rank :: inner)
  | earlier (common : List Nat) {a b : Nat} (h : a < b) (inner inner' : List Nat) :
      Precedes (common ++ a :: inner) (common ++ b :: inner')

theorem Precedes.cons {key key' : List Nat} (rank : Nat) (h : Precedes key key') :
    Precedes (rank :: key) (rank :: key') := by
  cases h with
  | outer _ next inner => exact .outer (rank :: key) next inner
  | earlier common h inner inner' => exact .earlier (rank :: common) h inner inner'

theorem precedes_of_keyLE : ∀ {key key' : List Nat}, keyLE key key' → key ≠ key' →
    Precedes key key'
  | [], [], _, hne => absurd rfl hne
  | [], rank :: inner, _, _ => .outer [] rank inner
  | _ :: _, [], hle, _ => by simp [keyLE] at hle
  | a :: inner, b :: inner', hle, hne => by
      simp only [keyLE, Bool.or_eq_true, decide_eq_true_eq, Bool.and_eq_true] at hle
      rcases hle with hlt | ⟨rfl, hle⟩
      · exact .earlier [] hlt inner inner'
      · exact (precedes_of_keyLE hle fun heq => hne (by rw [heq])).cons a

/-- Groups are sorted by this order. -/
theorem precedes_iff {key key' : List Nat} :
    Precedes key key' ↔ keyLE key key' ∧ key ≠ key' := by
  constructor
  · intro h
    cases h with
    | outer _ rank inner => exact ⟨keyLE_append _ _, by simp⟩
    | earlier common h inner inner' =>
        rw [keyLE_append_left]
        simp only [keyLE, h, decide_true, Bool.true_or, ne_eq, List.append_cancel_left_eq,
          List.cons.injEq, true_and]
        omega
  · exact fun h => precedes_of_keyLE h.1 h.2

/-- What is between two groups inside a package is inside it, too. -/
theorem exists_eq_append_of_between : ∀ {outer inner inner' key : List Nat},
    keyLE (outer ++ inner) key → keyLE key (outer ++ inner') → ∃ rest, key = outer ++ rest
  | [], _, _, key, _, _ => ⟨key, rfl⟩
  | _ :: _, _, _, [], hle, _ => by simp [keyLE] at hle
  | a :: outer, _, _, b :: key, hle, hle' => by
      simp only [List.cons_append, keyLE, Bool.or_eq_true, decide_eq_true_eq,
        Bool.and_eq_true] at hle hle'
      obtain rfl : a = b := by omega
      simp only [Nat.lt_irrefl, false_or, true_and] at hle hle'
      obtain ⟨rest, rfl⟩ := exists_eq_append_of_between hle hle'
      exact ⟨rest, rfl⟩

end Grid

/-! ### Room between groups -/

/-- Entries that are in groups by the packages around them, with room for the boxes of these. -/
structure LeavesRoom (start : Workspace) (s : PackageSettings) (rank : ElementId → Nat)
    (key : ElementId → List Nat) (entries : List LayoutEntry) : Prop where
  /-- The key of a group lists the packages around it, outermost first. -/
  keyed : Keyed start rank key entries
  in_order : (entries.filter fun e => start.kind? e.element ≠ some .package).Pairwise fun e f =>
    key e.element = key f.element ∨ Grid.Precedes (key e.element) (key f.element)
  /-- Nothing comes between two entries inside a package but what is inside it. -/
  together : ∀ e f g box,
    [e, f, g].Sublist (entries.filter fun e => start.kind? e.element ≠ some .package) →
      Inside entries e box → Inside entries g box → Inside entries f box
  room : ∀ e ∈ entries, start.kind? e.element ≠ some .package →
    ∀ f ∈ entries, start.kind? f.element ≠ some .package →
      Grid.Precedes (key e.element) (key f.element) →
        e.bounds.maxY + s.padding * (key e.element).length + s.spacing
          ≤ f.bounds.minY - (s.padding + s.header) * (key f.element).length

/-- A grid that has not come to its end: everything placed ends on it, and the headers of the
packages around fit on it. This is so if no sum and no product of an arrangement stops at the border
of the grid. -/
structure OnGrid (start : Workspace) (g : GridSettings) (s : PackageSettings)
    (key : ElementId → List Nat) (entries : List LayoutEntry) : Prop where
  maxY_le : ∀ e ∈ entries, start.kind? e.element ≠ some .package →
    e.bounds.maxY ≤ Saturating.highest
  headersFit : ∀ e ∈ entries, start.kind? e.element ≠ some .package →
    Grid.HeadersFit g s (key e.element).length

namespace Grid.Stacked

variable {start : Workspace} {rank : ElementId → Nat} {key : ElementId → List Nat}
  {p : Placement σ} {g : GridSettings} {s : PackageSettings}

/-- Where the blocks are stacked, what is inside a package stays together. -/
theorem together (h : Stacked g s key
      (p.entries.filter fun e => start.kind? e.element ≠ some .package))
    (hkeyed : Keyed start rank key p.entries) (hrunning : Running start p)
    {e f x box : LayoutEntry}
    (hsub : [e, f, x].Sublist (p.entries.filter fun e => start.kind? e.element ≠ some .package))
    (he : Inside p.entries e box) (hx : Inside p.entries x box) : Inside p.entries f box := by
  obtain ⟨n, hn⟩ := Within.inside_iff.1 he
  obtain ⟨m, hm⟩ := Within.inside_iff.1 hx
  obtain ⟨inner, hkey, -⟩ := hkeyed.key_eq hn
  obtain ⟨inner', hkey', -⟩ := hkeyed.key_eq hm
  have hsorted := h.sorted.sublist hsub
  simp only [List.pairwise_cons, List.mem_cons, List.not_mem_nil, or_false, forall_eq_or_imp,
    forall_eq] at hsorted
  obtain ⟨⟨hef, -⟩, hfx, -⟩ := hsorted
  rw [hkey, List.append_cons] at hef
  rw [hkey', List.append_cons] at hfx
  obtain ⟨rest, hrest⟩ := exists_eq_append_of_between hef hfx
  have hf : f ∈ p.entries := (List.mem_filter.1 (hsub.mem (by simp))).1
  rw [List.append_assoc, List.singleton_append] at hrest
  exact Within.inside_iff.2 (hkeyed.within hrunning hf hn.mem_right hrest)

/-- Where the blocks are stacked, there is room for the boxes of packages. -/
theorem leavesRoom (h : Stacked g s key
      (p.entries.filter fun e => start.kind? e.element ≠ some .package))
    (hkeyed : Keyed start rank key p.entries) (hrunning : Running start p)
    (hgrid : OnGrid start g s key p.entries) : LeavesRoom start s rank key p.entries where
  keyed := hkeyed
  in_order := h.sorted.imp fun {e f} hle => by
    by_cases hsame : key e.element = key f.element
    · exact .inl hsame
    · exact .inr (precedes_of_keyLE hle hsame)
  together e f x box hsub he hx := h.together hkeyed hrunning hsub he hx
  room e he hkind f hf hkind' hbefore := by
    obtain ⟨hle, hne⟩ := precedes_iff.1 hbefore
    have hgap := h.gap e (List.mem_filter.2 ⟨he, decide_eq_true hkind⟩) f
      (List.mem_filter.2 ⟨hf, decide_eq_true hkind'⟩) hle hne (hgrid.headersFit e he hkind)
      (hgrid.headersFit f hf hkind') (hgrid.maxY_le f hf hkind')
    omega

end Grid.Stacked

/-! ### Reports -/

namespace Staged

variable {store : σ} {diagram : DiagramId} {parsed : Parsed} {s : LayoutSettings}
  {es : List LayoutEntry}

/-- The groups of the grid list the packages around what is in them. -/
theorem keyed (h : Staged store diagram parsed s es) :
    Keyed (workspace store) parsed.uniqueElements.idxOf
      (Grid.groupKey (openedFor store diagram parsed) parsed.uniqueElements)
      (placeAll store diagram parsed s).entries := by
  have hredrawn := h.intact.redrawn
  refine Grid.keyed_groupKey h.opened.running hredrawn.running (fun package hpackage => ?_) ?_
  · rw [← h.settles.viewOf?_isSome h.opened.running hpackage, Placement.viewOf?,
      hredrawn.views_eq]
    rfl
  · intro e he hkind
    obtain ⟨u, hu, helement, -, -⟩ := hredrawn.mem_of_mem he
    rw [h.settles.entries_eq] at hu
    have hopened := (List.mem_append.1 hu).resolve_right fun hplaced =>
      h.settles.kind_of_placed u hplaced (helement ▸ hkind)
    rw [← helement]
    exact (h.opened.of_mem_entries hopened).1

/-- The blocks of a class diagram are stacked. -/
theorem stacked (h : Staged store diagram parsed s es)
    (hkind : parsed.diagramKind = .classDiagram) (hforward : Grid.Forward s.grid s.packages) :
    Grid.Stacked s.grid s.packages
      (Grid.groupKey (openedFor store diagram parsed) parsed.uniqueElements) es := by
  have hperm := Grid.perm_flatMap_members h.opened (nodup_eraseDups _)
  obtain ⟨es', hentries, hstacked⟩ :=
    Grid.stacked_arrange (h.opened.awaiting (nodup_eraseDups _) hperm) hforward
  have harrange : arrangedFor store diagram parsed s = Grid.arrange
      (openedFor store diagram parsed) parsed.uniqueElements s.grid s.packages := by
    simp only [arrangedFor, hkind, Strategy.ofDiagram, Strategy.arrange]
  have hsettled := h.settles.entries_eq
  rw [harrange, hentries] at hsettled
  exact List.append_cancel_left hsettled ▸ hstacked

end Staged

/-- **Grid blocks leave room for the boxes around them.** Whatever the store refuses: in a class
diagram that stays on its grid, the entries are grouped by the packages around them, groups come in
the order of the declaration of their packages, those of a package stay together, and between two
groups there is room for the borders of all packages around either. -/
theorem leavesRoom_layout (store : σ) (h : (workspace store).Reachable) (diagram : DiagramId)
    (parsed : Parsed) (hkind : parsed.diagramKind = .classDiagram) (s : LayoutSettings)
    (hforward : Grid.Forward s.grid s.packages)
    (hgrid : OnGrid (workspace store) s.grid s.packages
      (Grid.groupKey (openedFor store diagram parsed) parsed.uniqueElements)
      (layout store diagram parsed s).1.entries) :
    LeavesRoom (workspace store) s.packages parsed.uniqueElements.idxOf
      (Grid.groupKey (openedFor store diagram parsed) parsed.uniqueElements)
      (layout store diagram parsed s).1.entries := by
  obtain ⟨es, hstaged⟩ := exists_staged store h.numbered diagram parsed s
  rw [entries_layout] at hgrid ⊢
  refine Grid.Stacked.leavesRoom ?_ hstaged.keyed hstaged.intact.redrawn.running hgrid
  rw [hstaged.filter_placeAll]
  exact hstaged.stacked hkind hforward

/-- Classes in packages, one inside another, and two in none. -/
def groupedText : String :=
  "package P \x7b\npackage Q \x7b\nclass A\n\x7d\nclass B\n\x7d\npackage R \x7b\nclass C\n\x7d\n" ++
    "class D\nclass E"

/-- One class has no package around it, the next one is in the first package, then comes that of the
package inside, and the second package is the last one. -/
theorem leavesRoom_groupedText :
    ∃ (parsed : Parsed) (read h : Host),
      parse (Host.mk
        ((Workspace.new "Model").after (.createDiagram .classDiagram Workspace.root)) {})
        Workspace.root groupedText = (parsed, read) ∧
      h = { read with policy := ({ views := ["E"] } : Refusals).policy } ∧
      ((layout h ⟨0⟩ parsed {}).1.entries.filter fun e =>
          h.workspace.kind? e.element ≠ some .package).map (fun e => (e.bounds,
            Grid.groupKey (openedFor h ⟨0⟩ parsed) parsed.uniqueElements e.element))
        = [(⟨100, 100, 200, 145⟩, []), (⟨100, 560, 200, 605⟩, [0]),
          (⟨100, 1080, 200, 1125⟩, [0, 1]), (⟨100, 1540, 200, 1585⟩, [4])] ∧
      LeavesRoom h.workspace {} parsed.uniqueElements.idxOf
        (Grid.groupKey (openedFor h ⟨0⟩ parsed) parsed.uniqueElements)
        (layout h ⟨0⟩ parsed {}).1.entries := by
  obtain ⟨parsed, read, hparse, hread⟩ := exists_parse_new .classDiagram groupedText
  let h : Host := { read with policy := ({ views := ["E"] } : Refusals).policy }
  obtain ⟨hkind, hentries, hmax⟩ : parsed.diagramKind = .classDiagram ∧
      ((layout h ⟨0⟩ parsed {}).1.entries.filter fun e =>
          h.workspace.kind? e.element ≠ some .package).map (fun e => (e.bounds,
            Grid.groupKey (openedFor h ⟨0⟩ parsed) parsed.uniqueElements e.element))
        = [(⟨100, 100, 200, 145⟩, []), (⟨100, 560, 200, 605⟩, [0]),
          (⟨100, 1080, 200, 1125⟩, [0, 1]), (⟨100, 1540, 200, 1585⟩, [4])] ∧
      ∀ e ∈ (layout h ⟨0⟩ parsed {}).1.entries, e.bounds.maxY ≤ Saturating.highest := by
    obtain ⟨rfl, rfl⟩ := Prod.mk.inj hparse
    simp only [h, layout, placeAll, openedFor, Packages.openViews_eq_insertionSort,
      Strategy.arrange, Grid.arrange, Grid.groups_eq_insertionSort]
    decide +kernel
  refine ⟨parsed, read, h, hparse, rfl, hentries, leavesRoom_layout h hread ⟨0⟩ parsed hkind {}
    ⟨by decide, by decide, by decide, by decide⟩ ⟨fun e he _ => hmax e he, fun _ _ _ => ?_⟩⟩
  exact .inl (by decide)

end UmlText
