import UmlText.Proofs.Layout.Fitting
import UmlText.Proofs.Layout.Opening
import UmlText.Proofs.Layout.Realizing
import UmlText.Proofs.Layout.Sorting
import UmlText.Proofs.Layout.Strategies
import UmlText.Proofs.Reading.Declared

/-!
# UmlText.Proofs.Layout.Coverage

**No element is lost or placed twice.** A layout tries the packages and then, in the order of its
strategy, everything else. What is tried is placed or skipped, so every declared element is in the
report once (`covers_layout`), whatever the host refuses. The packages come first, and the store
shows every placed element as its entry reports it.
-/

namespace UmlText

universe u

open BackedStore (workspace)
open ModelStore (owningPackage?)
open Placement (Awaiting Running Tries)

variable {σ : Type u} [ModelStore σ] [ViewStore σ] [BackedStore σ]

/-! ### Placing everything -/

/-- A run that has placed or skipped all of `roots`, with the packages that got a view. -/
structure Placed (start : Workspace) (diagram : DiagramId) (roots packages : List ElementId)
    (p : Placement σ) : Prop where
  running : Running start p
  diagram_eq : p.diagram = diagram
  /-- Every element has been placed or skipped. -/
  perm : (p.views.keys ++ p.skipped).Perm roots
  /-- Packages come first. -/
  packages_first : p.views.keys.Pairwise fun a b =>
    start.kind? b = some .package → start.kind? a = some .package
  mem_packages : ∀ k ∈ p.views.keys, start.kind? k = some .package → k ∈ packages

omit [ModelStore σ] [ViewStore σ] [BackedStore σ] in
/-- What is tried after the packages is no package. -/
theorem Packages.not_package_of_perm {start : Workspace} {es roots : List ElementId}
    (hes : es.Perm (roots.filter fun e => (start.kind? e).any (· ≠ .package))) :
    ∀ e ∈ es, start.kind? e ≠ some .package := by
  intro e he hkind
  have he := hes.mem_iff.1 he
  simp [hkind] at he

/-- Everything but packages is tried once, and owns nothing that was placed before it. -/
theorem Packages.Opened.awaiting {start : Workspace} {diagram : DiagramId}
    {roots packages : List ElementId} {p : Placement σ}
    (h : Packages.Opened start diagram roots p packages) (hnodup : roots.Nodup)
    {es : List ElementId}
    (hes : es.Perm (roots.filter fun e => (start.kind? e).any (· ≠ .package))) :
    Awaiting start p es := by
  have hothers := not_package_of_perm hes
  have hdisjoint : ∀ k ∈ p.views.keys, k ∉ es := fun k hk hk' =>
    hothers k hk' (h.of_mem_keys hk).2
  refine ⟨h.running, List.nodup_append'.2 ⟨h.running.keys_nodup,
    hes.nodup_iff.2 (hnodup.filter _), fun k hk hk' => hdisjoint k hk hk'⟩, ?_⟩
  refine List.pairwise_append.2 ⟨h.running.owners_keys, ?_, fun a _ b hb howner =>
    hothers b hb (kind?_of_owningPackage? howner)⟩
  exact List.pairwise_of_forall_mem_list fun a _ b hb howner =>
    hothers b hb (kind?_of_owningPackage? howner)

/-- The strategy tries everything but packages, once. -/
theorem Packages.Opened.tries_strategy {start : Workspace} {diagram : DiagramId} {parsed : Parsed}
    {packages : List ElementId} {p : Placement σ}
    (h : Packages.Opened start diagram parsed.uniqueElements p packages) (strategy : Strategy)
    (s : LayoutSettings) :
    ∃ es, Tries p es (strategy.arrange p parsed s) ∧ Awaiting start p es ∧
      es.Perm (parsed.uniqueElements.filter fun e => (start.kind? e).any (· ≠ .package)) := by
  have hnodup : parsed.uniqueElements.Nodup := nodup_eraseDups _
  obtain ⟨es, htries, hes⟩ := strategy.tries_arrange p parsed s hnodup
  -- No kind has changed since the run began.
  simp only [h.running.kind?_eq] at hes
  exact ⟨es, htries, h.awaiting hnodup hes, hes⟩

/-- Everything but packages is placed after them. -/
theorem Packages.Opened.placed {start : Workspace} {diagram : DiagramId}
    {roots packages : List ElementId} {p q : Placement σ}
    (h : Packages.Opened start diagram roots p packages) (hnodup : roots.Nodup)
    (hkinds : ∀ e ∈ roots, (start.kind? e).isSome) {es : List ElementId} (t : Tries p es q)
    (hes : es.Perm (roots.filter fun e => (start.kind? e).any (· ≠ .package))) :
    Placed start diagram roots packages q := by
  have hkeys : ∀ k ∈ p.views.keys, k ∈ roots ∧ start.kind? k = some .package := fun k =>
    h.of_mem_keys
  have hothers := not_package_of_perm hes
  obtain ⟨hq, hdiagram, placed, refused, hplaced, hskipped, hall⟩ :=
    (h.awaiting hnodup hes).tries t
  have hplaced_others : ∀ e ∈ placed, start.kind? e ≠ some .package := fun e he =>
    hothers e (hall.mem_iff.1 (List.mem_append_left _ he))
  refine ⟨hq, hdiagram.trans h.diagram_eq, ?_, ?_, ?_⟩
  · rw [hplaced, hskipped]
    have hroots : (roots.filter (fun e => start.kind? e = some .package) ++
        roots.filter fun e => !decide (start.kind? e = some .package)).Perm roots :=
      List.filter_append_perm _ _
    have hrest : (roots.filter fun e => !decide (start.kind? e = some .package))
        = roots.filter fun e => (start.kind? e).any (· ≠ .package) := by
      apply List.filter_congr
      intro e he
      obtain ⟨kind, hkind⟩ := Option.isSome_iff_exists.1 (hkinds e he)
      simp [hkind]
    rw [hrest] at hroots
    refine List.Perm.trans ?_ (((h.perm.append (hall.trans hes))).trans hroots)
    simp only [List.append_assoc]
    refine .append_left _ ?_
    simp only [← List.append_assoc]
    exact (List.perm_append_comm).append_right _
  · rw [hplaced]
    refine List.pairwise_append.2 ⟨?_, ?_, fun a ha b _ _ => (hkeys a ha).2⟩
    · exact List.pairwise_of_forall_mem_list fun a ha b _ _ => (hkeys a ha).2
    · exact List.pairwise_of_forall_mem_list fun a _ b hb hb' => absurd hb' (hplaced_others b hb)
  · intro k hk hkind
    rw [hplaced, List.mem_append] at hk
    rcases hk with hk | hk
    · exact h.packages_perm.mem_iff.2 hk
    · exact absurd hkind (hplaced_others k hk)

/-- Changing bounds loses no element and places none twice. -/
theorem Placed.redrawn {start : Workspace} {diagram : DiagramId}
    {roots packages : List ElementId} {p q : Placement σ}
    (h : Placed start diagram roots packages p) (hq : Placement.Redrawn start p q) :
    Placed start diagram roots packages q where
  running := hq.running
  diagram_eq := hq.diagram_eq.trans h.diagram_eq
  perm := by rw [hq.views_eq, hq.skipped_eq]; exact h.perm
  packages_first := by rw [hq.views_eq]; exact h.packages_first
  mem_packages := by rw [hq.views_eq]; exact h.mem_packages

/-- **Everything a text declares is placed or skipped**, and every package box is exact. -/
theorem placed_placeAll (store : σ) (h : (workspace store).Numbered) (diagram : DiagramId)
    {parsed : Parsed} (hkinds : ∀ e ∈ parsed.uniqueElements, ((workspace store).kind? e).isSome)
    (s : LayoutSettings) :
    ∃ packages, Placed (workspace store) diagram parsed.uniqueElements packages
        (placeAll store diagram parsed s) ∧
      ∀ package ∈ packages, ∀ view,
        (placeAll store diagram parsed s).viewOf? package = some view →
          Packages.Settled s.packages (placeAll store diagram parsed s) view := by
  have hnodup : parsed.uniqueElements.Nodup := nodup_eraseDups _
  have hopened := Packages.opened_openViews h diagram hnodup
  obtain ⟨es, htries, -, hes⟩ :=
    hopened.tries_strategy (Strategy.ofDiagram parsed.diagramKind) s
  have hplaced := hopened.placed hnodup hkinds htries hes
  have hfit := Packages.redrawn_fit hplaced.running
    (Packages.openViews ({ store, diagram } : Placement σ) parsed.uniqueElements).2
    ((Strategy.ofDiagram parsed.diagramKind).origin s) s.packages
  refine ⟨_, hplaced.redrawn hfit, ?_⟩
  intro package hpackage view hview
  refine Packages.settled_fit hplaced.running ?_ hopened.deepest_first _ hpackage ?_
  · exact hopened.packages_perm.nodup_iff.2 hopened.running.keys_nodup
  · rw [Placement.viewOf?, ← hfit.views_eq]
    exact hview

/-! ### Reports -/

/-- A report that accounts for all of `elements`, and a final workspace that shows what it says. The
views were made on `diagram` by a run that began on `start`. -/
structure Covers (start : Workspace) (diagram : DiagramId) (elements : List ElementId)
    (report : LayoutReport) (final : Workspace) : Prop where
  /-- Every element has an entry or was skipped, and no element occurs twice. -/
  perm : (report.entries.map LayoutEntry.element ++ report.skippedElements).Perm elements
  nodup : elements.Nodup
  packages_first : report.entries.Pairwise fun a b =>
    start.kind? b.element = some .package → start.kind? a.element = some .package
  views_nodup : (report.entries.map LayoutEntry.view).Nodup
  fresh : ∀ e ∈ report.entries, start.view? e.view = none
  shown : ∀ e ∈ report.entries, ∃ v, final.view? e.view = some v ∧ v.diagram = diagram ∧
    v.model = e.element ∧ v.showNamespace = false ∧ v.position = e.position ∧ v.size = e.size ∧
    v.container = e.container

theorem view?_eq_none_of_fresh {w : Workspace} (h : w.Numbered) {id : ViewId}
    (hid : w.nextView ≤ id.index) : w.view? id = none := by
  apply List.find?_eq_none.2
  intro v hv heq
  have hlt := h.view_lt v hv
  rw [of_decide_eq_true heq] at hlt
  omega

/-- **A layout covers what was declared.** -/
theorem covers_layout (store : σ) (h : (workspace store).Numbered) (diagram : DiagramId)
    (parsed : Parsed) (hkinds : ∀ e ∈ parsed.uniqueElements, ((workspace store).kind? e).isSome)
    (s : LayoutSettings) :
    Covers (workspace store) diagram parsed.uniqueElements (layout store diagram parsed s).1
      (workspace (layout store diagram parsed s).2) := by
  obtain ⟨packages, hplaced, -⟩ := placed_placeAll store h diagram hkinds s
  have hentries : (layout store diagram parsed s).1.entries
      = (placeAll store diagram parsed s).entries := Relationships.entries_realize _ _
  obtain ⟨-, hskipped, hviews⟩ :=
    Relationships.realize_placement (placeAll store diagram parsed s) parsed.blueprints
  have hvalues : ∀ e ∈ (placeAll store diagram parsed s).entries,
      e.view ∈ (placeAll store diagram parsed s).views.values := by
    intro e he
    rw [← hplaced.running.map_view]
    exact List.mem_map_of_mem he
  refine ⟨?_, nodup_eraseDups _, ?_, ?_, ?_, ?_⟩
  · rw [hentries, hplaced.running.map_element]
    simp only [layout, hskipped]
    exact hplaced.perm
  · rw [hentries, ← List.pairwise_map (f := LayoutEntry.element) (R := fun a b =>
      (workspace store).kind? b = some .package → (workspace store).kind? a = some .package),
      hplaced.running.map_element]
    exact hplaced.packages_first
  · rw [hentries, hplaced.running.map_view]
    exact hplaced.running.nodup_values
  · intro e he
    rw [hentries] at he
    exact view?_eq_none_of_fresh h (hplaced.running.fresh _ (hvalues e he))
  · intro e he
    rw [hentries] at he
    obtain ⟨v, hmem, hv, heq⟩ := Placement.mem_entries.1 he
    obtain ⟨v', hv', hmodel, hdiagram, hnamespace⟩ := hplaced.running.shown _ hmem
    obtain rfl := Option.some.inj (hv.symm.trans hv')
    refine ⟨v, ?_, hdiagram.trans hplaced.diagram_eq, hmodel, hnamespace, ?_⟩
    · simp only [layout, Workspace.view?, hviews]
      exact hv
    · rw [heq]
      exact ⟨rfl, rfl, rfl⟩

/-- **No element is lost or placed twice.** Whatever text was read, whatever the host refused while
it was read, and whatever it refuses now: the report of a layout accounts for every declared element
once, packages first, and every entry is the view that this run made of the element. -/
theorem layout_covers_parsed {h read : Host} {root : ElementId} {source : String} {parsed : Parsed}
    (hreachable : h.workspace.Reachable) (hparse : parse h root source = (parsed, read))
    (policy : Policy) (diagram : DiagramId) (s : LayoutSettings) :
    Covers read.workspace diagram parsed.uniqueElements
      (layout ({ read with policy } : Host) diagram parsed s).1
      (layout ({ read with policy } : Host) diagram parsed s).2.workspace := by
  have hdeclared := declares_parse (show (workspace h).Reachable from hreachable) hparse
  exact covers_layout ({ read with policy } : Host) hdeclared.1.numbered diagram parsed
    hdeclared.2 s

/-- A class whose view is refused is accounted for among the skipped ones. -/
theorem covers_hidden_class :
    ∃ (parsed : Parsed) (read : Host),
      parse (Host.mk
        ((Workspace.new "Model").after (.createDiagram .classDiagram Workspace.root)) {})
        Workspace.root
          "package P \x7b\nclass A\n\x7d\nclass B" = (parsed, read) ∧
      (layout ({ read with policy := ({ views := ["B"] } : Refusals).policy } : Host) ⟨0⟩
        parsed {}).1.skippedElements = [⟨3⟩] ∧
      Covers read.workspace ⟨0⟩ parsed.uniqueElements
        (layout ({ read with policy := ({ views := ["B"] } : Refusals).policy } : Host) ⟨0⟩
          parsed {}).1
        (layout ({ read with policy := ({ views := ["B"] } : Refusals).policy } : Host) ⟨0⟩
          parsed {}).2.workspace := by
  refine ⟨_, _, rfl, ?_, layout_covers_parsed
    (.step (.new "Model") (.createDiagram .classDiagram ⟨0⟩)) rfl _ _ _⟩
  simp only [layout, placeAll, Packages.openViews_eq_insertionSort, Strategy.arrange, Grid.arrange,
    Grid.groups_eq_insertionSort]
  decide +kernel

end UmlText
