import UmlText.Proofs.Layout.Composing
import UmlText.Proofs.Layout.Granting
import UmlText.Proofs.Layout.Keeping
import UmlText.Proofs.Layout.Ranking

/-!
# UmlText.Proofs.Layout.Refusing

**Refused elements leave no trace in a class diagram.** If a host hides some elements that are no
packages, the layout is the same as if their names had never been read: the two runs are alike at
every stage (`alike_placeAll`). Only the list of skipped elements tells of them. It has all of them
in the order in which they would have been placed (`skippedElements_layout`).
-/

namespace UmlText

open BackedStore (workspace)
open Placement (Alike Awaiting Running Tries)

/-! ### Reading fewer names -/

/-- A parsed text without the names of some elements. The relationships stay. -/
def Parsed.without (p : Parsed) (elements : List ElementId) : Parsed :=
  { p with aliases := ⟨p.aliases.entries.filter fun entry => entry.2 ∉ elements⟩ }

@[simp] theorem Parsed.blueprints_without (p : Parsed) (elements : List ElementId) :
    (p.without elements).blueprints = p.blueprints := rfl

@[simp] theorem Parsed.diagramKind_without (p : Parsed) (elements : List ElementId) :
    (p.without elements).diagramKind = p.diagramKind := rfl

theorem eraseDups_filter {α : Type} [DecidableEq α] (keep : α → Bool) (l : List α) :
    (l.filter keep).eraseDups = l.eraseDups.filter keep := by
  induction l using List.reverseRecOn with
  | nil => rfl
  | append_singleton l a ih =>
      by_cases hkeep : keep a
      · have hmem : a ∈ l.filter keep ↔ a ∈ l := by simp [hkeep]
        simp only [List.filter_append, List.filter_singleton, hkeep, cond_true, eraseDups_concat,
          ih, hmem]
        split <;> simp [hkeep]
      · simp only [List.filter_append, List.filter_singleton, hkeep, cond_false, List.append_nil,
          eraseDups_concat, ih]
        split <;> simp [hkeep]

theorem Parsed.uniqueElements_without (p : Parsed) (elements : List ElementId) :
    (p.without elements).uniqueElements = p.uniqueElements.filter (· ∉ elements) := by
  have hvalues : (p.without elements).aliases.values = p.aliases.values.filter (· ∉ elements) := by
    simp only [without, OrderedMap.values, List.filter_map, Function.comp_def]
  rw [uniqueElements, hvalues, eraseDups_filter, uniqueElements]

theorem Parsed.filter_uniqueElements_without (p : Parsed) {elements : List ElementId}
    {keep : ElementId → Bool} (h : ∀ e ∈ elements, keep e = false) :
    (p.without elements).uniqueElements.filter keep = p.uniqueElements.filter keep := by
  rw [uniqueElements_without, List.filter_filter]
  refine List.filter_congr fun e _ => ?_
  by_cases he : e ∈ elements
  · simp [h e he]
  · simp [he]

/-! ### What is skipped -/

namespace Placement

variable {start : Workspace} {p q : Placement Host} {hidden : List ElementId}

/-- A run that has tried some elements on a host that hides others: only hidden ones are skipped. -/
structure Tried (hidden : List ElementId) (p : Placement Host) (es : List ElementId)
    (q : Placement Host) : Prop where
  policy_eq : q.store.policy = p.store.policy
  diagram_eq : q.diagram = p.diagram
  keys_eq : q.views.keys = p.views.keys ++ es.filter (· ∉ hidden)
  skipped_eq : q.skipped = p.skipped ++ es.filter (· ∈ hidden)

theorem Awaiting.tried_place {element : ElementId} {rest : List ElementId}
    (h : Awaiting start p (element :: rest)) (hpolicy : p.store.policy.Hides start.elements hidden)
    (hdiagram : (start.diagram? p.diagram).isSome) (hkind : (start.kind? element).isSome)
    (position : Point) (width : Option Int) :
    Tried hidden p [element] (p.place element position width).2 := by
  have hpolicy : p.store.policy.Hides p.store.workspace.elements hidden := by
    have helements : p.store.workspace.elements = start.elements := h.running.elements_eq
    rwa [helements]
  by_cases helement : element ∈ hidden
  · obtain ⟨error, hview⟩ := Host.createView_of_mem hpolicy (p.request element position) helement
    rw [request] at hview
    simp only [Placement.place, hview]
    exact ⟨rfl, rfl, by simp [helement], by simp [helement]⟩
  · obtain ⟨e, hgrants⟩ := h.running.grantsView hdiagram hkind position
    have hview := Host.createView_of_not_mem hpolicy (p.request element position) helement
    have hcreated : p.store.workspace.createView (p.request element position) = _ :=
      hgrants.createView
    rw [hcreated, request] at hview
    simp only [Placement.place, hview]
    refine ⟨rfl, rfl, ?_, by simp [helement, Placement.updateView]⟩
    simp only [Placement.updateView, OrderedMap.keys_insert, if_neg h.not_mem_keys]
    simp [helement]

theorem Tried.append {r : Placement Host} {es fs : List ElementId} (h : Tried hidden p es q)
    (h' : Tried hidden q fs r) : Tried hidden p (es ++ fs) r := by
  refine ⟨h'.policy_eq.trans h.policy_eq, h'.diagram_eq.trans h.diagram_eq, ?_, ?_⟩
  · rw [h'.keys_eq, h.keys_eq, List.append_assoc, ← List.filter_append]
  · rw [h'.skipped_eq, h.skipped_eq, List.append_assoc, ← List.filter_append]

/-- **Only hidden elements are skipped**, in the order in which they were tried. -/
theorem Awaiting.tried {es : List ElementId} (h : Awaiting start p es) (t : Tries p es q)
    (hpolicy : p.store.policy.Hides start.elements hidden)
    (hdiagram : (start.diagram? p.diagram).isSome) (hkinds : ∀ e ∈ es, (start.kind? e).isSome) :
    Tried hidden p es q := by
  induction t with
  | done p => exact ⟨rfl, rfl, by simp, by simp⟩
  | @next p q element rest position width t ih =>
      have hone := h.tried_place hpolicy hdiagram (hkinds element List.mem_cons_self) position width
      have hrest := ih (h.place position width) (hone.policy_eq ▸ hpolicy)
        (hone.diagram_eq ▸ hdiagram) fun e he => hkinds e (List.mem_cons_of_mem _ he)
      exact hone.append hrest

end Placement

open Placement (Tried)

/-- The order in which the elements of a class diagram are tried: packages, and then the groups of
the grid. -/
def tryOrder (h : Host) (diagram : DiagramId) (parsed : Parsed) : List ElementId :=
  (Packages.outerFirst ({ store := h, diagram } : Placement Host) parsed.uniqueElements).map
      Prod.fst
    ++ (Grid.groups (openedFor h diagram parsed) parsed.uniqueElements).flatMap Grid.Group.members

section Stages

variable {h : Host} {diagram : DiagramId} {parsed : Parsed} {hidden : List ElementId}

/-- Everything that is declared and has a kind is tried once. -/
theorem perm_tryOrder (hw : h.workspace.Numbered) :
    (tryOrder h diagram parsed).Perm
      (parsed.uniqueElements.filter fun e => (h.workspace.kind? e).isSome) := by
  have hnodup : parsed.uniqueElements.Nodup := nodup_eraseDups _
  have hopened := Packages.opened_openViews (show (workspace h).Numbered from hw) diagram hnodup
  have hpackages : ((Packages.outerFirst ({ store := h, diagram } : Placement Host)
      parsed.uniqueElements).map Prod.fst).Perm
        (parsed.uniqueElements.filter fun e => h.workspace.kind? e = some .package) :=
    Packages.perm_outerFirst _ _
  have hothers : ((Grid.groups (openedFor h diagram parsed) parsed.uniqueElements).flatMap
      Grid.Group.members).Perm
        (parsed.uniqueElements.filter fun e => (h.workspace.kind? e).any (· ≠ .package)) :=
    Grid.perm_flatMap_members hopened hnodup
  refine (hpackages.append hothers).trans ?_
  refine .trans (.of_eq ?_) (List.filter_append_perm
    (fun e => h.workspace.kind? e = some .package) _)
  rw [List.filter_filter, List.filter_filter]
  congr 1 <;> refine List.filter_congr fun e _ => ?_
  · cases h.workspace.kind? e <;> simp
  · cases h.workspace.kind? e <;> simp

theorem mem_tryOrder (hw : h.workspace.Numbered) {e : ElementId} :
    e ∈ tryOrder h diagram parsed ↔
      e ∈ parsed.uniqueElements ∧ (h.workspace.kind? e).isSome := by
  rw [(perm_tryOrder hw).mem_iff, List.mem_filter]

/-- What a class diagram has placed and skipped once everything has been tried. -/
theorem tried_arrangedFor (hw : h.workspace.Numbered)
    (hdiagram : (h.workspace.diagram? diagram).isSome)
    (hclass : parsed.diagramKind = .classDiagram)
    (hpolicy : h.policy.Hides h.workspace.elements hidden) (s : LayoutSettings) :
    Tried hidden { store := h, diagram } (tryOrder h diagram parsed)
      (arrangedFor h diagram parsed s) := by
  have hnodup : parsed.uniqueElements.Nodup := nodup_eraseDups _
  have hopened := Packages.opened_openViews (show (workspace h).Numbered from hw) diagram hnodup
  have hpackages := (Packages.awaiting_outerFirst (show (workspace h).Numbered from hw) diagram
    hnodup).tried (Packages.tries_openViews _ parsed.uniqueElements) hpolicy hdiagram fun e he =>
      ((mem_tryOrder hw).1 (List.mem_append_left _ he)).2
  have hgroups := (hopened.awaiting hnodup (Grid.perm_flatMap_members hopened hnodup)).tried
    (Grid.tries_arrange _ _ s.grid s.packages) (hpackages.policy_eq ▸ hpolicy)
    (hpackages.diagram_eq ▸ hdiagram) fun e he =>
      ((mem_tryOrder hw).1 (List.mem_append_right _ he)).2
  have harrange : arrangedFor h diagram parsed s = Grid.arrange (openedFor h diagram parsed)
      parsed.uniqueElements s.grid s.packages := by
    simp only [arrangedFor, hclass, Strategy.ofDiagram, Strategy.arrange]
  rw [harrange]
  exact hpackages.append hgroups

/-- **The report of a class diagram** on a host that hides elements: the others have entries, and
the hidden ones are skipped, all in the order in which they were tried. -/
theorem skippedElements_layout (hw : h.workspace.Numbered)
    (hdiagram : (h.workspace.diagram? diagram).isSome) (parsed : Parsed)
    (hclass : parsed.diagramKind = .classDiagram)
    (hpolicy : h.policy.Hides h.workspace.elements hidden) (s : LayoutSettings) :
    (layout h diagram parsed s).1.entries.map LayoutEntry.element
        = (tryOrder h diagram parsed).filter (· ∉ hidden) ∧
      (layout h diagram parsed s).1.skippedElements
        = (tryOrder h diagram parsed).filter (· ∈ hidden) := by
  have htried := tried_arrangedFor hw hdiagram hclass hpolicy s
  obtain ⟨es, hstaged⟩ := exists_staged h hw diagram parsed s
  have hredrawn := hstaged.intact.redrawn
  refine ⟨?_, ?_⟩
  · rw [entries_layout, hredrawn.running.map_element, hredrawn.views_eq, htried.keys_eq]
    rfl
  · refine (Relationships.realize_placement _ _).2.1.trans (hredrawn.skipped_eq.trans ?_)
    rw [htried.skipped_eq]
    rfl

end Stages

/-! ### Two layouts -/

section Two

variable {w : Workspace} {diagram : DiagramId} {parsed : Parsed} {refused : List ElementId}
  {policy granting : Policy}

theorem alike_start (hpolicy : policy.Hides w.elements refused)
    (hgranting : granting.Hides w.elements []) (diagram : DiagramId) :
    Alike refused { store := Host.mk w policy, diagram } { store := Host.mk w granting, diagram } :=
  ⟨⟨rfl, rfl, rfl⟩, hpolicy, hgranting⟩

/-- The elements are tried in the same order on both hosts. -/
theorem tryOrder_alike (hpolicy : policy.Hides w.elements refused)
    (hgranting : granting.Hides w.elements [])
    (hrefused : ∀ e ∈ refused, w.kind? e ≠ some .package) :
    tryOrder (Host.mk w granting) diagram parsed = tryOrder (Host.mk w policy) diagram parsed := by
  have halike := alike_start hpolicy hgranting diagram
  have hopened : Alike refused (openedFor (Host.mk w policy) diagram parsed)
      (openedFor (Host.mk w granting) diagram parsed) :=
    (Packages.openViews_alike halike rfl fun e _ hkind hmem => hrefused e hmem hkind).1
  rw [tryOrder, tryOrder, Packages.outerFirst_alike halike rfl, Grid.groups_alike hopened]

/-- **The two runs are alike** once everything is in place. -/
theorem alike_placeAll (hw : w.Numbered) (diagram : DiagramId)
    (hclass : parsed.diagramKind = .classDiagram)
    (hpolicy : policy.Hides w.elements refused) (hgranting : granting.Hides w.elements [])
    (hrefused : ∀ e ∈ refused, w.kind? e ≠ some .package) (s : LayoutSettings) :
    Alike refused (placeAll (Host.mk w policy) diagram parsed s)
      (placeAll (Host.mk w granting) diagram (parsed.without refused) s) := by
  have hnodup : parsed.uniqueElements.Nodup := nodup_eraseDups _
  obtain ⟨hopened, hpackages⟩ := Packages.openViews_alike (alike_start hpolicy hgranting diagram)
    (parsed.filter_uniqueElements_without fun e he => decide_eq_false (hrefused e he))
    fun e _ hkind hmem => hrefused e hmem hkind
  have hviews : ∀ e, ((openedFor (Host.mk w policy) diagram parsed).viewOf? e).isSome →
      e ∈ parsed.uniqueElements.filter (· ∉ refused) := by
    intro e hview
    have hall := Packages.opened_openViews
      (show (workspace (Host.mk w policy)).Numbered from hw) diagram hnodup
    obtain ⟨entry, hentry, rfl⟩ := hall.running.viewOf?_isSome.1 hview
    obtain ⟨hroot, hkind⟩ := hall.of_mem_entries hentry
    exact List.mem_filter.2 ⟨hroot, decide_eq_true fun hmem => hrefused _ hmem hkind⟩
  have harranged := Grid.arrange_alike (g := s.grid) (s := s.packages) hopened hviews
  rw [← parsed.uniqueElements_without] at harranged
  simp only [placeAll_eq_fit, arrangedFor, Parsed.diagramKind_without, hclass, Strategy.ofDiagram,
    Strategy.arrange]
  rw [packagesFor, packagesFor, hpackages]
  exact Packages.fit_alike harranged _ _ _

end Two

/-! ### Reports -/

/-- Three layouts of one diagram: on a host that refuses the views of some elements, on one that
refuses none, and on the same host when the names of those elements were not read. The first and the
last come to the same. -/
structure NoTrace (refused : List ElementId) (refusing full unread : LayoutReport × Host) :
    Prop where
  /-- Entries, relationships and the number of skipped relationships are the same. Nothing is
  skipped but what is refused. -/
  report_eq : unread.1 = { refusing.1 with skippedElements := [] }
  workspace_eq : unread.2.workspace = refusing.2.workspace
  /-- The refused elements are listed in the order in which they would have been placed, -/
  skipped_eq : refusing.1.skippedElements
    = (full.1.entries.map LayoutEntry.element).filter (· ∈ refused)
  /-- all of them, and each once. -/
  skipped_nodup : refusing.1.skippedElements.Nodup
  mem_skipped_iff : ∀ e, e ∈ refusing.1.skippedElements ↔ e ∈ refused

/-- **Refused elements leave no trace in a class diagram.** Whatever was read into the store and
whatever the settings: if a host refuses just the views of some declared elements that are no
packages, then a layout on a known diagram gives the same entries, relationships and number of
skipped relationships as if their names had not been read and nothing was refused. Only the skipped
elements differ: they are the refused ones, in placement order. -/
theorem noTrace_layout {w : Workspace} (h : w.Reachable) {diagram : DiagramId}
    (hdiagram : (w.diagram? diagram).isSome) {parsed : Parsed}
    (hclass : parsed.diagramKind = .classDiagram) {refused : List ElementId}
    (hrefused : ∀ e ∈ refused, e ∈ parsed.uniqueElements ∧
      ∃ kind, w.kind? e = some kind ∧ kind ≠ .package)
    {policy granting : Policy} (hpolicy : policy.Hides w.elements refused)
    (hgranting : granting.Hides w.elements []) (s : LayoutSettings) :
    NoTrace refused (layout (Host.mk w policy) diagram parsed s)
      (layout (Host.mk w granting) diagram parsed s)
      (layout (Host.mk w granting) diagram (parsed.without refused) s) := by
  have hothers : ∀ e ∈ refused, w.kind? e ≠ some .package := by
    intro e he hkind
    obtain ⟨-, kind, hkind', hother⟩ := hrefused e he
    exact hother (Option.some.inj (hkind'.symm.trans hkind))
  have hplaced := alike_placeAll h.numbered diagram hclass hpolicy hgranting hothers s
  have hrealized := Relationships.realize_alike hplaced parsed.blueprints
  obtain ⟨-, hskipped⟩ := skippedElements_layout (h := Host.mk w policy) h.numbered hdiagram
    parsed hclass hpolicy s
  obtain ⟨hentries, -⟩ := skippedElements_layout (h := Host.mk w granting) h.numbered hdiagram
    parsed hclass hgranting s
  obtain ⟨-, hnone⟩ := skippedElements_layout (h := Host.mk w granting) h.numbered hdiagram
    (parsed.without refused) hclass hgranting s
  rw [tryOrder_alike hpolicy hgranting hothers] at hentries
  simp only [List.not_mem_nil, not_false_eq_true, decide_true, List.filter_true] at hentries
  simp only [List.not_mem_nil, decide_false, List.filter_false] at hnone
  refine ⟨?_, hrealized.coincide.workspace_eq, ?_, ?_, fun e => ?_⟩
  · simp only [layout, Parsed.blueprints_without] at hnone
    simp only [layout, Parsed.blueprints_without, Parsed.diagramKind_without, hnone,
      hrealized.coincide.entries_eq, hrealized.created_eq, hrealized.skipped_eq]
  · rw [hskipped, hentries]
  · rw [hskipped]
    exact ((perm_tryOrder h.numbered).nodup_iff.2 ((nodup_eraseDups _).filter _)).filter _
  · rw [hskipped, List.mem_filter, mem_tryOrder h.numbered, decide_eq_true_eq]
    refine and_iff_right_of_imp fun he => ?_
    obtain ⟨hroot, kind, hkind, -⟩ := hrefused e he
    exact ⟨hroot, by simp [hkind]⟩

/-- Two packages, with a class before them and classes inside. -/
def thinnedText : String :=
  "class Z\npackage P \x7b\nclass A\n\x7d\npackage Q \x7b\nclass B\nclass C\n\x7d\nZ --> B\nB --> C"

/-- With two classes refused, the first package is empty and the ranks of both packages change. -/
theorem noTrace_thinnedText :
    ∃ (parsed : Parsed) (read : Host),
      parse (Host.mk
        ((Workspace.new "Model").after (.createDiagram .classDiagram Workspace.root)) {})
        Workspace.root thinnedText = (parsed, read) ∧
      (layout (Host.mk read.workspace ({ views := ["A", "Z"] } : Refusals).policy) ⟨0⟩
        parsed {}).1.skippedElements = [⟨1⟩, ⟨3⟩] ∧
      NoTrace [⟨1⟩, ⟨3⟩]
        (layout (Host.mk read.workspace ({ views := ["A", "Z"] } : Refusals).policy) ⟨0⟩ parsed {})
        (layout (Host.mk read.workspace {}) ⟨0⟩ parsed {})
        (layout (Host.mk read.workspace {}) ⟨0⟩ (parsed.without [⟨1⟩, ⟨3⟩]) {}) := by
  obtain ⟨parsed, read, hparse, hread⟩ := exists_parse_new .classDiagram thinnedText
  obtain ⟨hhidden, hdiagram, hclass, hrefused, hskipped⟩ :
      ({ views := ["A", "Z"] } : Refusals).hidden read.workspace.elements = [⟨1⟩, ⟨3⟩] ∧
      (read.workspace.diagram? ⟨0⟩).isSome ∧ parsed.diagramKind = .classDiagram ∧
      (∀ e ∈ [⟨1⟩, ⟨3⟩], e ∈ parsed.uniqueElements ∧ read.workspace.kind? e = some .umlClass) ∧
      (layout (Host.mk read.workspace ({ views := ["A", "Z"] } : Refusals).policy) ⟨0⟩
        parsed {}).1.skippedElements = [⟨1⟩, ⟨3⟩] := by
    obtain ⟨rfl, rfl⟩ := Prod.mk.inj hparse
    simp only [layout, placeAll, Packages.openViews_eq_insertionSort, Strategy.arrange,
      Grid.arrange, Grid.groups_eq_insertionSort]
    decide +kernel
  refine ⟨parsed, read, hparse, hskipped, noTrace_layout hread hdiagram hclass (fun e he => ?_)
    (hhidden ▸ Refusals.hides _ rfl _) (Policy.hides_nil _) {}⟩
  obtain ⟨hroot, hkind⟩ := hrefused e he
  exact ⟨hroot, _, hkind, by decide⟩

end UmlText
