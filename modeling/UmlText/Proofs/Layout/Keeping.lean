import UmlText.Proofs.Layout.Settling

/-!
# UmlText.Proofs.Layout.Keeping

**Fitting moves nothing but packages.** A strategy only ever adds an entry, so every entry of its
arrangement is as it was when it was placed (`Awaiting.exists_append`). Fitting moves floating
packages and draws boxes anew, and nothing but packages is inside a floating one. So in the report
everything but packages stands where the strategy placed it, and no other view of the store has
changed since then (`kept_layout`).
-/

namespace UmlText

universe u

open BackedStore (workspace)
open Placement (Awaiting Running Tries)

variable {σ : Type u} [ModelStore σ] [ViewStore σ] [BackedStore σ]

namespace Placement

variable {start : Workspace} {p q : Placement σ} {es : List ElementId}

/-- On the way from `p` to `q` an entry was placed, where it was asked for and as wide. -/
def PlacedBetween (p q : Placement σ) (e : LayoutEntry) : Prop :=
  ∃ before after done rest position width, Tries p done before ∧
    before.place e.element position width = (some e.view, after) ∧ Tries after rest q ∧
    e ∈ after.entries ∧ e.position = position ∧ ∀ w ∈ width, e.size.width = w

omit [BackedStore σ] in
theorem PlacedBetween.cons {element : ElementId} {position : Point} {width : Option Int}
    {e : LayoutEntry} (h : PlacedBetween (p.place element position width).2 q e) :
    PlacedBetween p q e := by
  obtain ⟨before, after, done, rest, position', width', hbefore, hrest⟩ := h
  exact ⟨before, after, element :: done, rest, position', width', .next position width hbefore,
    hrest⟩

/-- The element tried first is skipped, or its entry is placed after all others. -/
theorem Awaiting.place_append {element : ElementId} {rest : List ElementId}
    (h : Awaiting start p (element :: rest)) (position : Point) (width : Option Int)
    (t : Tries (p.place element position width).2 rest q) :
    ∃ new, (p.place element position width).2.entries = p.entries ++ new ∧
      ∀ e ∈ new, PlacedBetween p q e := by
  rcases h.running.entries_place h.not_mem_keys position width with
    ⟨-, hsame⟩ | ⟨e, model, hview, hentries, rfl, hposition, hsize⟩
  · exact ⟨[], by simp [hsame], by simp⟩
  · refine ⟨[e], hentries, fun e' he' => ?_⟩
    obtain rfl := List.mem_singleton.1 he'
    refine ⟨p, _, [], rest, position, width, .done p, Prod.ext hview rfl, t, ?_, hposition, ?_⟩
    · simp [hentries]
    · intro w hw
      rw [hsize, Option.mem_def.1 hw, Option.getD_some]

/-- **Placing elements one after the other** only adds entries, each as it was placed. -/
theorem Awaiting.exists_append (h : Awaiting start p es) (t : Tries p es q) :
    ∃ new, q.entries = p.entries ++ new ∧ ∀ e ∈ new, PlacedBetween p q e := by
  induction t with
  | done p => exact ⟨[], by simp, by simp⟩
  | @next p q element rest position width t ih =>
      obtain ⟨first, hfirst, hplaced⟩ := h.place_append position width t
      obtain ⟨new, hentries, hnew⟩ := ih (h.place position width)
      refine ⟨first ++ new, by rw [hentries, hfirst, List.append_assoc], fun e he => ?_⟩
      rcases List.mem_append.1 he with he | he
      · exact hplaced e he
      · exact (hnew e he).cons

end Placement

open Placement (PlacedBetween)

/-! ### The stages of a run -/

/-- The run in which all packages have got their views. -/
def openedFor (store : σ) (diagram : DiagramId) (parsed : Parsed) : Placement σ :=
  (Packages.openViews { store, diagram } parsed.uniqueElements).1

/-- The run in which the strategy has placed everything else. -/
def arrangedFor (store : σ) (diagram : DiagramId) (parsed : Parsed) (s : LayoutSettings) :
    Placement σ :=
  (Strategy.ofDiagram parsed.diagramKind).arrange (openedFor store diagram parsed) parsed s

/-- The packages that got a view, in the order in which they are fitted. -/
def packagesFor (store : σ) (diagram : DiagramId) (parsed : Parsed) : List ElementId :=
  (Packages.openViews ({ store, diagram } : Placement σ) parsed.uniqueElements).2

omit [BackedStore σ] in
/-- A run opens the packages, arranges everything else and then fits the packages. -/
theorem placeAll_eq_fit (store : σ) (diagram : DiagramId) (parsed : Parsed) (s : LayoutSettings) :
    placeAll store diagram parsed s = Packages.fit (arrangedFor store diagram parsed s)
      (packagesFor store diagram parsed)
      ((Strategy.ofDiagram parsed.diagramKind).origin s) s.packages :=
  rfl

/-- The report has the entries of the run. -/
theorem entries_layout (store : σ) (diagram : DiagramId) (parsed : Parsed) (s : LayoutSettings) :
    (layout store diagram parsed s).1.entries = (placeAll store diagram parsed s).entries :=
  Relationships.entries_realize _ _

/-- The stages of a run: the packages are opened, and everything else is arranged after them. -/
structure Staged (store : σ) (diagram : DiagramId) (parsed : Parsed) (s : LayoutSettings)
    (es : List LayoutEntry) : Prop where
  opened : Packages.Opened (workspace store) diagram parsed.uniqueElements
    (openedFor store diagram parsed) (packagesFor store diagram parsed)
  settles : Packages.Settles (workspace store) (openedFor store diagram parsed)
    (arrangedFor store diagram parsed s) es
  placed : ∀ e ∈ es,
    PlacedBetween (openedFor store diagram parsed) (arrangedFor store diagram parsed s) e

theorem exists_staged (store : σ) (h : (workspace store).Numbered) (diagram : DiagramId)
    (parsed : Parsed) (s : LayoutSettings) : ∃ es, Staged store diagram parsed s es := by
  have hopened : Packages.Opened (workspace store) diagram parsed.uniqueElements
      (openedFor store diagram parsed) (packagesFor store diagram parsed) :=
    Packages.opened_openViews h diagram (nodup_eraseDups _)
  obtain ⟨elements, htries, hawaiting, hperm⟩ :=
    hopened.tries_strategy (Strategy.ofDiagram parsed.diagramKind) s
  obtain ⟨es, hentries, hplaced⟩ := hawaiting.exists_append htries
  exact ⟨es, hopened, hopened.settles (nodup_eraseDups _) htries hperm hentries, hplaced⟩

namespace Staged

variable {store : σ} {diagram : DiagramId} {parsed : Parsed} {s : LayoutSettings}
  {es : List LayoutEntry}

theorem unfitted (h : Staged store diagram parsed s es) :
    Packages.Unfitted (workspace store) (arrangedFor store diagram parsed s)
      (packagesFor store diagram parsed) :=
  h.settles.unfitted h.opened

/-- Fitting the packages leaves everything else as the strategy left it. -/
theorem intact (h : Staged store diagram parsed s es) :
    Packages.Intact (workspace store) (arrangedFor store diagram parsed s)
      (placeAll store diagram parsed s) :=
  h.unfitted.intact_fit s.packages _

theorem mem_arrangedFor (h : Staged store diagram parsed s es) {e : LayoutEntry} (he : e ∈ es) :
    e ∈ (arrangedFor store diagram parsed s).entries := by
  rw [h.settles.entries_eq]
  exact List.mem_append_right _ he

theorem not_mem_openedFor (h : Staged store diagram parsed s es) {e : LayoutEntry}
    (he : e ∈ es) : e ∉ (openedFor store diagram parsed).entries := fun hopened =>
  h.settles.kind_of_placed e he (h.settles.kind_of_opened e hopened)

end Staged

/-! ### What fitting keeps -/

/-- A report that leaves everything but packages as the strategy has placed it. -/
structure Kept (start : Workspace) (opened arranged : Placement σ) (entries : List LayoutEntry)
    (final : σ) : Prop where
  /-- It is in the report as it was when the strategy was done, -/
  filter_eq : entries.filter (fun e => start.kind? e.element ≠ some .package)
    = arranged.entries.filter fun e => start.kind? e.element ≠ some .package
  /-- and that is as the strategy placed it. -/
  placed : ∀ e ∈ entries, start.kind? e.element ≠ some .package → PlacedBetween opened arranged e
  /-- No view has changed since then but those of the packages in the report. -/
  still : ∀ view, (∀ e ∈ entries, e.view = view → start.kind? e.element ≠ some .package) →
    ViewStore.view? final view = ViewStore.view? arranged.store view

/-- What is no package is in the list of entries unchanged and in its place. -/
theorem Packages.Intact.filter_eq {start : Workspace} {p q : Placement σ}
    (h : Packages.Intact start p q) (hp : Running start p) :
    q.entries.filter (fun e => start.kind? e.element ≠ some .package)
      = p.entries.filter fun e => start.kind? e.element ≠ some .package := by
  obtain ⟨r, hr⟩ := h.redrawn.entries_eq
  rw [hr, List.filter_map]
  refine (List.map_congr_left fun e he => ?_).trans (List.map_id _)
  obtain ⟨he, hkind⟩ := List.mem_filter.1 he
  have hmem : e.reshape (r e.view) ∈ q.entries := hr ▸ List.mem_map_of_mem he
  exact hp.eq_of_view_eq (h.mem_of_mem hmem (of_decide_eq_true hkind)) he rfl

/-- Everything but packages is in the report as it was placed. -/
theorem Staged.filter_placeAll {store : σ} {diagram : DiagramId} {parsed : Parsed}
    {s : LayoutSettings} {es : List LayoutEntry} (h : Staged store diagram parsed s es) :
    (placeAll store diagram parsed s).entries.filter
      (fun e => (workspace store).kind? e.element ≠ some .package) = es := by
  rw [h.intact.filter_eq h.settles.running, h.settles.entries_eq, List.filter_append,
    List.filter_eq_nil_iff.2 fun e he => by simp [h.settles.kind_of_opened e he],
    List.filter_eq_self.2 fun e he => decide_eq_true (h.settles.kind_of_placed e he),
    List.nil_append]

/-- **Fitting moves and resizes nothing but packages.** Whatever the store refuses and whichever
strategy arranges the diagram: in the report of a layout everything that is no package has the
position and size with which the strategy placed it, and besides the packages of the run no view of
the store is changed after that. -/
theorem kept_layout (store : σ) (h : (workspace store).Reachable) (diagram : DiagramId)
    (parsed : Parsed) (s : LayoutSettings) :
    Kept (workspace store) (openedFor store diagram parsed) (arrangedFor store diagram parsed s)
      (layout store diagram parsed s).1.entries (layout store diagram parsed s).2 := by
  obtain ⟨es, hstaged⟩ := exists_staged store h.numbered diagram parsed s
  have hintact := hstaged.intact
  rw [entries_layout]
  refine ⟨hintact.filter_eq hstaged.settles.running, ?_, ?_⟩
  · intro e he hkind
    have hmem := hintact.mem_of_mem he hkind
    rw [hstaged.settles.entries_eq] at hmem
    refine hstaged.placed e ((List.mem_append.1 hmem).resolve_left fun hopened => ?_)
    exact hkind (hstaged.settles.kind_of_opened e hopened)
  · intro view hother
    obtain ⟨-, -, hviews⟩ :=
      Relationships.realize_placement (placeAll store diagram parsed s) parsed.blueprints
    have hfinal : ViewStore.view? (layout store diagram parsed s).2 view
        = ViewStore.view? (placeAll store diagram parsed s).store view := by
      simp only [layout, BackedStore.view?_eq, Workspace.view?, hviews]
    rw [hfinal]
    refine hintact.still view fun e he hview => ?_
    obtain ⟨r, hr⟩ := hintact.redrawn.exists_reshape he
    exact hother (e.reshape r) hr hview

/-- A text read into a new workspace with a diagram. -/
theorem exists_parse_new (kind : DiagramKind) (text : String) :
    ∃ (parsed : Parsed) (read : Host),
      parse (Host.mk ((Workspace.new "Model").after (.createDiagram kind Workspace.root)) {})
        Workspace.root text = (parsed, read) ∧ read.workspace.Reachable := by
  have hreachable : (workspace (Host.mk ((Workspace.new "Model").after
      (.createDiagram kind Workspace.root)) {})).Reachable :=
    .step (.new "Model") (.createDiagram kind ⟨0⟩)
  exact ⟨_, _, rfl, (declares_parse hreachable Prod.mk.eta.symm).1⟩

/-- A class in a package, with an empty package beside it and one below. -/
def floatingText : String :=
  "package P \x7b\nclass A\npackage E \x7b\n\x7d\n\x7d\npackage F \x7b\n\x7d\nclass B"

/-- Fitting moves the empty packages and draws the box of the third one, while the class stays; the
other class was refused. -/
theorem kept_floatingText :
    ∃ (parsed : Parsed) (read h : Host),
      parse (Host.mk
        ((Workspace.new "Model").after (.createDiagram .classDiagram Workspace.root)) {})
        Workspace.root floatingText = (parsed, read) ∧
      h = { read with policy := ({ views := ["B"] } : Refusals).policy } ∧
      (arrangedFor h ⟨0⟩ parsed {}).entries.map (fun e => (e.element, e.bounds))
        = [(⟨1⟩, ⟨0, 0, 200, 150⟩), (⟨4⟩, ⟨0, 0, 200, 150⟩), (⟨3⟩, ⟨0, 0, 200, 150⟩),
          (⟨2⟩, ⟨100, 160, 200, 205⟩)] ∧
      (layout h ⟨0⟩ parsed {}).1.entries.map (fun e => (e.element, e.bounds))
        = [(⟨1⟩, ⟨70, 100, 480, 340⟩), (⟨4⟩, ⟨100, 390, 300, 540⟩),
          (⟨3⟩, ⟨250, 160, 450, 310⟩), (⟨2⟩, ⟨100, 160, 200, 205⟩)] ∧
      h.workspace.Reachable ∧
      Kept h.workspace (openedFor h ⟨0⟩ parsed) (arrangedFor h ⟨0⟩ parsed {})
        (layout h ⟨0⟩ parsed {}).1.entries (layout h ⟨0⟩ parsed {}).2 := by
  obtain ⟨parsed, read, hparse, hread⟩ := exists_parse_new .classDiagram floatingText
  let h : Host := { read with policy := ({ views := ["B"] } : Refusals).policy }
  refine ⟨parsed, read, h, hparse, rfl, ?_, ?_, hread, kept_layout h hread ⟨0⟩ parsed {}⟩
  · obtain ⟨rfl, rfl⟩ := Prod.mk.inj hparse
    simp only [arrangedFor, openedFor, Packages.openViews_eq_insertionSort, Strategy.arrange,
      Grid.arrange, Grid.groups_eq_insertionSort]
    decide +kernel
  · obtain ⟨rfl, rfl⟩ := Prod.mk.inj hparse
    simp only [layout, placeAll, Packages.openViews_eq_insertionSort, Strategy.arrange,
      Grid.arrange, Grid.groups_eq_insertionSort]
    decide +kernel

end UmlText
