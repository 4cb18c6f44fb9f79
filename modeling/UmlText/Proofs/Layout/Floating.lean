import UmlText.Proofs.Layout.Keeping

/-!
# UmlText.Proofs.Layout.Floating

**Floating packages trail everything else.** A package in no container that has nothing but packages
inside is `Hollow`; these are the floating packages that are laid out below everything else. The
boxes of all others that are in no container end above that row, and whatever is in a container is
in the box of one that is in none. So a hollow package shares area with nothing but what is inside
it, and all of them have one top (`trails_layout`).
-/

namespace UmlText

universe u

open BackedStore (workspace)
open Placement (Running Redrawn entriesIn mem_entriesIn)

variable {σ : Type u} [ModelStore σ] [ViewStore σ] [BackedStore σ]

/-- A package that is in no container and has nothing inside but packages. -/
structure Hollow (start : Workspace) (entries : List LayoutEntry) (box : LayoutEntry) : Prop where
  mem : box ∈ entries
  kind_eq : start.kind? box.element = some .package
  container_eq : box.container = none
  inside : ∀ e, Inside entries e box → start.kind? e.element = some .package

/-- Hollow packages that stand clear of everything else, all with one top: below the lowest of the
other entries in no container, or at `origin` if there are none. -/
structure Trails (start : Workspace) (s : PackageSettings) (origin : Point)
    (entries : List LayoutEntry) : Prop where
  clear : ∀ box, Hollow start entries box → ∀ e ∈ entries, e ≠ box → ¬ Inside entries e box →
    ¬ box.bounds.overlaps e.bounds
  level : ∀ box box', Hollow start entries box → Hollow start entries box' →
    box.bounds.minY = box'.bounds.minY
  below : ∀ box, Hollow start entries box → ∀ e ∈ entries, e.container = none →
    ¬ Hollow start entries e → e.bounds.maxY + s.spacing ≤ box.bounds.minY
  lowest : ∀ box, Hollow start entries box →
    (∃ e ∈ entries, e.container = none ∧ ¬ Hollow start entries e) →
      ∃ e ∈ entries, e.container = none ∧ ¬ Hollow start entries e ∧
        e.bounds.maxY + s.spacing = box.bounds.minY
  alone : ∀ box, Hollow start entries box →
    (∀ e ∈ entries, e.container = none → Hollow start entries e) → box.bounds.minY = origin.y

/-! ### Hollow packages float -/

namespace Packages

variable {start : Workspace} {p q : Placement σ}

omit [ModelStore σ] [ViewStore σ] [BackedStore σ] in
/-- Whatever is around something anchored is anchored. -/
theorem Anchored.of_inside {entries : List LayoutEntry} {e box : LayoutEntry}
    (hinside : Inside entries e box) (h : Anchored start entries e.view) :
    Anchored start entries box.view := by
  induction hinside with
  | direct he hbox hcontainer => exact .package he hcontainer h
  | step he hcontainer _ ih => exact ih (.package he hcontainer h)

/-- Something anchored that is a package has something else inside. -/
theorem Anchored.exists_inside (hq : Running start q) {box : LayoutEntry} (hbox : box ∈ q.entries)
    (hkind : start.kind? box.element = some .package) (h : Anchored start q.entries box.view) :
    ∃ e, Inside q.entries e box ∧ start.kind? e.element ≠ some .package := by
  generalize hview : box.view = view at h
  induction h generalizing box with
  | element he hother =>
      obtain rfl := hq.eq_of_view_eq hbox he hview
      exact absurd hkind hother
  | @package e view he hcontainer _ ih =>
      subst hview
      by_cases hpackage : start.kind? e.element = some .package
      · obtain ⟨x, hx, hother⟩ := ih he hpackage rfl
        obtain ⟨n, hn⟩ := Within.inside_iff.1 hx
        exact ⟨x, Within.inside_iff.2 ⟨n + 1, hn.out hbox hcontainer⟩, hother⟩
      · exact ⟨e, .direct he hbox hcontainer, hpackage⟩

/-- The hollow packages are the floating ones that are in no container. -/
theorem hollow_iff (hq : Running start q) {e : LayoutEntry} (he : e ∈ q.entries)
    (hcontainer : e.container = none) :
    Hollow start q.entries e ↔ ¬ Anchored start q.entries e.view := by
  constructor
  · intro h hin
    obtain ⟨x, hx, hother⟩ := Anchored.exists_inside hq he h.kind_eq hin
    exact hother (h.inside x hx)
  · intro hfloats
    have hpackage : ∀ x ∈ q.entries, ¬ Anchored start q.entries x.view →
        start.kind? x.element = some .package := by
      intro x hx hout
      by_contra hother
      exact hout (.element hx hother)
    refine ⟨he, hpackage e he hfloats, hcontainer, fun x hx => ?_⟩
    have hmem : x ∈ q.entries := by cases hx <;> assumption
    exact hpackage x hmem fun hin => hfloats (.of_inside hx hin)

/-! ### Widths -/

omit [ModelStore σ] [ViewStore σ] [BackedStore σ] in
/-- An exact box is not turned inside out if nothing directly inside is. -/
theorem Fits.width_nonneg {s : PackageSettings} {entries : List LayoutEntry} {box : LayoutEntry}
    (h : Fits s entries box) (hpadding : 0 ≤ s.padding) (hwidth : 0 ≤ s.minWidth)
    (hinside : ∀ e ∈ entriesIn entries box.view, 0 ≤ e.bounds.width) : 0 ≤ box.bounds.width := by
  rcases h.cases with ⟨-, hleast⟩ | ⟨content, hcontent, hbox⟩
  · rw [LayoutEntry.bounds, hleast]
    simp only [Point.toBounds, Bounds.width]
    omega
  · obtain ⟨⟨b, hb, -⟩, -⟩ := Bounds.mergeAll_attains hcontent
    have haround := Bounds.contains_iff.1 (Bounds.mergeAll_contains hcontent hb)
    obtain ⟨e, he, rfl⟩ := List.mem_map.1 hb
    have hroom := hinside e he
    rw [hbox]
    simp only [Bounds.pad, Bounds.width, insets] at hroom ⊢
    omega

/-! ### The row of the hollow packages -/

/-- Hollow packages that stand in a row from `corner` on, below `others`: the other entries that are
in no container. -/
structure HollowRow (start : Workspace) (s : PackageSettings) (origin : Point)
    (entries : List LayoutEntry) (corner : Point) (views : List ViewId)
    (others : List LayoutEntry) : Prop where
  row : ∃ x, Row corner s.spacing views entries x
  mem_views : ∀ box, Hollow start entries box → box.view ∈ views
  mem_others : ∀ e, e ∈ others ↔ e ∈ entries ∧ e.container = none ∧ ¬ Hollow start entries e
  corner_eq : corner.y = (Bounds.mergeAll (others.map LayoutEntry.bounds)).elim origin.y
    fun bounds => bounds.maxY + s.spacing

namespace HollowRow

omit [ModelStore σ] [ViewStore σ] [BackedStore σ]

variable {s : PackageSettings} {origin corner : Point} {entries others : List LayoutEntry}
  {views : List ViewId} {box e : LayoutEntry}

theorem minY_eq (h : HollowRow start s origin entries corner views others)
    (hbox : Hollow start entries box) : box.bounds.minY = corner.y := by
  obtain ⟨x, hrow⟩ := h.row
  exact (hrow.placed box hbox.mem (h.mem_views box hbox)).2.2

/-- All others end above the row. -/
theorem above (h : HollowRow start s origin entries corner views others) (he : e ∈ others) :
    e.bounds.maxY + s.spacing ≤ corner.y := by
  have hmem : e.bounds ∈ others.map LayoutEntry.bounds := List.mem_map_of_mem he
  obtain ⟨m, hm⟩ := Bounds.exists_mergeAll hmem
  have haround := Bounds.contains_iff.1 (Bounds.mergeAll_contains hm hmem)
  have hcorner := h.corner_eq
  rw [hm, Option.elim_some] at hcorner
  omega

/-- The row begins right below the lowest of the others. -/
theorem exists_lowest (h : HollowRow start s origin entries corner views others)
    (he : e ∈ others) : ∃ low ∈ others, low.bounds.maxY + s.spacing = corner.y := by
  obtain ⟨m, hm⟩ := Bounds.exists_mergeAll (List.mem_map_of_mem (f := LayoutEntry.bounds) he)
  obtain ⟨-, b, hb, hlowest⟩ := Bounds.mergeAll_attains hm
  obtain ⟨low, hlow, rfl⟩ := List.mem_map.1 hb
  refine ⟨low, hlow, ?_⟩
  rw [h.corner_eq, hm, Option.elim_some, hlowest]

/-- Hollow packages are clear of whatever else is in no container. -/
theorem not_overlaps (h : HollowRow start s origin entries corner views others)
    (hspacing : 0 ≤ s.spacing) (hbox : Hollow start entries box) (he : e ∈ entries)
    (hcontainer : e.container = none) (hview : e.view ≠ box.view) :
    ¬ box.bounds.overlaps e.bounds := by
  rw [Bounds.overlaps_iff]
  have htop := h.minY_eq hbox
  by_cases hhollow : Hollow start entries e
  · obtain ⟨x, hrow⟩ := h.row
    have hbeside := hrow.beside box hbox.mem (h.mem_views box hbox) e he (h.mem_views e hhollow)
      hview.symm
    unfold Beside at hbeside
    omega
  · have habove := h.above ((h.mem_others e).2 ⟨he, hcontainer, hhollow⟩)
    omega

/-- A row of hollow packages trails everything else, if these are clear of it. -/
theorem trails (h : HollowRow start s origin entries corner views others)
    (hclear : ∀ box, Hollow start entries box → ∀ e ∈ entries, e ≠ box → ¬ Inside entries e box →
      ¬ box.bounds.overlaps e.bounds) : Trails start s origin entries where
  clear := hclear
  level box box' hbox hbox' := by rw [h.minY_eq hbox, h.minY_eq hbox']
  below box hbox e he hcontainer hsolid := by
    rw [h.minY_eq hbox]
    exact h.above ((h.mem_others e).2 ⟨he, hcontainer, hsolid⟩)
  lowest box hbox hexists := by
    obtain ⟨e, he⟩ := hexists
    obtain ⟨low, hlow, hsame⟩ := h.exists_lowest ((h.mem_others e).2 he)
    obtain ⟨hlow, hcontainer, hsolid⟩ := (h.mem_others low).1 hlow
    exact ⟨low, hlow, hcontainer, hsolid, by rw [h.minY_eq hbox, hsame]⟩
  alone box hbox hall := by
    have hnil : others = [] := by
      refine List.eq_nil_iff_forall_not_mem.2 fun e he => ?_
      obtain ⟨he, hcontainer, hsolid⟩ := (h.mem_others e).1 he
      exact hsolid (hall e he hcontainer)
    rw [h.minY_eq hbox, h.corner_eq, hnil]
    rfl

end HollowRow

/-! ### The end -/

namespace Unfitted

variable {packages : List ElementId} {s : PackageSettings}

/-- Floating packages have nothing but packages inside, so they are not turned inside out. -/
theorem width_nonneg (h : Unfitted start p packages) (hpadding : 0 ≤ s.padding)
    (hwidth : 0 ≤ s.minWidth) (origin : Point) {e : LayoutEntry}
    (he : e ∈ (fit p packages origin s).entries)
    (hfloats : ¬ Anchored start (fit p packages origin s).entries e.view) :
    0 ≤ e.bounds.width := by
  have hrunning := (h.intact_fit s origin).redrawn.running
  refine hrunning.inward_induct (motive := fun e =>
    ¬ Anchored start (fit p packages origin s).entries e.view → 0 ≤ e.bounds.width) ?_ he hfloats
  intro e he ih hfloats
  have hkind : start.kind? e.element = some .package := by
    by_contra hother
    exact hfloats (.element he hother)
  refine (h.fits_fit s origin he hkind).width_nonneg hpadding hwidth fun c hc => ih c hc ?_
  intro hin
  obtain ⟨hc, hcontainer⟩ := mem_entriesIn.1 hc
  exact hfloats (.package hc hcontainer hin)

/-- Fitting the packages leaves the hollow ones in a row. -/
theorem row_hollow (h : Unfitted start p packages) (hpadding : 0 ≤ s.padding)
    (hspacing : 0 ≤ s.spacing) (hwidth : 0 ≤ s.minWidth) (origin : Point) :
    ∃ corner views others,
      HollowRow start s origin (fit p packages origin s).entries corner views others := by
  have hf := h.progress s (List.append_nil packages).symm
  have hredrawn := (h.intact_fit s origin).redrawn
  have hsame : ∀ view, Anchored start (fit p packages origin s).entries view ↔
      Anchored start p.entries view := fun view => anchored_redrawn hredrawn
  obtain ⟨others, hothers, hmem⟩ := h.mergedBounds?_topFixed hf s origin
  have hrow := h.row_topFloating hf hspacing origin fun e he hv => by
    obtain ⟨u, hu, -, hview, -⟩ := (redrawn_moveFloating (s := s) hf.intact.redrawn.running origin
      (packages.filterMap p.viewOf?)).mem_of_mem he
    have hfloats := ((h.mem_topFloating hf hu).1 (hview ▸ hv)).2
    exact h.width_nonneg hpadding hwidth origin he fun hin => hfloats (hview ▸ (hsame _).1 hin)
  refine ⟨_, _, others, ⟨_, hrow⟩, ?_, ?_, by rw [topOrigin, hothers]⟩
  · intro box hbox
    have hfloats := (hollow_iff hredrawn.running hbox.mem hbox.container_eq).1 hbox
    exact h.mem_topFloating_of_mem hf s origin hbox.mem hbox.container_eq
      fun hin => hfloats ((hsame _).2 hin)
  · intro e
    refine (hmem e).trans (and_congr_right fun he => and_congr_right fun hc => ?_)
    rw [hollow_iff hredrawn.running he hc, not_not, hsame]

/-- In the end whatever is inside a package is within its box. -/
theorem contains_fit (h : Unfitted start p packages) (hpadding : 0 ≤ s.padding)
    (hheader : 0 ≤ s.header) (origin : Point) {n : Nat} {e box : LayoutEntry}
    (hwithin : Within (fit p packages origin s).entries n e box) :
    box.bounds.contains e.bounds := by
  refine hwithin.contains fun e he box hbox hcontainer => ?_
  have hkind := (Within.up he hcontainer (.self hbox)).kind_eq
    (h.intact_fit s origin).redrawn.running
  exact (h.fits_fit s origin hbox hkind).contains hpadding hheader he hcontainer

/-- **Hollow packages trail everything else.** -/
theorem trails (h : Unfitted start p packages) (hpadding : 0 ≤ s.padding) (hheader : 0 ≤ s.header)
    (hspacing : 0 ≤ s.spacing) (hwidth : 0 ≤ s.minWidth) (origin : Point) :
    Trails start s origin (fit p packages origin s).entries := by
  have hrunning := (h.intact_fit s origin).redrawn.running
  obtain ⟨corner, views, others, hrow⟩ := h.row_hollow hpadding hspacing hwidth origin
  refine hrow.trails fun box hbox e he hne hout hoverlap => ?_
  -- What is in no container and around the entry is in the way if the entry is.
  obtain ⟨n, top, hwithin, hcontainer⟩ := hrunning.exists_outermost he
  have hother : top.view ≠ box.view := by
    intro hview
    obtain rfl := hrunning.eq_of_view_eq hwithin.mem_right hbox.mem hview
    cases n with
    | zero => cases hwithin; exact hne rfl
    | succ n => exact hout (Within.inside_iff.2 ⟨n, hwithin⟩)
  refine hrow.not_overlaps hspacing hbox hwithin.mem_right hcontainer hother ?_
  exact Bounds.overlaps_of_contains (Bounds.contains_refl _)
    (h.contains_fit hpadding hheader origin hwithin) hoverlap

end Unfitted

end Packages

/-! ### Reports -/

/-- **Hollow packages trail everything else.** Whatever the store refuses and whichever strategy
arranges the diagram: in the report of a layout whose settings are not negative, a package in no
container that has nothing but packages inside shares area with nothing but those. All such packages
have one top, which is the spacing below the lowest of the others in no container, or where the
strategy starts if there are none. -/
theorem trails_layout (store : σ) (h : (workspace store).Reachable) (diagram : DiagramId)
    (parsed : Parsed) (s : LayoutSettings) (hpadding : 0 ≤ s.packages.padding)
    (hheader : 0 ≤ s.packages.header) (hspacing : 0 ≤ s.packages.spacing)
    (hwidth : 0 ≤ s.packages.minWidth) :
    Trails (workspace store) s.packages ((Strategy.ofDiagram parsed.diagramKind).origin s)
      (layout store diagram parsed s).1.entries := by
  obtain ⟨es, hstaged⟩ := exists_staged store h.numbered diagram parsed s
  rw [entries_layout, placeAll_eq_fit]
  exact hstaged.unfitted.trails hpadding hheader hspacing hwidth _

/-- A class, a package with a package inside, and another package. -/
def trailingText : String :=
  "class A\npackage E \x7b\npackage F \x7b\n\x7d\n\x7d\npackage G \x7b\n\x7d"

/-- The two outer packages stand 50 below the class, one beside the other. -/
theorem trails_trailingText :
    ∃ (parsed : Parsed) (h : Host),
      parse (Host.mk
        ((Workspace.new "Model").after (.createDiagram .classDiagram Workspace.root)) {})
        Workspace.root trailingText = (parsed, h) ∧
      (layout h ⟨0⟩ parsed {}).1.entries
        = [⟨⟨2⟩, ⟨0⟩, ⟨100, 195⟩, ⟨260, 240⟩, none⟩, ⟨⟨4⟩, ⟨1⟩, ⟨410, 195⟩, ⟨200, 150⟩, none⟩,
          ⟨⟨3⟩, ⟨2⟩, ⟨130, 255⟩, ⟨200, 150⟩, some ⟨0⟩⟩,
          ⟨⟨1⟩, ⟨3⟩, ⟨100, 100⟩, ⟨100, 45⟩, none⟩] ∧
      Hollow h.workspace (layout h ⟨0⟩ parsed {}).1.entries
        ⟨⟨2⟩, ⟨0⟩, ⟨100, 195⟩, ⟨260, 240⟩, none⟩ ∧
      Trails h.workspace {} ((Strategy.ofDiagram parsed.diagramKind).origin {})
        (layout h ⟨0⟩ parsed {}).1.entries := by
  obtain ⟨parsed, h, hparse, hread⟩ := exists_parse_new .classDiagram trailingText
  obtain ⟨hentries, hkinds⟩ : (layout h ⟨0⟩ parsed {}).1.entries
        = [⟨⟨2⟩, ⟨0⟩, ⟨100, 195⟩, ⟨260, 240⟩, none⟩, ⟨⟨4⟩, ⟨1⟩, ⟨410, 195⟩, ⟨200, 150⟩, none⟩,
          ⟨⟨3⟩, ⟨2⟩, ⟨130, 255⟩, ⟨200, 150⟩, some ⟨0⟩⟩,
          ⟨⟨1⟩, ⟨3⟩, ⟨100, 100⟩, ⟨100, 45⟩, none⟩] ∧
      h.workspace.kind? ⟨2⟩ = some .package ∧ h.workspace.kind? ⟨3⟩ = some .package := by
    obtain ⟨rfl, rfl⟩ := Prod.mk.inj hparse
    simp only [layout, placeAll, Packages.openViews_eq_insertionSort, Strategy.arrange,
      Grid.arrange, Grid.groups_eq_insertionSort]
    decide +kernel
  refine ⟨parsed, h, hparse, hentries, ⟨by simp [hentries], hkinds.1, rfl, fun e he => ?_⟩,
    trails_layout h hread ⟨0⟩ parsed {} (by decide) (by decide) (by decide) (by decide)⟩
  -- Of the entries only the inner package is in a container.
  have hmem : e ∈ (layout h ⟨0⟩ parsed {}).1.entries ∧ e.container ≠ none := by
    cases he with
    | direct he _ hc => exact ⟨he, by simp [hc]⟩
    | step he hc _ => exact ⟨he, by simp [hc]⟩
  rw [hentries] at hmem
  obtain rfl : e = ⟨⟨3⟩, ⟨2⟩, ⟨130, 255⟩, ⟨200, 150⟩, some ⟨0⟩⟩ := by
    obtain ⟨hlist, hc⟩ := hmem
    simp only [List.mem_cons, List.not_mem_nil, or_false] at hlist
    rcases hlist with rfl | rfl | rfl | rfl
    · exact absurd rfl hc
    · exact absurd rfl hc
    · rfl
    · exact absurd rfl hc
  exact hkinds.2

end UmlText
