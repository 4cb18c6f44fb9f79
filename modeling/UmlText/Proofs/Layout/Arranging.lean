import UmlText.Proofs.Layout.Anchoring
import UmlText.Proofs.Layout.Levels

/-!
# UmlText.Proofs.Layout.Arranging

**What stands beside what.** Directly inside a package, the floating packages stand in a row beside
everything else, at its top (`Arranged`); those in no container stand in a row below everything else
(`Lowered`). This is so when a package has had its turn, and so it is at the end
(`Unfitted.fitted`).
-/

namespace UmlText

universe u

open ModelStore (owningPackage?)
open Placement (Running Redrawn entriesIn mem_entriesIn)

variable {σ : Type u} [ModelStore σ] [ViewStore σ] [BackedStore σ]

namespace Packages

variable {start : Workspace} {p q : Placement σ}

/-! ### Beside the others -/

/-- Entries of one container, where floating ones are in a row beside the others. -/
structure Arranged (anchored : ViewId → Prop) (es : List LayoutEntry) : Prop where
  beside : ∀ f ∈ es, ¬ anchored f.view → ∀ e ∈ es, anchored e.view →
    e.bounds.maxX + 50 ≤ f.bounds.minX
  level : ∀ f ∈ es, ¬ anchored f.view → (∃ e ∈ es, anchored e.view) →
    ∃ e ∈ es, anchored e.view ∧ e.bounds.minY ≤ f.bounds.minY
  apart : ∀ f ∈ es, ¬ anchored f.view → ∀ f' ∈ es, ¬ anchored f'.view → f.view ≠ f'.view →
    Beside 50 f.bounds f'.bounds

/-- They are still so when all of them have moved together. -/
theorem Arranged.shift {anchored : ViewId → Prop} {es : List LayoutEntry}
    (h : Arranged anchored es) (dx dy : Int) :
    Arranged anchored (es.map (·.reshape (·.shift dx dy))) := by
  constructor <;>
    simp only [List.mem_map, forall_exists_index, and_imp, forall_apply_eq_imp_iff₂,
      exists_exists_and_eq_and, LayoutEntry.view_reshape, LayoutEntry.bounds_reshape]
  · intro f hf hfloats e he hin
    have := h.beside f hf hfloats e he hin
    simp only [Bounds.shift]
    omega
  · intro f hf hfloats e he hin
    obtain ⟨e, he, hanchored, hle⟩ := h.level f hf hfloats ⟨e, he, hin⟩
    refine ⟨e, he, hanchored, ?_⟩
    simp only [Bounds.shift]
    omega
  · intro f hf hfloats f' hf' hfloats' hne
    have := h.apart f hf hfloats f' hf' hfloats' hne
    simp only [Beside, Bounds.shift] at this ⊢
    omega

/-- Entries in no container, where floating ones are in a row below the others. -/
structure Lowered (anchored : ViewId → Prop) (es : List LayoutEntry) : Prop where
  below : ∀ f ∈ es, ¬ anchored f.view → ∀ e ∈ es, anchored e.view →
    e.bounds.maxY + 50 ≤ f.bounds.minY
  apart : ∀ f ∈ es, ¬ anchored f.view → ∀ f' ∈ es, ¬ anchored f'.view → f.view ≠ f'.view →
    Beside 50 f.bounds f'.bounds

section Turn

variable {done : List ElementId} {packageViews : List ViewId} {f : Fitting σ} {box : LayoutEntry}

/-- What is not anchored in a package is in its row. -/
theorem Turn.floats (h : Turn start p packageViews done f box) {e : LayoutEntry}
    (he : e ∈ entriesIn (withRow {} packageViews f box.view).entries box.view)
    (hfloats : ¬ Anchored start p.entries e.view) :
    e.view ∈ floatingIn packageViews f box.view := by
  obtain ⟨hmem, hc⟩ := mem_entriesIn.1 he
  obtain ⟨e', he', -, hview, hc'⟩ :=
    (redrawn_withRow (s := {}) h.running packageViews box.view).mem_of_mem hmem
  exact h.mem_floatingIn.2 ⟨e', mem_entriesIn.2 ⟨he', hc'.trans hc⟩, hview, hview ▸ hfloats⟩

/-- What is directly inside a package keeps its size when the floating packages are moved. -/
theorem Turn.exists_shift (h : Turn start p packageViews done f box) (s : PackageSettings)
    {e : LayoutEntry} (he : e ∈ entriesIn f.placement.entries box.view) :
    ∃ dx dy, e.reshape (·.shift dx dy) ∈
      entriesIn (withRow s packageViews f box.view).entries box.view := by
  obtain ⟨hmem, hc⟩ := mem_entriesIn.1 he
  have hrigid : Rigid f.placement (withRow s packageViews f box.view) e.view := by
    refine rigid_layOutRow h.running ?_ _ _
    intro v hv hchild
    obtain ⟨u, hu, huc, rfl⟩ := (mem_children h.running).1 hchild
    obtain ⟨u', hu', hu'c, hview⟩ := (mem_children h.running).1 (List.mem_of_mem_filter hv)
    obtain rfl := h.running.eq_of_view_eq hu' hu hview
    -- Otherwise the entry would be the box.
    have hself : e = box :=
      h.running.eq_of_view_eq hmem h.mem (Option.some.inj (huc.symm.trans hu'c))
    have hlt := h.running.container_lt e hmem _ hc
    rw [hself] at hlt
    exact Nat.lt_irrefl _ hlt
  obtain ⟨dx, dy, hmoved⟩ := hrigid
  exact ⟨dx, dy, mem_entriesIn.2 ⟨hmoved e hmem (.inl rfl), hc⟩⟩

/-- The floating packages of a package are laid out in a row. -/
theorem Turn.row (h : Turn start p packageViews done f box)
    (hwidth : ∀ e ∈ entriesIn f.placement.entries box.view, 0 ≤ e.bounds.width) :
    let corner := rowOrigin {} (f.placement.mergedBounds? (fixedIn packageViews f box.view))
    let after := withRow {} packageViews f box.view
    Row corner 50 (floatingIn packageViews f box.view) after.entries
      (corner.x + rowLength after 50 (floatingIn packageViews f box.view)) := by
  have hnodup : (floatingIn packageViews f box.view).Nodup :=
    (h.running.nodup_values.filter _).filter _
  have hinside : ∀ e ∈ f.placement.entries, e.view ∈ floatingIn packageViews f box.view →
      e ∈ entriesIn f.placement.entries box.view := by
    intro e he hv
    obtain ⟨e', he', hview, -⟩ := h.mem_floatingIn.1 hv
    rwa [← h.running.eq_of_view_eq (mem_entriesIn.1 he').1 he hview]
  have hsiblings : Siblings start (floatingIn packageViews f box.view) (some box.view)
      f.placement := by
    refine ⟨h.running, ?_, ?_, ?_⟩
    · intro v hv
      obtain ⟨e, he, hview, -⟩ := h.mem_floatingIn.1 hv
      exact ⟨e, (mem_entriesIn.1 he).1, hview⟩
    · intro e he hv
      exact hwidth e (hinside e he hv)
    · intro e he hv
      exact (mem_entriesIn.1 (hinside e he hv)).2
  exact row_layOutRow hsiblings hnodup _ (by decide)

/-- After its turn, what is directly inside a package is arranged. -/
theorem Turn.arranged (h : Turn start p packageViews done f box)
    (hwidth : ∀ e ∈ entriesIn f.placement.entries box.view, 0 ≤ e.bounds.width) :
    Arranged (Anchored start p.entries)
      (entriesIn (fitPackage {} packageViews f box.element).placement.entries box.view) := by
  rw [h.entriesIn_eq]
  have hrow := h.row hwidth
  obtain ⟨es, hes, hmem⟩ := h.mergedBounds?_fixedIn {}
  have hcorner : ∀ content, Bounds.mergeAll (es.map LayoutEntry.bounds) = some content →
      rowOrigin {} (f.placement.mergedBounds? (fixedIn packageViews f box.view))
        = ⟨content.maxX + 50, content.minY⟩ := by
    intro content hcontent
    rw [hes, hcontent]
    rfl
  -- With something anchored inside, the row begins at the corner of the bounds of all of that.
  have hfixed : (∃ e ∈ entriesIn (withRow {} packageViews f box.view).entries box.view,
      Anchored start p.entries e.view) →
        ∃ content, Bounds.mergeAll (es.map LayoutEntry.bounds) = some content := by
    intro hexists
    obtain ⟨e, he, hin⟩ := hexists
    exact Bounds.exists_mergeAll (List.mem_map_of_mem ((hmem e).2 ⟨he, hin⟩))
  refine ⟨?_, ?_, ?_⟩
  · intro g hg hfloats e he hin
    obtain ⟨content, hcontent⟩ := hfixed ⟨e, he, hin⟩
    have haround := Bounds.contains_iff.1 (Bounds.mergeAll_contains hcontent
      (List.mem_map_of_mem ((hmem e).2 ⟨he, hin⟩)))
    have hplaced := hrow.placed g (mem_entriesIn.1 hg).1 (h.floats hg hfloats)
    rw [hcorner content hcontent] at hplaced
    simp only at hplaced
    omega
  · intro g hg hfloats hin
    obtain ⟨content, hcontent⟩ := hfixed hin
    obtain ⟨⟨b, hb, htop⟩, -⟩ := Bounds.mergeAll_attains hcontent
    obtain ⟨e, he, rfl⟩ := List.mem_map.1 hb
    obtain ⟨he, hanchored⟩ := (hmem e).1 he
    have hplaced := hrow.placed g (mem_entriesIn.1 hg).1 (h.floats hg hfloats)
    rw [hcorner content hcontent] at hplaced
    exact ⟨e, he, hanchored, Int.le_of_eq (htop.trans hplaced.2.2.symm)⟩
  · intro g hg hfloats g' hg' hfloats' hne
    exact hrow.beside g (mem_entriesIn.1 hg).1 (h.floats hg hfloats) g' (mem_entriesIn.1 hg').1
      (h.floats hg' hfloats') hne

end Turn

/-! ### Fitting all packages -/

omit [ModelStore σ] [ViewStore σ] [BackedStore σ] in
/-- An exact box has room inside if everything directly inside has. -/
theorem Fits.solid {entries : List LayoutEntry} {box : LayoutEntry} (h : Fits {} entries box)
    (hinside : ∀ e ∈ entriesIn entries box.view, e.bounds.Solid) : box.bounds.Solid := by
  rcases h.cases with ⟨-, hleast⟩ | ⟨content, hcontent, hbox⟩
  · rw [LayoutEntry.bounds, hleast]
    constructor <;> simp only [Point.toBounds] <;> omega
  · obtain ⟨⟨b, hb, -⟩, -⟩ := Bounds.mergeAll_attains hcontent
    obtain ⟨e, he, rfl⟩ := List.mem_map.1 hb
    rw [hbox]
    exact (hinside e he).of_contains (Bounds.contains_trans
      (Bounds.pad_contains content (by decide) (by decide) (by decide) (by decide))
      (Bounds.mergeAll_contains hcontent hb))

/-- A run that has placed everything, with all its packages, none before one that it owns. -/
structure Unfitted (start : Workspace) (p : Placement σ) (packages : List ElementId) : Prop where
  running : Running start p
  nodup : packages.Nodup
  deepest_first : packages.Pairwise fun a b => owningPackage? start b ≠ some a
  viewOf?_isSome : ∀ a ∈ packages, (p.viewOf? a).isSome
  mem_iff : ∀ e ∈ p.entries, e.element ∈ packages ↔ start.kind? e.element = some .package

namespace Unfitted

variable {packages : List ElementId}

theorem exists_entry (h : Unfitted start p packages) {a : ElementId} (ha : a ∈ packages) :
    ∃ e ∈ p.entries, e.element = a ∧ p.viewOf? a = some e.view := by
  obtain ⟨e, he, rfl⟩ := h.running.viewOf?_isSome.1 (h.viewOf?_isSome a ha)
  exact ⟨e, he, rfl, h.running.viewOf?_element he⟩

theorem packageViews_iff (h : Unfitted start p packages) {e : LayoutEntry} (he : e ∈ p.entries) :
    e.view ∈ packages.filterMap p.viewOf? ↔ start.kind? e.element = some .package := by
  rw [← h.mem_iff e he, List.mem_filterMap]
  constructor
  · intro hexists
    obtain ⟨a, ha, hview⟩ := hexists
    obtain ⟨e', he', rfl, hview'⟩ := h.exists_entry ha
    rwa [← h.running.eq_of_view_eq he' he (Option.some.inj (hview'.symm.trans hview))]
  · intro hmem
    obtain ⟨e', he', hsame, hview⟩ := h.exists_entry hmem
    obtain rfl := h.running.eq_of_element_eq he' he hsame
    exact ⟨_, hmem, hview⟩

/-- When a package has its turn, everything directly inside it has had its own. -/
theorem turn {done rest : List ElementId} {package : ElementId}
    (h : Unfitted start p (done ++ package :: rest)) {packageViews : List ViewId} {f : Fitting σ}
    (hprogress : Progress start p packageViews done f) :
    ∃ box, box.element = package ∧ Turn start p packageViews done f box := by
  obtain ⟨e, he, rfl, -⟩ := h.exists_entry (a := package) (by simp)
  obtain ⟨r, hbox⟩ := hprogress.intact.redrawn.exists_reshape he
  refine ⟨e.reshape r, rfl, { hprogress with mem := hbox, kind_eq := ?_, inside := ?_ }⟩
  · exact (h.mem_iff e he).1 (by simp)
  · intro e' he' hkind
    obtain ⟨he', hc⟩ := mem_entriesIn.1 he'
    have hrunning := hprogress.intact.redrawn.running
    obtain ⟨q, hq, hview, howner⟩ := hrunning.container_mem he' hc
    obtain rfl := hrunning.eq_of_view_eq hq hbox hview
    obtain ⟨u, hu, helement, -⟩ := hprogress.intact.redrawn.mem_of_mem he'
    have hmem := (h.mem_iff u hu).2 (helement ▸ hkind)
    rw [helement] at hmem
    refine (List.mem_append.1 hmem).resolve_right ?_
    intro hlater
    rcases List.mem_cons.1 hlater with hself | hlater
    · have hlt := hrunning.numbered.owner_lt howner
      rw [hself] at hlt
      exact Nat.lt_irrefl _ hlt
    · exact (List.pairwise_cons.1 (List.pairwise_append.1 h.deepest_first).2.1).1 _ hlater howner

/-- Fitting the packages one after the other. -/
theorem progress (h : Unfitted start p packages) (s : PackageSettings)
    {done rest : List ElementId} (hpackages : packages = done ++ rest) :
    Progress start p (packages.filterMap p.viewOf?) done
      (done.foldl (fitPackage s (packages.filterMap p.viewOf?)) { placement := p }) := by
  induction done using List.reverseRecOn generalizing rest with
  | nil =>
      exact ⟨⟨.refl h.running, fun _ _ => rfl⟩, fun e he => h.packageViews_iff he, by simp,
        by simp⟩
  | append_singleton done package ih =>
      rw [List.append_assoc] at hpackages
      have hprogress := ih hpackages
      obtain ⟨box, rfl, hturn⟩ := (hpackages ▸ h).turn hprogress
      rw [List.foldl_append]
      exact hturn.progress s

/-! ### Moving the floating packages -/

section Top

variable {f : Fitting σ}

theorem mem_topFloating (h : Unfitted start p packages)
    (hf : Progress start p (packages.filterMap p.viewOf?) packages f) {e : LayoutEntry}
    (he : e ∈ f.placement.entries) :
    e.view ∈ topFloating (packages.filterMap p.viewOf?) f ↔
      e.container = none ∧ ¬ Anchored start p.entries e.view := by
  unfold topFloating
  rw [List.mem_filter, Bool.and_eq_true, isTopLevel_iff he, hf.packageViews_iff e he,
    decide_eq_true_eq]
  constructor
  · intro hboth
    obtain ⟨hkind, hfloats, hc⟩ := hboth
    obtain ⟨u, hu, helement, -⟩ := hf.intact.redrawn.mem_of_mem he
    have hmem := (h.mem_iff u hu).2 (helement ▸ hkind)
    exact ⟨hc, fun hin => hfloats (hf.mem_of_anchored e he (helement ▸ hmem) hin)⟩
  · intro hboth
    obtain ⟨hc, hfloats⟩ := hboth
    refine ⟨?_, fun hmem => hfloats (hf.anchored_of_mem _ hmem), hc⟩
    by_contra hkind
    exact hfloats ((anchored_redrawn hf.intact.redrawn).1 (.element he hkind))

theorem exists_of_mem_topFloating (h : Unfitted start p packages)
    (hf : Progress start p (packages.filterMap p.viewOf?) packages f) {v : ViewId}
    (hv : v ∈ topFloating (packages.filterMap p.viewOf?) f) :
    ∃ e ∈ f.placement.entries, e.view = v ∧ e.container = none := by
  obtain ⟨a, ha, hview⟩ := List.mem_filterMap.1 (List.mem_of_mem_filter hv)
  obtain ⟨e, he, rfl, hview'⟩ := h.exists_entry ha
  obtain rfl := Option.some.inj (hview'.symm.trans hview)
  obtain ⟨r, hr⟩ := hf.intact.redrawn.exists_reshape he
  exact ⟨_, hr, rfl, ((h.mem_topFloating hf hr).1 hv).1⟩

/-- Moving the floating packages leaves the run intact. -/
theorem intact_moveFloating (h : Unfitted start p packages)
    (hf : Progress start p (packages.filterMap p.viewOf?) packages f) (s : PackageSettings)
    (origin : Point) :
    Intact start p (moveFloating s origin (packages.filterMap p.viewOf?) f) := by
  rw [moveFloating_eq]
  refine hf.intact.layOutRow ?_ _ _
  intro v hv
  obtain ⟨e, he, rfl, -⟩ := h.exists_of_mem_topFloating hf hv
  obtain ⟨e', he', -, hview, -⟩ := hf.intact.redrawn.mem_of_mem he
  exact ⟨⟨e', he', hview⟩, ((h.mem_topFloating hf he).1 hv).2⟩

/-- The floating packages that are in no container are laid out in a row, if none of them ends up
turned inside out. -/
theorem row_topFloating (h : Unfitted start p packages)
    (hf : Progress start p (packages.filterMap p.viewOf?) packages f) {s : PackageSettings}
    (hspacing : 0 ≤ s.spacing) (origin : Point)
    (hwidth : ∀ e ∈ (moveFloating s origin (packages.filterMap p.viewOf?) f).entries,
      e.view ∈ topFloating (packages.filterMap p.viewOf?) f → 0 ≤ e.bounds.width) :
    Row (topOrigin s origin (packages.filterMap p.viewOf?) f) s.spacing
      (topFloating (packages.filterMap p.viewOf?) f)
      (moveFloating s origin (packages.filterMap p.viewOf?) f).entries
      (origin.x + rowLength (moveFloating s origin (packages.filterMap p.viewOf?) f) s.spacing
        (topFloating (packages.filterMap p.viewOf?) f)) := by
  have hnodup : (topFloating (packages.filterMap p.viewOf?) f).Nodup :=
    (h.nodup.filterMap fun a b v ha hb => h.running.viewOf?_inj ha hb).filter _
  have hsiblings : Siblings start (topFloating (packages.filterMap p.viewOf?) f) none
      f.placement := by
    refine ⟨hf.intact.redrawn.running, ?_, ?_, ?_⟩
    · intro v hv
      obtain ⟨e, he, hview, -⟩ := h.exists_of_mem_topFloating hf hv
      exact ⟨e, he, hview⟩
    · intro e he hv
      -- The move does not change its width.
      obtain ⟨dx, dy, hmoved⟩ := rigid_moveFloating (s := s) hf.intact.redrawn.running origin
        (packages.filterMap p.viewOf?) e.view
      have hafter := hwidth _ (hmoved e he (.inl rfl)) hv
      rwa [LayoutEntry.bounds_reshape, Bounds.width_shift] at hafter
    · intro e he hv
      exact ((h.mem_topFloating hf he).1 hv).1
  rw [moveFloating_eq]
  exact row_layOutRow hsiblings hnodup _ hspacing

/-- What is anchored and in no container stays where it is, and the row begins below it. -/
theorem mergedBounds?_topFixed (h : Unfitted start p packages)
    (hf : Progress start p (packages.filterMap p.viewOf?) packages f) (s : PackageSettings)
    (origin : Point) :
    ∃ es : List LayoutEntry,
      f.placement.mergedBounds? (topFixed (packages.filterMap p.viewOf?) f)
        = Bounds.mergeAll (es.map LayoutEntry.bounds) ∧
      ∀ e, e ∈ es ↔ e ∈ (moveFloating s origin (packages.filterMap p.viewOf?) f).entries ∧
        e.container = none ∧ Anchored start p.entries e.view := by
  have hrunning := hf.intact.redrawn.running
  have hq := redrawn_moveFloating (s := s) hrunning origin (packages.filterMap p.viewOf?)
  have hfixed : topFixed (packages.filterMap p.viewOf?) f = (f.placement.entries.filter fun e =>
      e.view ∉ topFloating (packages.filterMap p.viewOf?) f && isTopLevel f.placement e.view).map
        LayoutEntry.view := by
    rw [topFixed, ← hrunning.map_view, List.filter_map]
    rfl
  refine ⟨_, by rw [hfixed, Placement.mergedBounds?_map_view fun e => List.mem_of_mem_filter], ?_⟩
  have hmem : ∀ e ∈ f.placement.entries,
      (e.view ∉ topFloating (packages.filterMap p.viewOf?) f && isTopLevel f.placement e.view) ↔
        e.container = none ∧ Anchored start p.entries e.view := by
    intro e he
    rw [Bool.and_eq_true, isTopLevel_iff he, decide_eq_true_eq, h.mem_topFloating hf he]
    tauto
  have hstays : ∀ e ∈ f.placement.entries, e.container = none → Anchored start p.entries e.view →
      e ∈ (moveFloating s origin (packages.filterMap p.viewOf?) f).entries := by
    intro e he hc hin
    rw [moveFloating_eq]
    refine mem_layOutRow hrunning he ?_ (fun hout => ?_) _ _
    · intro v hv
      obtain ⟨e', he', hview', hc'⟩ := h.exists_of_mem_topFloating hf hv
      exact ⟨e', he', hview', hc'.trans hc.symm⟩
    · exact ((h.mem_topFloating hf he).1 hout).2 hin
  intro e
  rw [List.mem_filter]
  constructor
  · intro hboth
    obtain ⟨he, hfixed⟩ := hboth
    obtain ⟨hc, hin⟩ := (hmem e he).1 hfixed
    exact ⟨hstays e he hc hin, hc, hin⟩
  · intro hall
    obtain ⟨he, hc, hin⟩ := hall
    obtain ⟨u, hu, -, hview, huc⟩ := hq.mem_of_mem he
    obtain rfl := hq.running.eq_of_view_eq (hstays u hu (huc.trans hc) (hview ▸ hin)) he hview
    exact ⟨hu, (hmem u hu).2 ⟨hc, hin⟩⟩

/-- What is anchored in no container is above the row. -/
theorem maxY_le_topOrigin (h : Unfitted start p packages)
    (hf : Progress start p (packages.filterMap p.viewOf?) packages f) (s : PackageSettings)
    (origin : Point) {e : LayoutEntry}
    (he : e ∈ (moveFloating s origin (packages.filterMap p.viewOf?) f).entries)
    (hc : e.container = none) (hin : Anchored start p.entries e.view) :
    e.bounds.maxY + s.spacing ≤ (topOrigin s origin (packages.filterMap p.viewOf?) f).y := by
  obtain ⟨es, hes, hmem⟩ := h.mergedBounds?_topFixed hf s origin
  have hbounds : e.bounds ∈ es.map LayoutEntry.bounds :=
    List.mem_map_of_mem ((hmem e).2 ⟨he, hc, hin⟩)
  obtain ⟨m, hm⟩ := Bounds.exists_mergeAll hbounds
  have haround := Bounds.contains_iff.1 (Bounds.mergeAll_contains hm hbounds)
  have htop : (topOrigin s origin (packages.filterMap p.viewOf?) f).y = m.maxY + s.spacing := by
    simp only [topOrigin, hes, hm, Option.elim_some]
  omega

/-- A floating package that is in no container is in the row. -/
theorem mem_topFloating_of_mem (h : Unfitted start p packages)
    (hf : Progress start p (packages.filterMap p.viewOf?) packages f) (s : PackageSettings)
    (origin : Point) {e : LayoutEntry}
    (he : e ∈ (moveFloating s origin (packages.filterMap p.viewOf?) f).entries)
    (hc : e.container = none) (hfloats : ¬ Anchored start p.entries e.view) :
    e.view ∈ topFloating (packages.filterMap p.viewOf?) f := by
  obtain ⟨u, hu, -, hview, huc⟩ := (redrawn_moveFloating (s := s) hf.intact.redrawn.running origin
    (packages.filterMap p.viewOf?)).mem_of_mem he
  rw [← hview] at hfloats ⊢
  exact (h.mem_topFloating hf hu).2 ⟨huc.trans hc, hfloats⟩

/-- The floating packages that are in no container end up below everything else that is in none. -/
theorem lowered (h : Unfitted start p packages)
    (hf : Progress start p (packages.filterMap p.viewOf?) packages f) (origin : Point)
    (hwidth : ∀ e ∈ (moveFloating {} origin (packages.filterMap p.viewOf?) f).entries,
      0 ≤ e.bounds.width) :
    Lowered (Anchored start p.entries)
      ((moveFloating {} origin (packages.filterMap p.viewOf?) f).entries.filter fun e =>
        e.container = none) := by
  have hrow := h.row_topFloating hf (by decide) origin fun e he _ => hwidth e he
  constructor
  · intro g hg hfloats e he hin
    obtain ⟨hg, hgc⟩ := List.mem_filter.1 hg
    obtain ⟨he, hec⟩ := List.mem_filter.1 he
    have hplaced := hrow.placed g hg
      (h.mem_topFloating_of_mem hf {} origin hg (of_decide_eq_true hgc) hfloats)
    have habove := h.maxY_le_topOrigin hf {} origin he (of_decide_eq_true hec) hin
    simp only at habove
    omega
  · intro g hg hfloats g' hg' hfloats' hne
    obtain ⟨hg, hgc⟩ := List.mem_filter.1 hg
    obtain ⟨hg', hgc'⟩ := List.mem_filter.1 hg'
    exact hrow.beside g hg
      (h.mem_topFloating_of_mem hf {} origin hg (of_decide_eq_true hgc) hfloats) g' hg'
      (h.mem_topFloating_of_mem hf {} origin hg' (of_decide_eq_true hgc') hfloats') hne

end Top

/-! ### The end -/

section End

variable (s : PackageSettings) (origin : Point)

/-- Fitting the packages changes nothing but them. -/
theorem intact_fit (h : Unfitted start p packages) :
    Intact start p (fit p packages origin s) :=
  h.intact_moveFloating (h.progress s (List.append_nil packages).symm) s origin

/-- In the end the box of every package is exact. -/
theorem fits_fit (h : Unfitted start p packages) {box : LayoutEntry}
    (hbox : box ∈ (fit p packages origin s).entries)
    (hkind : start.kind? box.element = some .package) :
    Fits s (fit p packages origin s).entries box := by
  have hintact := h.intact_fit s origin
  obtain ⟨e, he, helement, -, -⟩ := hintact.redrawn.mem_of_mem hbox
  have hmem := (h.mem_iff e he).2 (helement ▸ hkind)
  refine settled_fit h.running h.nodup h.deepest_first origin hmem ?_ box hbox rfl
  rw [helement, Placement.viewOf?, ← hintact.redrawn.views_eq]
  exact hintact.redrawn.running.viewOf?_element hbox

/-- In the end everything has room inside, if what is no package had it before. -/
theorem solid_fit (h : Unfitted start p packages)
    (hsolid : ∀ e ∈ p.entries, start.kind? e.element ≠ some .package → e.bounds.Solid)
    {e : LayoutEntry} (he : e ∈ (fit p packages origin {}).entries) : e.bounds.Solid := by
  have hintact := h.intact_fit {} origin
  refine hintact.redrawn.running.inward_induct (motive := fun e => e.bounds.Solid) ?_ he
  intro e he hinside
  by_cases hkind : start.kind? e.element = some .package
  · exact (h.fits_fit {} origin he hkind).solid hinside
  · exact hsolid e (hintact.mem_of_mem he hkind) hkind

end End

end Unfitted

/-- **What is inside a package at the end** is what was inside after its turn, moved as one. -/
theorem Unfitted.exists_turn {packages : List ElementId} (h : Unfitted start p packages)
    (origin : Point) (hwidth : ∀ e ∈ (fit p packages origin {}).entries, 0 ≤ e.bounds.width)
    {box' : LayoutEntry} (hbox' : box' ∈ (fit p packages origin {}).entries)
    (hkind : start.kind? box'.element = some .package) :
    ∃ done f box dx dy, Turn start p (packages.filterMap p.viewOf?) done f box ∧
      (∀ e ∈ entriesIn f.placement.entries box.view, 0 ≤ e.bounds.width) ∧
      entriesIn (fit p packages origin {}).entries box'.view
        = (entriesIn (withRow {} (packages.filterMap p.viewOf?) f box.view).entries box.view).map
            (·.reshape (·.shift dx dy)) := by
  obtain ⟨box₀, hbox₀, helement, hview, -⟩ := (h.intact_fit {} origin).redrawn.mem_of_mem hbox'
  have hmem := (h.mem_iff box₀ hbox₀).2 (helement ▸ hkind)
  obtain ⟨done, rest, rfl⟩ := List.append_of_mem hmem
  obtain ⟨box, hbox, hturn⟩ := h.turn (h.progress {} rfl)
  have hboxview : p.viewOf? box₀.element = some box.view := by
    rw [← hbox, Placement.viewOf?, ← hturn.intact.redrawn.views_eq]
    exact hturn.viewOf?_eq
  have hsameview : box.view = box'.view := by
    obtain ⟨e, he, hsame, hview'⟩ := h.exists_entry hmem
    obtain rfl := h.running.eq_of_element_eq he hbox₀ hsame
    rw [← hview, Option.some.inj (hboxview.symm.trans hview')]
  -- From its turn on, the package stays together with what is inside it.
  obtain ⟨-, hafter, dx, dy, hmoved⟩ :=
    rigid_fit (s := {}) h.running h.nodup h.deepest_first origin hboxview rfl
  have hrow := hturn.entriesIn_eq {}
  rw [hbox] at hrow
  have hinside := Rigid.entriesIn_eq hafter hmoved
  rw [hrow] at hinside
  rw [← hsameview]
  refine ⟨_, _, box, dx, dy, hturn, fun e he => ?_, hinside⟩
  -- So it is as wide now as it will be in the end.
  obtain ⟨dx', dy', hshifted⟩ := hturn.exists_shift {} he
  have hend := List.mem_map_of_mem (f := (·.reshape (·.shift dx dy))) hshifted
  rw [← hinside] at hend
  have hroom := hwidth _ (mem_entriesIn.1 hend).1
  simpa only [LayoutEntry.bounds_reshape, Bounds.width_shift] using hroom

/-- A run after `p` in which all packages have been fitted. -/
structure Fitted (start : Workspace) (p q : Placement σ) : Prop where
  intact : Intact start p q
  solid : ∀ e ∈ q.entries, e.bounds.Solid
  arranged : ∀ box ∈ q.entries, start.kind? box.element = some .package →
    Arranged (Anchored start q.entries) (entriesIn q.entries box.view)
  lowered : Lowered (Anchored start q.entries) (q.entries.filter fun e => e.container = none)

/-- **Every package is fitted**, with the floating ones out of the way of all others. -/
theorem Unfitted.fitted {packages : List ElementId} (h : Unfitted start p packages)
    (hsolid : ∀ e ∈ p.entries, start.kind? e.element ≠ some .package → e.bounds.Solid)
    (origin : Point) : Fitted start p (fit p packages origin {}) := by
  have hf := h.progress {} (List.append_nil packages).symm
  have hintact := h.intact_fit {} origin
  have hwidth : ∀ e ∈ (fit p packages origin {}).entries, 0 ≤ e.bounds.width := fun e he =>
    (h.solid_fit origin hsolid he).width_nonneg
  have hsame : Anchored start (fit p packages origin {}).entries = Anchored start p.entries :=
    funext fun view => propext (anchored_redrawn hintact.redrawn)
  refine ⟨hintact, fun e he => h.solid_fit origin hsolid he, ?_, ?_⟩
  · intro box' hbox' hkind
    obtain ⟨done, f, box, dx, dy, hturn, hroom, hinside⟩ :=
      h.exists_turn origin hwidth hbox' hkind
    have harranged := hturn.arranged hroom
    rw [hturn.entriesIn_eq] at harranged
    rw [hsame, hinside]
    exact harranged.shift dx dy
  · rw [hsame]
    exact h.lowered hf origin hwidth

end Packages

end UmlText
