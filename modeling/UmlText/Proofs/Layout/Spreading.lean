import Mathlib.Algebra.BigOperators.Group.Finset.Piecewise
import Mathlib.Algebra.Order.BigOperators.Group.Finset
import UmlText.Proofs.Layout.Floating

/-!
# UmlText.Proofs.Layout.Spreading

**How far fitting the packages spreads a diagram.** A floating package takes no more room in its row
than 250 and what is in the row inside it, so all rows that are not inside a floating package take
250 for each floating package together (`Compact.sum_rows_le`). What is anchored reaches as far as
what is inside it and its row, with 30 or 60 of padding around. So everything ends up inside the
area of what a strategy placed, with room around it that is proportional to the number of packages
(`Compact.within`, `Unfitted.within_fit`).
-/

namespace UmlText

universe u

open ModelStore (owningPackage?)
open Placement (Running Redrawn entriesIn mem_entriesIn boundsOf?_eq)

variable {σ : Type u} [ModelStore σ] [ViewStore σ] [BackedStore σ]

namespace Packages

variable {start : Workspace} {p q : Placement σ}

/-! ### Tight rows -/

/-- What an entry takes in a row: its width and the space behind it. -/
def rowWidth (e : LayoutEntry) : Int := e.bounds.width + 50

/-- The floating ones of some entries, in a row from `corner` on that has no gaps. -/
structure Lined (anchored : ViewId → Prop) (es : List LayoutEntry) (corner : Point)
    (row : List LayoutEntry) : Prop where
  nodup : row.Nodup
  mem_iff : ∀ e, e ∈ row ↔ e ∈ es ∧ ¬ anchored e.view
  left : ∀ e ∈ row, corner.x ≤ e.bounds.minX
  right : ∀ e ∈ row, e.bounds.maxX + 50 ≤ corner.x + (row.map rowWidth).sum
  top : ∀ e ∈ row, e.bounds.minY = corner.y

/-- A row of the floating ones beside the others, at their top. -/
structure RowBeside (anchored : ViewId → Prop) (es : List LayoutEntry) (corner : Point)
    (row others : List LayoutEntry) : Prop extends Lined anchored es corner row where
  mem_others : ∀ e, e ∈ others ↔ e ∈ es ∧ anchored e.view
  corner_eq : ∀ content, Bounds.mergeAll (others.map LayoutEntry.bounds) = some content →
    corner = ⟨content.maxX + 50, content.minY⟩

/-- A row of the floating ones below the others, or at `origin` if there are none. -/
structure RowBelow (anchored : ViewId → Prop) (es : List LayoutEntry) (origin corner : Point)
    (row others : List LayoutEntry) : Prop extends Lined anchored es corner row where
  mem_others : ∀ e, e ∈ others ↔ e ∈ es ∧ anchored e.view
  corner_eq : corner = ⟨origin.x, (Bounds.mergeAll (others.map LayoutEntry.bounds)).elim origin.y
    fun content => content.maxY + 50⟩

section Shift

variable {anchored : ViewId → Prop} {es row others : List LayoutEntry} {corner : Point}

/-- An entry that has been moved can be moved back. -/
theorem reshape_shift_neg (e : LayoutEntry) (dx dy : Int) :
    (e.reshape (·.shift dx dy)).reshape (·.shift (-dx) (-dy)) = e := by
  rw [LayoutEntry.reshape_reshape]
  simp only [Bounds.shift_shift, Int.add_right_neg, Bounds.shift_zero, LayoutEntry.reshape_id]

theorem mem_map_shift_iff {dx dy : Int} {e : LayoutEntry} :
    e ∈ es.map (·.reshape (·.shift dx dy)) ↔ e.reshape (·.shift (-dx) (-dy)) ∈ es := by
  rw [List.mem_map]
  constructor
  · rintro ⟨e, he, rfl⟩
    rwa [reshape_shift_neg]
  · intro he
    have hsame := reshape_shift_neg e (-dx) (-dy)
    rw [Int.neg_neg, Int.neg_neg] at hsame
    exact ⟨_, he, hsame⟩

/-- A row stays one when everything moves together. -/
theorem Lined.shift (h : Lined anchored es corner row) (dx dy : Int) :
    Lined anchored (es.map (·.reshape (·.shift dx dy))) ⟨corner.x + dx, corner.y + dy⟩
      (row.map (·.reshape (·.shift dx dy))) := by
  have hsum : ((row.map (·.reshape (·.shift dx dy))).map rowWidth).sum
      = (row.map rowWidth).sum := by
    rw [List.map_map]
    congr 1
    refine List.map_congr_left fun e _ => ?_
    simp only [Function.comp_apply, rowWidth, LayoutEntry.bounds_reshape, Bounds.width_shift]
  refine ⟨?_, fun e => ?_, ?_, ?_, ?_⟩
  · have hback : Function.LeftInverse (fun e : LayoutEntry => e.reshape (·.shift (-dx) (-dy)))
        (·.reshape (·.shift dx dy)) := fun e => reshape_shift_neg e dx dy
    exact h.nodup.map hback.injective
  · rw [mem_map_shift_iff, mem_map_shift_iff, h.mem_iff]
    rfl
  · simp only [List.forall_mem_map, LayoutEntry.bounds_reshape, Bounds.shift]
    intro e he
    have := h.left e he
    omega
  · rw [hsum]
    simp only [List.forall_mem_map, LayoutEntry.bounds_reshape, Bounds.shift]
    intro e he
    have := h.right e he
    omega
  · simp only [List.forall_mem_map, LayoutEntry.bounds_reshape, Bounds.shift]
    intro e he
    have := h.top e he
    omega

theorem RowBeside.shift (h : RowBeside anchored es corner row others) (dx dy : Int) :
    RowBeside anchored (es.map (·.reshape (·.shift dx dy))) ⟨corner.x + dx, corner.y + dy⟩
      (row.map (·.reshape (·.shift dx dy))) (others.map (·.reshape (·.shift dx dy))) := by
  refine ⟨h.toLined.shift dx dy, fun e => ?_, fun content hcontent => ?_⟩
  · rw [mem_map_shift_iff, mem_map_shift_iff, h.mem_others]
    rfl
  · have hbounds : (others.map (·.reshape (·.shift dx dy))).map LayoutEntry.bounds
        = (others.map LayoutEntry.bounds).map (·.shift dx dy) := by
      rw [List.map_map, List.map_map]
      exact List.map_congr_left fun e _ => e.bounds_reshape _
    rw [hbounds, Bounds.mergeAll_map_shift] at hcontent
    obtain ⟨before, hbefore, rfl⟩ := Option.map_eq_some_iff.1 hcontent
    rw [h.corner_eq before hbefore, Bounds.shift, Int.add_right_comm]

end Shift

/-- A row is one without gaps of the entries whose views are in it. -/
theorem lined_of_row {anchored : ViewId → Prop} {corner : Point} {views : List ViewId}
    {es row : List LayoutEntry}
    (h : Row corner 50 views q.entries (corner.x + rowLength q 50 views))
    (hrow : ∀ e, e ∈ row ↔ e ∈ es ∧ ¬ anchored e.view) (hes : es ⊆ q.entries)
    (hnodup : (row.map LayoutEntry.view).Nodup) (hviews : views.Perm (row.map LayoutEntry.view)) :
    Lined anchored es corner row := by
  have hmem : ∀ e ∈ row, e ∈ q.entries := fun e he => hes ((hrow e).1 he).1
  have hlength : rowLength q 50 views = (row.map rowWidth).sum := by
    rw [rowLength, (hviews.map _).sum_eq, List.map_map]
    congr 1
    refine List.map_congr_left fun e he => ?_
    rw [Function.comp_apply, boundsOf?_eq (hmem e he)]
    rfl
  have hplaced : ∀ e ∈ row, corner.x ≤ e.bounds.minX ∧
      e.bounds.maxX + 50 ≤ corner.x + (row.map rowWidth).sum ∧ e.bounds.minY = corner.y := by
    intro e he
    rw [← hlength]
    exact h.placed e (hmem e he) (hviews.mem_iff.2 (List.mem_map_of_mem he))
  exact ⟨List.Nodup.of_map _ hnodup, hrow, fun e he => (hplaced e he).1,
    fun e he => (hplaced e he).2.1, fun e he => (hplaced e he).2.2⟩

/-- The floating packages of a package are in a row without gaps, beside all else inside it. -/
theorem Turn.rowBeside {done : List ElementId} {packageViews : List ViewId} {f : Fitting σ}
    {box : LayoutEntry} (h : Turn start p packageViews done f box)
    (hwidth : ∀ e ∈ entriesIn f.placement.entries box.view, 0 ≤ e.bounds.width) :
    ∃ corner row others, RowBeside (Anchored start p.entries)
      (entriesIn (withRow {} packageViews f box.view).entries box.view) corner row others := by
  classical
  have hafter := redrawn_withRow (s := {}) h.running packageViews box.view
  let es := entriesIn (withRow {} packageViews f box.view).entries box.view
  let row := es.filter fun e => ¬ Anchored start p.entries e.view
  have hfloating : floatingIn packageViews f box.view = row.map LayoutEntry.view := by
    rw [floatingIn, ← children_redrawn h.running hafter, hafter.running.children_eq,
      List.filter_map]
    congr 1
    refine List.filter_congr fun e he => ?_
    obtain ⟨hmem, hc⟩ := mem_entriesIn.1 he
    obtain ⟨u, hu, -, hview, huc⟩ := hafter.mem_of_mem hmem
    have hiff := h.fixed_iff (mem_entriesIn.2 ⟨hu, huc.trans hc⟩)
    rw [hview] at hiff
    simp [← hiff]
  have hnodup : (row.map LayoutEntry.view).Nodup :=
    hfloating ▸ (h.running.nodup_values.filter _).filter _
  have hlined : Lined (Anchored start p.entries) es
      (rowOrigin {} (f.placement.mergedBounds? (fixedIn packageViews f box.view))) row :=
    lined_of_row (h.row hwidth) (fun e => by simp [row]) (fun e he => (mem_entriesIn.1 he).1)
      hnodup (.of_eq hfloating)
  obtain ⟨others, hothers, hmemOthers⟩ := h.mergedBounds?_fixedIn {}
  refine ⟨_, row, others, hlined, hmemOthers, fun content hcontent => ?_⟩
  rw [hothers, hcontent]
  rfl

/-! ### The end -/

/-- A diagram whose packages have all been fitted: boxes are exact, and floating packages are in
rows without gaps, inside a package beside all else there, and otherwise below all else. -/
structure Compact (start : Workspace) (origin : Point) (q : Placement σ) : Prop where
  running : Running start q
  solid : ∀ e ∈ q.entries, e.bounds.Solid
  fits : ∀ box ∈ q.entries, start.kind? box.element = some .package → Fits {} q.entries box
  inside : ∀ box ∈ q.entries, start.kind? box.element = some .package → ∃ corner row others,
    RowBeside (Anchored start q.entries) (entriesIn q.entries box.view) corner row others
  below : ∃ corner row others, RowBelow (Anchored start q.entries)
    (q.entries.filter fun e => e.container = none) origin corner row others

/-- The floating packages in no container are in a row without gaps, below all else in none. -/
theorem Unfitted.rowBelow {packages : List ElementId} (h : Unfitted start p packages)
    (origin : Point) (hwidth : ∀ e ∈ (fit p packages origin {}).entries, 0 ≤ e.bounds.width) :
    ∃ corner row others, RowBelow (Anchored start p.entries)
      ((fit p packages origin {}).entries.filter fun e => e.container = none) origin corner row
      others := by
  classical
  have hf := h.progress {} (List.append_nil packages).symm
  have hredrawn := (h.intact_fit {} origin).redrawn
  let after := fit p packages origin {}
  let views := packages.filterMap p.viewOf?
  let fitted := packages.foldl (fitPackage {} views) { placement := p }
  let floating := topFloating views fitted
  let row := after.entries.filter fun e => e.container = none ∧ ¬ Anchored start p.entries e.view
  have hnodup : (row.map LayoutEntry.view).Nodup := by
    refine List.Nodup.sublist (List.filter_sublist.map _) ?_
    exact hredrawn.running.map_view ▸ hredrawn.running.nodup_values
  -- The row has the same views, in the order in which the packages were fitted.
  have hperm : floating.Perm (row.map LayoutEntry.view) := by
    refine (List.perm_ext_iff_of_nodup ?_ hnodup).2 fun v => ?_
    · exact (h.nodup.filterMap fun a b v ha hb => h.running.viewOf?_inj ha hb).filter _
    · rw [List.mem_map]
      constructor
      · intro hv
        obtain ⟨u, hu, rfl, hc⟩ := h.exists_of_mem_topFloating hf hv
        obtain ⟨r, hr⟩ := (redrawn_moveFloating (s := {}) hf.intact.redrawn.running origin
          views).exists_reshape hu
        refine ⟨_, List.mem_filter.2 ⟨hr, decide_eq_true ⟨hc, ?_⟩⟩, rfl⟩
        exact ((h.mem_topFloating hf hu).1 hv).2
      · rintro ⟨e, he, rfl⟩
        obtain ⟨he, hboth⟩ := List.mem_filter.1 he
        obtain ⟨hc, hfloats⟩ := of_decide_eq_true hboth
        exact h.mem_topFloating_of_mem hf {} origin he hc hfloats
  have hlined : Lined (Anchored start p.entries) (after.entries.filter fun e => e.container = none)
      (topOrigin {} origin views fitted) row :=
    lined_of_row (h.row_topFloating hf (by decide) origin fun e he _ => hwidth e he)
      (fun e => by simp [row, and_assoc]) (List.filter_subset_self _) hnodup hperm
  obtain ⟨others, hothers, hmemOthers⟩ := h.mergedBounds?_topFixed hf {} origin
  refine ⟨topOrigin {} origin views fitted, row, others, hlined, fun e => ?_, ?_⟩
  · rw [hmemOthers, List.mem_filter, decide_eq_true_eq, and_assoc]
    rfl
  · rw [topOrigin, hothers]

theorem Unfitted.compact {packages : List ElementId} (h : Unfitted start p packages)
    (hsolid : ∀ e ∈ p.entries, start.kind? e.element ≠ some .package → e.bounds.Solid)
    (origin : Point) : Compact start origin (fit p packages origin {}) := by
  have hredrawn := (h.intact_fit {} origin).redrawn
  have hroom : ∀ e ∈ (fit p packages origin {}).entries, e.bounds.Solid := fun e he =>
    h.solid_fit origin hsolid he
  have hsame : Anchored start (fit p packages origin {}).entries = Anchored start p.entries :=
    funext fun view => propext (anchored_redrawn hredrawn)
  refine ⟨hredrawn.running, hroom, fun box hbox hkind => h.fits_fit {} origin hbox hkind, ?_, ?_⟩
  · intro box hbox hkind
    obtain ⟨done, f, box', dx, dy, hturn, hwidth, hinside⟩ :=
      h.exists_turn origin (fun e he => (hroom e he).width_nonneg) hbox hkind
    obtain ⟨corner, row, others, hrow⟩ := hturn.rowBeside hwidth
    rw [hsame, hinside]
    exact ⟨_, _, _, hrow.shift dx dy⟩
  · rw [hsame]
    exact h.rowBelow origin fun e he => (hroom e he).width_nonneg

/-! ### Floating packages -/

open Classical in
/-- All floating packages. -/
noncomputable def floating (start : Workspace) (entries : List LayoutEntry) : Finset LayoutEntry :=
  entries.toFinset.filter fun e => ¬ Anchored start entries e.view

/-- What the floating packages directly inside a view, or in none, take in their row. -/
noncomputable def rowIn (start : Workspace) (entries : List LayoutEntry)
    (container : Option ViewId) : Int :=
  ∑ e ∈ floating start entries with e.container = container, rowWidth e

section Counting

variable {entries : List LayoutEntry}

theorem mem_floating {e : LayoutEntry} :
    e ∈ floating start entries ↔ e ∈ entries ∧ ¬ Anchored start entries e.view := by
  simp [floating]

/-- Only packages float. -/
theorem kind_eq_of_floating {e : LayoutEntry} (he : e ∈ entries)
    (hfloats : ¬ Anchored start entries e.view) : start.kind? e.element = some .package := by
  by_contra hother
  exact hfloats (.element he hother)

/-- What is inside a floating package floats. -/
theorem floats_of_mem_entriesIn {e box : LayoutEntry} (he : e ∈ entriesIn entries box.view)
    (hfloats : ¬ Anchored start entries box.view) : ¬ Anchored start entries e.view := by
  obtain ⟨he, hc⟩ := mem_entriesIn.1 he
  exact fun hin => hfloats (.package he hc hin)

/-- What is in a row takes what the floating packages take. -/
theorem Lined.sum_eq {es row : List LayoutEntry} {corner : Point}
    (h : Lined (Anchored start entries) es corner row) (container : Option ViewId)
    (hes : ∀ e, e ∈ es ↔ e ∈ entries ∧ e.container = container) :
    (row.map rowWidth).sum = rowIn start entries container := by
  rw [rowIn, ← List.sum_toFinset rowWidth h.nodup]
  congr 1
  ext e
  rw [List.mem_toFinset, h.mem_iff, hes, Finset.mem_filter, mem_floating]
  tauto

/-- The packages of a layout. -/
def packagesIn (start : Workspace) (entries : List LayoutEntry) : Finset LayoutEntry :=
  entries.toFinset.filter fun e => start.kind? e.element = some .package

/-- The room that is enough for a number of packages. -/
def roomFor (packages : Int) : Insets :=
  ⟨60 * packages, 250 * packages, 330 * packages + 50, 30 * packages⟩

theorem mem_packagesIn {e : LayoutEntry} :
    e ∈ packagesIn start entries ↔ e ∈ entries ∧ start.kind? e.element = some .package := by
  rw [packagesIn, Finset.mem_filter, List.mem_toFinset]

/-- The packages that are not around an entry, from the entry itself on, each with a weight: all
that is inside the entry is among them. -/
def reach (start : Workspace) (entries : List LayoutEntry) (weight : LayoutEntry → Int)
    (e : LayoutEntry) : Int :=
  ∑ u ∈ entries.toFinset with
    start.kind? u.element = some .package ∧ e.view.index ≤ u.view.index, weight u

variable {weight : LayoutEntry → Int}

theorem reach_nonneg (start : Workspace) (entries : List LayoutEntry) (hweight : ∀ u, 0 ≤ weight u)
    (e : LayoutEntry) :
    0 ≤ reach start entries weight e :=
  Finset.sum_nonneg fun u _ => hweight u

/-- No entry reaches further than all packages together. -/
theorem reach_le (hweight : ∀ u, 0 ≤ weight u) (e : LayoutEntry) :
    reach start entries weight e ≤ ∑ u ∈ packagesIn start entries, weight u := by
  refine Finset.sum_le_sum_of_subset_of_nonneg (fun u hu => ?_) fun u _ _ => hweight u
  obtain ⟨hmem, hkind, -⟩ := Finset.mem_filter.1 hu
  exact Finset.mem_filter.2 ⟨hmem, hkind⟩

theorem reach_const_le (start : Workspace) (entries : List LayoutEntry) {k : Int} (hk : 0 ≤ k)
    (e : LayoutEntry) :
    reach start entries (fun _ => k) e ≤ k * (packagesIn start entries).card := by
  refine (reach_le (fun _ => hk) e).trans (Int.le_of_eq ?_)
  rw [Finset.sum_const, Int.nsmul_eq_mul, Int.mul_comm]

/-- A package reaches further than what was made after it, by its own weight. -/
theorem reach_add_le (hweight : ∀ u, 0 ≤ weight u) {box e : LayoutEntry} (hbox : box ∈ entries)
    (hkind : start.kind? box.element = some .package) (hlt : box.view.index < e.view.index) :
    reach start entries weight e + weight box ≤ reach start entries weight box := by
  have hnew : box ∉ entries.toFinset.filter fun u =>
      start.kind? u.element = some .package ∧ e.view.index ≤ u.view.index := by
    rw [Finset.mem_filter]
    omega
  rw [reach, Int.add_comm, ← Finset.sum_insert hnew]
  refine Finset.sum_le_sum_of_subset_of_nonneg (fun u hu => ?_) fun u _ _ => hweight u
  rw [Finset.mem_insert, Finset.mem_filter] at hu
  rw [Finset.mem_filter]
  rcases hu with rfl | ⟨hu, hpackage, hle⟩
  · exact ⟨List.mem_toFinset.2 hbox, hkind, Nat.le_refl _⟩
  · exact ⟨hu, hpackage, by omega⟩

/-- So its own weight is the least that it reaches. -/
theorem le_reach (hweight : ∀ u, 0 ≤ weight u) {box : LayoutEntry} (hbox : box ∈ entries)
    (hkind : start.kind? box.element = some .package) :
    weight box ≤ reach start entries weight box := by
  refine Finset.single_le_sum (f := weight) (fun u _ => hweight u) ?_
  rw [Finset.mem_filter]
  exact ⟨List.mem_toFinset.2 hbox, hkind, Nat.le_refl _⟩

end Counting

namespace Compact

variable {origin : Point}

theorem rowWidth_nonneg (h : Compact start origin q) {e : LayoutEntry} (he : e ∈ q.entries) :
    0 ≤ rowWidth e := by
  have hroom := (h.solid e he).width_nonneg
  rw [rowWidth]
  omega

theorem rowIn_nonneg (h : Compact start origin q) (container : Option ViewId) :
    0 ≤ rowIn start q.entries container :=
  Finset.sum_nonneg fun _ he => h.rowWidth_nonneg (mem_floating.1 (Finset.mem_filter.1 he).1).1

/-- A floating package is around its row. -/
theorem bounds_of_floating (h : Compact start origin q) {box : LayoutEntry}
    (hbox : box ∈ q.entries) (hfloats : ¬ Anchored start q.entries box.view) {height : Int}
    (hheight : ∀ e ∈ entriesIn q.entries box.view, e.bounds.height ≤ height) (hpos : 0 ≤ height) :
    rowWidth box ≤ 250 + rowIn start q.entries (some box.view) ∧
      box.bounds.height ≤ 150 + height := by
  have hkind := kind_eq_of_floating hbox hfloats
  have hrow := h.rowIn_nonneg (some box.view)
  rcases (h.fits box hbox hkind).cases with ⟨-, hleast⟩ | ⟨content, hcontent, hbounds⟩
  · simp only [rowWidth, LayoutEntry.bounds, hleast, Point.toBounds, Bounds.width, Bounds.height]
    omega
  · obtain ⟨corner, row, others, hlined⟩ := h.inside box hbox hkind
    have hsum := hlined.sum_eq (some box.view) fun e => mem_entriesIn
    -- All that is inside is in the row.
    have haround : (Bounds.mk corner.x corner.y
        (corner.x + rowIn start q.entries (some box.view) - 50) (corner.y + height)).contains
          content := by
      refine Bounds.contains_mergeAll hcontent fun b hb => ?_
      obtain ⟨e, he, rfl⟩ := List.mem_map.1 hb
      have hmem := (hlined.mem_iff e).2 ⟨he, floats_of_mem_entriesIn he hfloats⟩
      have hleft := hlined.left e hmem
      have hright := hlined.right e hmem
      have htop := hlined.top e hmem
      have hlow := hheight e he
      simp only [Bounds.height] at hlow
      rw [hsum] at hright
      simp only [Bounds.contains_iff]
      omega
    simp only [Bounds.contains_iff] at haround
    simp only [rowWidth, hbounds, Bounds.pad, insets, Bounds.width, Bounds.height]
    omega

/-- A floating package is no higher than 150 for each package. -/
theorem height_le (h : Compact start origin q) {e : LayoutEntry} (he : e ∈ q.entries)
    (hfloats : ¬ Anchored start q.entries e.view) :
    e.bounds.height ≤ reach start q.entries (fun _ => 150) e := by
  refine h.running.inward_induct (motive := fun e => ¬ Anchored start q.entries e.view →
    e.bounds.height ≤ reach start q.entries (fun _ => 150) e) ?_ he hfloats
  intro box hbox ih hfloats
  have hkind := kind_eq_of_floating hbox hfloats
  have hweight : ∀ u : LayoutEntry, (0 : Int) ≤ 150 := fun _ => by decide
  have hself := le_reach hweight hbox hkind
  have hinside : ∀ e ∈ entriesIn q.entries box.view,
      e.bounds.height ≤ reach start q.entries (fun _ => 150) box - 150 := by
    intro e he
    obtain ⟨hmem, hc⟩ := mem_entriesIn.1 he
    have hheight := ih e he (floats_of_mem_entriesIn he hfloats)
    have hmore := reach_add_le hweight hbox hkind (h.running.container_lt e hmem _ hc)
    omega
  have hbounds := (h.bounds_of_floating hbox hfloats hinside (by omega)).2
  omega

/-- Every floating package is in one row: that of its container, or that below all else. -/
theorem sum_rowIn_eq (h : Compact start origin q) :
    rowIn start q.entries none + ∑ box ∈ q.entries.toFinset, rowIn start q.entries (some box.view)
      = ∑ f ∈ floating start q.entries, rowWidth f := by
  classical
  let containers := insert none (q.entries.toFinset.image fun e => some e.view)
  have hmaps : ∀ e ∈ floating start q.entries, e.container ∈ containers := by
    intro e he
    cases hc : e.container with
    | none => exact Finset.mem_insert_self _ _
    | some c =>
        obtain ⟨box, hbox, rfl, -⟩ := h.running.container_mem (mem_floating.1 he).1 hc
        exact Finset.mem_insert_of_mem
          (Finset.mem_image_of_mem (fun e => some e.view) (List.mem_toFinset.2 hbox))
  have hnone : none ∉ q.entries.toFinset.image fun e => some e.view := by simp
  have hinj : Set.InjOn (fun e : LayoutEntry => some e.view) q.entries.toFinset := by
    intro e he e' he' heq
    simp only [List.coe_toFinset, Set.mem_ofPred_eq] at he he'
    exact h.running.eq_of_view_eq he he' (Option.some.inj heq)
  rw [← Finset.sum_fiberwise_of_maps_to hmaps, Finset.sum_insert hnone, Finset.sum_image hinj]
  rfl

open Classical in
/-- **The rows that are not inside a floating package** take 250 for each floating package, all of
them together: what the packages inside a floating one take is counted with that one. -/
theorem sum_rows_le (h : Compact start origin q) :
    rowIn start q.entries none +
        ∑ box ∈ q.entries.toFinset with Anchored start q.entries box.view,
          rowIn start q.entries (some box.view)
      ≤ 250 * (floating start q.entries).card := by
  let row := rowIn start q.entries
  let all := q.entries.toFinset
  have htotal : row none + ∑ box ∈ all, row (some box.view)
      = ∑ f ∈ floating start q.entries, rowWidth f := h.sum_rowIn_eq
  have hsplit := Finset.sum_filter_add_sum_filter_not all
    (fun box => Anchored start q.entries box.view) fun box => row (some box.view)
  have hwide : ∑ f ∈ floating start q.entries, rowWidth f
      ≤ 250 * (floating start q.entries).card
        + ∑ f ∈ floating start q.entries, row (some f.view) := by
    rw [Int.mul_comm, ← Int.nsmul_eq_mul, ← Finset.sum_const, ← Finset.sum_add_distrib]
    refine Finset.sum_le_sum fun f hf => ?_
    obtain ⟨hmem, hfloats⟩ := mem_floating.1 hf
    have hheight : ∀ e ∈ entriesIn q.entries f.view, e.bounds.height
        ≤ ∑ u ∈ packagesIn start q.entries, 150 := fun e he =>
      (h.height_le (mem_entriesIn.1 he).1 (floats_of_mem_entriesIn he hfloats)).trans
        (reach_le (fun _ => by decide) e)
    exact (h.bounds_of_floating hmem hfloats hheight
      (Finset.sum_nonneg fun _ _ => by decide)).1
  have hsame : ∑ f ∈ floating start q.entries, row (some f.view)
      = ∑ box ∈ all with ¬ Anchored start q.entries box.view, row (some box.view) := rfl
  show row none + ∑ box ∈ all with Anchored start q.entries box.view, row (some box.view) ≤ _
  omega

/-! ### Everything -/

open Classical in
/-- How far an anchored package goes on to the right: its row and its padding. -/
noncomputable def sideways (start : Workspace) (entries : List LayoutEntry) (u : LayoutEntry) :
    Int :=
  if Anchored start entries u.view then rowIn start entries (some u.view) + 30 else 0

/-- The room that an anchored entry may take around what is placed, with rows that are no higher
than `height`. -/
noncomputable def roomAround (start : Workspace) (entries : List LayoutEntry) (height : Int)
    (e : LayoutEntry) : Insets where
  top := reach start entries (fun _ => 60) e
  right := reach start entries (sideways start entries) e
  bottom := height + reach start entries (fun _ => 30) e
  left := reach start entries (fun _ => 30) e

theorem sideways_nonneg (h : Compact start origin q) (u : LayoutEntry) :
    0 ≤ sideways start q.entries u := by
  have hrow := h.rowIn_nonneg (some u.view)
  rw [sideways]
  split <;> omega

/-- **The row of a package** goes on to the right of what is anchored inside, at its top. -/
theorem row_within (h : Compact start origin q) {box : LayoutEntry} (hbox : box ∈ q.entries)
    (hkind : start.kind? box.element = some .package) {inner : Bounds} {height : Int}
    (hinner : ∀ c ∈ entriesIn q.entries box.view, Anchored start q.entries c.view →
      inner.contains c.bounds ∧ c.bounds.minY + height ≤ inner.maxY)
    (hheight : ∀ e ∈ q.entries, ¬ Anchored start q.entries e.view → e.bounds.height ≤ height)
    {c : LayoutEntry} (hc : c ∈ entriesIn q.entries box.view)
    (hcin : Anchored start q.entries c.view) {e : LayoutEntry}
    (he : e ∈ entriesIn q.entries box.view) :
    (inner.pad ⟨0, rowIn start q.entries (some box.view), 0, 0⟩).contains e.bounds := by
  have hspan := h.rowIn_nonneg (some box.view)
  by_cases hein : Anchored start q.entries e.view
  · have hwithin := (hinner e he hein).1
    simp only [Bounds.contains_iff, Bounds.pad] at hwithin ⊢
    omega
  · obtain ⟨corner, row, others, hrow⟩ := h.inside box hbox hkind
    have hsum := hrow.sum_eq (some box.view) fun e => mem_entriesIn
    have hanchored := List.mem_map_of_mem (f := LayoutEntry.bounds)
      ((hrow.mem_others c).2 ⟨hc, hcin⟩)
    obtain ⟨content, hcontent⟩ := Bounds.exists_mergeAll hanchored
    have hfixed : inner.contains content := by
      refine Bounds.contains_mergeAll hcontent fun b hb => ?_
      obtain ⟨e, he, rfl⟩ := List.mem_map.1 hb
      obtain ⟨he, hein⟩ := (hrow.mem_others e).1 he
      exact (hinner e he hein).1
    have haround := Bounds.mergeAll_contains hcontent hanchored
    have hwide := (h.solid c (mem_entriesIn.1 hc).1).width
    have hlow := (hinner c hc hcin).2
    have hmem := (hrow.mem_iff e).2 ⟨he, hein⟩
    have hleft := hrow.left e hmem
    have hright := hrow.right e hmem
    have htop := hrow.top e hmem
    have hend := hheight e (mem_entriesIn.1 he).1 hein
    rw [hsum, hrow.corner_eq content hcontent] at hright
    rw [hrow.corner_eq content hcontent] at hleft htop
    simp only [Bounds.contains_iff, Bounds.pad, Bounds.height] at *
    omega

/-- What is anchored stays within the area of what is placed and the room of its packages. -/
theorem anchored_within (h : Compact start origin q) {area : Bounds} {height : Int}
    (hplaced : ∀ e ∈ q.entries, start.kind? e.element ≠ some .package → area.contains e.bounds)
    (hheight : ∀ e ∈ q.entries, ¬ Anchored start q.entries e.view → e.bounds.height ≤ height)
    (hpos : 0 ≤ height) {e : LayoutEntry} (he : e ∈ q.entries)
    (hin : Anchored start q.entries e.view) :
    (area.pad (roomAround start q.entries height e)).contains e.bounds ∧
      e.bounds.minY ≤ area.maxY := by
  have hthirty : ∀ u : LayoutEntry, (0 : Int) ≤ 30 := fun _ => by decide
  have hsixty : ∀ u : LayoutEntry, (0 : Int) ≤ 60 := fun _ => by decide
  refine h.running.inward_induct (motive := fun e => Anchored start q.entries e.view →
    (area.pad (roomAround start q.entries height e)).contains e.bounds ∧
      e.bounds.minY ≤ area.maxY) ?_ he hin
  intro box hbox ih hin
  by_cases hkind : start.kind? box.element = some .package
  · -- Everything anchored that is inside is within this.
    let inner : Bounds := area.pad
      { top := reach start q.entries (fun _ => 60) box - 60
        right := reach start q.entries (sideways start q.entries) box
          - sideways start q.entries box
        bottom := height + reach start q.entries (fun _ => 30) box - 30
        left := reach start q.entries (fun _ => 30) box - 30 }
    have hself := le_reach hthirty hbox hkind
    have hinner : ∀ c ∈ entriesIn q.entries box.view, Anchored start q.entries c.view →
        inner.contains c.bounds ∧ c.bounds.minY + height ≤ inner.maxY := by
      intro c hc hcin
      obtain ⟨hmem, hcontainer⟩ := mem_entriesIn.1 hc
      have hlt := h.running.container_lt c hmem _ hcontainer
      have htop := reach_add_le hsixty hbox hkind hlt
      have hleft := reach_add_le hthirty hbox hkind hlt
      have hright := reach_add_le h.sideways_nonneg hbox hkind hlt
      obtain ⟨hwithin, hlow⟩ := ih c hc hcin
      simp only [Bounds.contains_iff, Bounds.pad, roomAround, inner] at hwithin ⊢
      omega
    obtain ⟨c, hc, hcin⟩ := (anchored_iff (.refl h.running) hbox hkind).1 hin
    obtain ⟨all, hall, hbounds⟩ := (h.fits box hbox hkind).exists_content hc
    have hwithin : (inner.pad ⟨0, rowIn start q.entries (some box.view), 0, 0⟩).contains all := by
      refine Bounds.contains_mergeAll hall fun b hb => ?_
      obtain ⟨e, he, rfl⟩ := List.mem_map.1 hb
      exact h.row_within hbox hkind hinner hheight hc hcin he
    have hchild := Bounds.mergeAll_contains hall (List.mem_map_of_mem hc)
    have hlow := (ih c hc hcin).2
    have hside : sideways start q.entries box = rowIn start q.entries (some box.view) + 30 :=
      if_pos hin
    rw [hbounds]
    simp only [Bounds.contains_iff, Bounds.pad, insets, roomAround, inner] at *
    omega
  · have hwithin := hplaced box hbox hkind
    have hsolid := (h.solid box hbox).height
    have htop := reach_nonneg start q.entries hsixty box
    have hleft := reach_nonneg start q.entries hthirty box
    have hright := reach_nonneg start q.entries h.sideways_nonneg box
    simp only [Bounds.contains_iff, Bounds.pad, roomAround] at *
    omega

/-- All packages together take 250 sideways for each of them, the row of those in no container
included. -/
theorem sum_sideways_le (h : Compact start origin q) :
    rowIn start q.entries none + ∑ u ∈ packagesIn start q.entries, sideways start q.entries u
      ≤ 250 * (packagesIn start q.entries).card := by
  classical
  let anchored := (packagesIn start q.entries).filter fun u => Anchored start q.entries u.view
  have hsideways : ∑ u ∈ packagesIn start q.entries, sideways start q.entries u
      = ∑ u ∈ anchored, rowIn start q.entries (some u.view) + 30 * anchored.card := by
    rw [Int.mul_comm, ← Int.nsmul_eq_mul, ← Finset.sum_const, ← Finset.sum_add_distrib,
      Finset.sum_filter]
    rfl
  have hmore : ∑ u ∈ anchored, rowIn start q.entries (some u.view)
      ≤ ∑ box ∈ q.entries.toFinset with Anchored start q.entries box.view,
          rowIn start q.entries (some box.view) := by
    refine Finset.sum_le_sum_of_subset_of_nonneg (fun u hu => ?_) fun u _ _ => h.rowIn_nonneg _
    obtain ⟨hu, hin⟩ := Finset.mem_filter.1 hu
    exact Finset.mem_filter.2 ⟨(Finset.mem_filter.1 hu).1, hin⟩
  have hcount : (floating start q.entries).card + anchored.card
      ≤ (packagesIn start q.entries).card := by
    rw [← Finset.card_filter_add_card_filter_not (s := packagesIn start q.entries) fun u =>
      Anchored start q.entries u.view, Nat.add_comm]
    refine Nat.add_le_add_left (Finset.card_le_card fun u hu => ?_) _
    obtain ⟨hmem, hfloats⟩ := mem_floating.1 hu
    exact Finset.mem_filter.2 ⟨mem_packagesIn.2 ⟨hmem, kind_eq_of_floating hmem hfloats⟩, hfloats⟩
  have hrows := h.sum_rows_le
  omega

section Everything

variable {area : Bounds}

/-- A floating package is no higher than 150 for each package of the diagram. -/
theorem height_le_card (h : Compact start origin q) {e : LayoutEntry} (he : e ∈ q.entries)
    (hfloats : ¬ Anchored start q.entries e.view) :
    e.bounds.height ≤ 150 * (packagesIn start q.entries).card :=
  (h.height_le he hfloats).trans (reach_const_le start q.entries (by decide) e)

theorem anchored_within_card (h : Compact start origin q)
    (hplaced : ∀ e ∈ q.entries, start.kind? e.element ≠ some .package → area.contains e.bounds)
    {e : LayoutEntry} (he : e ∈ q.entries) (hin : Anchored start q.entries e.view) :
    (area.pad { top := 60 * (packagesIn start q.entries).card
                right := 250 * (packagesIn start q.entries).card
                bottom := 180 * (packagesIn start q.entries).card
                left := 30 * (packagesIn start q.entries).card }).contains e.bounds := by
  have hwithin := (h.anchored_within hplaced (fun e he => h.height_le_card he) (by omega) he hin).1
  have htop := reach_const_le start q.entries (k := 60) (by decide) e
  have hleft := reach_const_le start q.entries (k := 30) (by decide) e
  have hright : reach start q.entries (sideways start q.entries) e
      ≤ ∑ u ∈ packagesIn start q.entries, sideways start q.entries u :=
    reach_le h.sideways_nonneg e
  have hsum := h.sum_sideways_le
  have hrow := h.rowIn_nonneg none
  simp only [Bounds.contains_iff, Bounds.pad, roomAround] at hwithin ⊢
  omega

/-- The row below all else begins below the lowest of the others, or at the origin. -/
theorem corner_mem (h : Compact start origin q)
    (hplaced : ∀ e ∈ q.entries, start.kind? e.element ≠ some .package → area.contains e.bounds)
    (horigin : area.contains ⟨origin.x, origin.y, origin.x, origin.y⟩) {corner : Point}
    {row others : List LayoutEntry} (hbelow : RowBelow (Anchored start q.entries)
      (q.entries.filter fun e => e.container = none) origin corner row others) :
    corner.x = origin.x ∧ area.minY - 60 * (packagesIn start q.entries).card ≤ corner.y ∧
      corner.y ≤ area.maxY + 180 * (packagesIn start q.entries).card + 50 := by
  refine ⟨by rw [hbelow.corner_eq], ?_⟩
  cases hothers : Bounds.mergeAll (others.map LayoutEntry.bounds) with
  | none =>
      simp only [hbelow.corner_eq, hothers, Option.elim_none]
      simp only [Bounds.contains_iff] at horigin
      omega
  | some content =>
      obtain ⟨-, b, hb, hlowest⟩ := Bounds.mergeAll_attains hothers
      obtain ⟨u, hu, rfl⟩ := List.mem_map.1 hb
      obtain ⟨hu, huin⟩ := (hbelow.mem_others u).1 hu
      have humem := (List.mem_filter.1 hu).1
      have huwithin := h.anchored_within_card hplaced humem huin
      have husolid := (h.solid u humem).height
      simp only [hbelow.corner_eq, hothers, Option.elim_some]
      simp only [Bounds.contains_iff, Bounds.pad] at huwithin
      omega

/-- **Everything stays within the area of what is placed and of the origin**, with room around it
for each package. -/
theorem within (h : Compact start origin q)
    (hplaced : ∀ e ∈ q.entries, start.kind? e.element ≠ some .package → area.contains e.bounds)
    (horigin : area.contains ⟨origin.x, origin.y, origin.x, origin.y⟩) {e : LayoutEntry}
    (he : e ∈ q.entries) :
    (area.pad (roomFor (packagesIn start q.entries).card)).contains e.bounds := by
  -- What is inside something is within its box, so only what is in no container matters.
  obtain ⟨n, top, hwithin, hcontainer⟩ := h.running.exists_outermost he
  have hbox : top.bounds.contains e.bounds := by
    refine hwithin.contains fun e he box hbox hc => ?_
    exact (h.fits box hbox ((Within.up he hc (.self hbox)).kind_eq h.running)).contains
      (by decide) (by decide) he hc
  refine Bounds.contains_trans ?_ hbox
  have hmem := hwithin.mem_right
  by_cases hin : Anchored start q.entries top.view
  · have htop := h.anchored_within_card hplaced hmem hin
    simp only [Bounds.contains_iff, Bounds.pad, roomFor] at htop ⊢
    omega
  · obtain ⟨corner, row, others, hbelow⟩ := h.below
    have hsame := hbelow.sum_eq none (by simp)
    have hrowmem := (hbelow.mem_iff top).2
      ⟨List.mem_filter.2 ⟨hmem, decide_eq_true hcontainer⟩, hin⟩
    have hleft := hbelow.left top hrowmem
    have hright := hbelow.right top hrowmem
    have htop := hbelow.top top hrowmem
    have hlow := h.height_le_card hmem hin
    obtain ⟨hx, hup, hdown⟩ := h.corner_mem hplaced horigin hbelow
    have hsum := h.sum_sideways_le
    have hside : 0 ≤ ∑ u ∈ packagesIn start q.entries, sideways start q.entries u :=
      Finset.sum_nonneg fun u _ => h.sideways_nonneg u
    simp only [Bounds.contains_iff] at horigin
    simp only [Bounds.height] at hlow
    simp only [Bounds.contains_iff, Bounds.pad, roomFor]
    omega

end Everything

end Compact

/-- **Fitting the packages** keeps everything solid and within the area of what was placed, with
room around it for each package. -/
theorem Unfitted.within_fit {packages : List ElementId} (h : Unfitted start p packages)
    {origin : Point} {area : Bounds}
    (hplaced : ∀ e ∈ p.entries, start.kind? e.element ≠ some .package →
      e.bounds.Solid ∧ area.contains e.bounds)
    (horigin : area.contains ⟨origin.x, origin.y, origin.x, origin.y⟩) {e : LayoutEntry}
    (he : e ∈ (fit p packages origin {}).entries) :
    e.bounds.Solid ∧
      (area.pad (roomFor (packagesIn start (fit p packages origin {}).entries).card)).contains
        e.bounds := by
  have hcompact := h.compact (fun e he hother => (hplaced e he hother).1) origin
  refine ⟨hcompact.solid e he, hcompact.within (fun e he hother => ?_) horigin he⟩
  exact (hplaced e ((h.intact_fit {} origin).mem_of_mem he hother) hother).2

end Packages

end UmlText
