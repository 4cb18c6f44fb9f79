import UmlText.Proofs.Layout.Arranging
import UmlText.Proofs.Layout.Blocks
import UmlText.Proofs.Layout.Levels

/-!
# UmlText.Proofs.Layout.Strangers

**When a package covers a stranger.** The blocks of a class diagram leave room for the borders of
packages, but not for the floating packages beside what is placed. So a package box covers a
stranger exactly if, somewhere inside it, a floating package reaches down to an anchored package
that stands below (`Composed.coversNoStranger_iff`).
-/

namespace UmlText

universe u

open BackedStore (workspace)
open ModelStore (owningPackage?)
open Packages (Anchored Arranged Lowered Fits insets)
open Placement (Running entriesIn mem_entriesIn)

variable {σ : Type u} [ModelStore σ] [ViewStore σ] [BackedStore σ]

/-- An entry is a stranger to another one if neither is inside the other. -/
structure Stranger (entries : List LayoutEntry) (e box : LayoutEntry) : Prop where
  ne : e ≠ box
  not_inside : ¬ Inside entries e box
  not_around : ¬ Inside entries box e

omit [ModelStore σ] [ViewStore σ] [BackedStore σ] in
/-- Entries in no container are strangers. -/
theorem Stranger.of_container {entries : List LayoutEntry} {e box : LayoutEntry}
    (he : e.container = none) (hbox : box.container = none) (hne : e ≠ box) :
    Stranger entries e box := by
  have hout : ∀ {a b : LayoutEntry}, a.container = none → ¬ Inside entries a b := by
    intro a b ha hinside
    cases hinside with
    | direct _ _ hcontainer => simp [ha] at hcontainer
    | step _ hcontainer _ => simp [ha] at hcontainer
  exact ⟨hne, hout he, hout hbox⟩

/-- No package shares area with an entry that is neither inside nor around it. -/
def CoversNoStranger (start : Workspace) (entries : List LayoutEntry) : Prop :=
  ∀ box ∈ entries, start.kind? box.element = some .package → ∀ e ∈ entries,
    Stranger entries e box → ¬ box.bounds.overlaps e.bounds

/-- Every floating package ends above each anchored package that stands below. Let the floating
package be directly inside `around`, which is `n` levels inside `upper`, and let `lower` stand
beside `upper`: the floating package has above the top of `lower` the room for the padding of all
boxes from `around` to `upper`. -/
def FloatsClear (start : Workspace) (entries : List LayoutEntry) : Prop :=
  ∀ (n : Nat) (floating around upper lower : LayoutEntry),
    floating ∈ entries → floating.container = some around.view →
    ¬ Anchored start entries floating.view → Anchored start entries around.view →
    Within entries n around upper → lower ∈ entries → lower.container = upper.container →
    Anchored start entries lower.view → upper.bounds.minY < lower.bounds.minY →
      floating.bounds.maxY + 30 * (n + 1) ≤ lower.bounds.minY

omit [ModelStore σ] [ViewStore σ] [BackedStore σ] in
/-- Whatever has something anchored inside is anchored. -/
theorem Within.anchored {start : Workspace} {entries : List LayoutEntry} {n : Nat}
    {e box : LayoutEntry} (hwithin : Within entries n e box) (h : Anchored start entries e.view) :
    Anchored start entries box.view := by
  induction hwithin with
  | self _ => exact h
  | up he hcontainer _ ih => exact ih (.package he hcontainer h)

/-- A finished class diagram: what was placed is in blocks by its packages, every package box is
exact, and the floating packages stand beside or below everything else. -/
structure Composed (start : Workspace) (rank : ElementId → Nat) (key : ElementId → List Nat)
    (p : Placement σ) : Prop where
  running : Running start p
  keyed : Keyed start rank key p.entries
  spread : Grid.Spread key (p.entries.filter fun e => start.kind? e.element ≠ some .package)
  /-- The grid has not come to its end. -/
  le_highest : ∀ e ∈ p.entries, e.bounds.maxY ≤ Saturating.highest
  solid : ∀ e ∈ p.entries, e.bounds.Solid
  fits : ∀ box ∈ p.entries, start.kind? box.element = some .package → Fits {} p.entries box
  arranged : ∀ box ∈ p.entries, start.kind? box.element = some .package →
    Arranged (Anchored start p.entries) (entriesIn p.entries box.view)
  lowered : Lowered (Anchored start p.entries) (p.entries.filter fun e => e.container = none)

namespace Composed

variable {start : Workspace} {rank : ElementId → Nat} {key : ElementId → List Nat}
  {p : Placement σ} {n : Nat} {x y e box : LayoutEntry}

omit [ModelStore σ] [BackedStore σ] in
theorem mem_grid (he : e ∈ p.entries) (hkind : start.kind? e.element ≠ some .package) :
    e ∈ p.entries.filter fun e => start.kind? e.element ≠ some .package :=
  List.mem_filter.2 ⟨he, decide_eq_true hkind⟩

theorem contains_of_within (h : Composed start rank key p) (hwithin : Within p.entries n e box) :
    box.bounds.contains e.bounds := by
  refine hwithin.contains fun e he box hbox hcontainer => ?_
  have hkind := (Within.up he hcontainer (.self hbox)).kind_eq h.running
  exact (h.fits box hbox hkind).contains (by decide) (by decide) he hcontainer

/-! ### The extent of an anchored package -/

/-- The box of a package with something directly inside. -/
theorem bounds_eq (h : Composed start rank key p) (hbox : box ∈ p.entries)
    (hkind : start.kind? box.element = some .package) {c : LayoutEntry}
    (hc : c ∈ entriesIn p.entries box.view) :
    ∃ content, Bounds.mergeAll ((entriesIn p.entries box.view).map LayoutEntry.bounds)
        = some content ∧ box.bounds.minY = content.minY - 60 ∧
      box.bounds.maxY = content.maxY + 30 := by
  obtain ⟨content, hcontent, haround⟩ := (h.fits box hbox hkind).exists_content hc
  exact ⟨content, hcontent, by rw [haround]; rfl, by rw [haround]; rfl⟩

/-- An anchored view reaches up no further than the headers around something placed inside it. -/
theorem exists_le_minY (h : Composed start rank key p) (hx : x ∈ p.entries)
    (hin : Anchored start p.entries x.view) :
    ∃ n g, Within p.entries n g x ∧ start.kind? g.element ≠ some .package ∧
      g.bounds.minY - 60 * n ≤ x.bounds.minY := by
  refine h.running.inward_induct (motive := fun x => Anchored start p.entries x.view →
    ∃ n g, Within p.entries n g x ∧ start.kind? g.element ≠ some .package ∧
      g.bounds.minY - 60 * n ≤ x.bounds.minY) ?_ hx hin
  intro x hx ih hin
  by_cases hkind : start.kind? x.element = some .package
  · obtain ⟨c, hc, hcin⟩ := (Packages.anchored_iff (.refl h.running) hx hkind).1 hin
    obtain ⟨content, hcontent, htop, -⟩ := h.bounds_eq hx hkind hc
    obtain ⟨⟨b, hb, hb'⟩, -⟩ := Bounds.mergeAll_attains hcontent
    obtain ⟨t, ht, rfl⟩ := List.mem_map.1 hb
    -- The topmost entry may be a floating one, but then an anchored one is as high.
    obtain ⟨u, hu, huin, hle⟩ : ∃ u ∈ entriesIn p.entries x.view,
        Anchored start p.entries u.view ∧ u.bounds.minY ≤ t.bounds.minY := by
      by_cases htin : Anchored start p.entries t.view
      · exact ⟨t, ht, htin, Int.le_refl _⟩
      · exact (h.arranged x hx hkind).level t ht htin ⟨c, hc, hcin⟩
    obtain ⟨n, g, hwithin, hg, hlow⟩ := ih u hu huin
    refine ⟨n + 1, g, hwithin.out hx (mem_entriesIn.1 hu).2, hg, ?_⟩
    omega
  · exact ⟨0, x, .self hx, hkind, by omega⟩

/-- An anchored view reaches down no further than the padding around something placed inside it, or
around a floating package. -/
theorem exists_maxY_le (h : Composed start rank key p) (hx : x ∈ p.entries)
    (hin : Anchored start p.entries x.view) :
    (∃ n g, Within p.entries n g x ∧ start.kind? g.element ≠ some .package ∧
      x.bounds.maxY ≤ g.bounds.maxY + 30 * n) ∨
    ∃ n f around, f ∈ p.entries ∧ f.container = some around.view ∧
      ¬ Anchored start p.entries f.view ∧ Anchored start p.entries around.view ∧
      Within p.entries n around x ∧ x.bounds.maxY ≤ f.bounds.maxY + 30 * (n + 1) := by
  refine h.running.inward_induct (motive := fun x => Anchored start p.entries x.view →
    (∃ n g, Within p.entries n g x ∧ start.kind? g.element ≠ some .package ∧
      x.bounds.maxY ≤ g.bounds.maxY + 30 * n) ∨
    ∃ n f around, f ∈ p.entries ∧ f.container = some around.view ∧
      ¬ Anchored start p.entries f.view ∧ Anchored start p.entries around.view ∧
      Within p.entries n around x ∧ x.bounds.maxY ≤ f.bounds.maxY + 30 * (n + 1))
    ?_ hx hin
  intro x hx ih hin
  by_cases hkind : start.kind? x.element = some .package
  · obtain ⟨c, hc, -⟩ := (Packages.anchored_iff (.refl h.running) hx hkind).1 hin
    obtain ⟨content, hcontent, -, hbottom⟩ := h.bounds_eq hx hkind hc
    obtain ⟨-, b, hb, hb'⟩ := Bounds.mergeAll_attains hcontent
    obtain ⟨t, ht, rfl⟩ := List.mem_map.1 hb
    obtain ⟨hmem, hcontainer⟩ := mem_entriesIn.1 ht
    by_cases htin : Anchored start p.entries t.view
    · rcases ih t ht htin with ⟨n, g, hwithin, hg, hle⟩ |
        ⟨n, f, around, hf, hfc, hfloats, haround, hwithin, hle⟩
      · exact .inl ⟨n + 1, g, hwithin.out hx hcontainer, hg, by omega⟩
      · exact .inr ⟨n + 1, f, around, hf, hfc, hfloats, haround, hwithin.out hx hcontainer,
          by omega⟩
    · exact .inr ⟨0, t, x, hmem, hcontainer, htin, hin, .self hx, by omega⟩
  · exact .inl ⟨0, x, .self hx, hkind, by omega⟩

/-- What is directly in a box, and the padding below it. -/
theorem le_maxY_direct (h : Composed start rank key p) (he : e ∈ p.entries) {f : LayoutEntry}
    (hf : f ∈ p.entries) (hcontainer : f.container = some e.view) :
    f.bounds.maxY + 30 ≤ e.bounds.maxY := by
  have hkind := (Within.up hf hcontainer (.self he)).kind_eq h.running
  have hmem := mem_entriesIn.2 ⟨hf, hcontainer⟩
  obtain ⟨content, hcontent, -, hbottom⟩ := h.bounds_eq he hkind hmem
  have haround := Bounds.contains_iff.1
    (Bounds.mergeAll_contains hcontent (List.mem_map_of_mem hmem))
  omega

/-- A floating package inside a box, and the padding around it. -/
theorem le_maxY (h : Composed start rank key p) (hwithin : Within p.entries n e box)
    {f : LayoutEntry} (hf : f ∈ p.entries) (hcontainer : f.container = some e.view) :
    f.bounds.maxY + 30 * (n + 1) ≤ box.bounds.maxY := by
  induction hwithin generalizing f with
  | @self e he =>
      have hdirect := h.le_maxY_direct he hf hcontainer
      omega
  | @up n e box outer he hc hrest ih =>
      have hdirect := h.le_maxY_direct he hf hcontainer
      have hrest := ih he hc
      omega

/-- An anchored package has something placed inside it at the left edge of the grid. -/
theorem exists_flush (h : Composed start rank key p) (hx : x ∈ p.entries)
    (hkind : start.kind? x.element = some .package) (hin : Anchored start p.entries x.view) :
    ∃ n g, Within p.entries n g x ∧ g.bounds.minX = 100 := by
  obtain ⟨n, g, hwithin, hg, -⟩ := h.exists_le_minY hx hin
  obtain ⟨g', hg', hkey, hleft⟩ := h.spread.flush g (mem_grid hwithin.mem_left hg)
  cases n with
  | zero =>
      cases hwithin
      exact absurd hkind hg
  | succ n =>
      obtain ⟨inner, hinner, -⟩ := h.keyed.key_eq hwithin
      obtain ⟨m, hwithin'⟩ := h.keyed.within h.running (List.mem_filter.1 hg').1 hx
        (hkey.trans hinner)
      exact ⟨m + 1, g', hwithin', hleft⟩

/-! ### One beside the other -/

/-- An entry and a package beside it, whose blocks come after those of the entry. -/
structure Before (start : Workspace) (rank : ElementId → Nat) (x y : LayoutEntry) : Prop where
  container_eq : x.container = y.container
  kind_eq : start.kind? y.element = some .package
  rank_lt : start.kind? x.element = some .package → rank x.element < rank y.element

theorem before_total (h : Composed start rank key p) (hx : x ∈ p.entries) (hy : y ∈ p.entries)
    (hkind : start.kind? x.element = some .package) (hcontainer : x.container = y.container)
    (hne : x ≠ y) : Before start rank x y ∨ Before start rank y x := by
  by_cases hykind : start.kind? y.element = some .package
  · rcases Nat.lt_trichotomy (rank x.element) (rank y.element) with hlt | heq | hlt
    · exact .inl ⟨hcontainer, hykind, fun _ => hlt⟩
    · exact absurd (h.keyed.rank_inj x hx hkind y hy heq) hne
    · exact .inr ⟨hcontainer.symm, hkind, fun _ => hlt⟩
  · exact .inr ⟨hcontainer.symm, hkind, fun hy => absurd hy hykind⟩

/-- Entries beside each other are inside the same boxes. -/
theorem key_eq_of_container (h : Composed start rank key p) (hx : x ∈ p.entries)
    (hy : y ∈ p.entries) (hcontainer : x.container = y.container) :
    key x.element = key y.element := by
  cases hc : y.container with
  | none => rw [h.keyed.outermost y hy hc, h.keyed.outermost x hx (hcontainer.trans hc)]
  | some c =>
      obtain ⟨box, hbox, rfl, -⟩ := h.running.container_mem hy hc
      rw [h.keyed.inner y hy box hbox hc, h.keyed.inner x hx box hbox (hcontainer.trans hc)]

/-- Whatever is placed inside the one is in a block above whatever is placed inside the other. -/
theorem Before.gap (hxy : Before start rank x y) (h : Composed start rank key p) {m : Nat}
    {g g' : LayoutEntry} (hg : Within p.entries n g x)
    (hgkind : start.kind? g.element ≠ some .package) (hg' : Within p.entries m g' y)
    (hgkind' : start.kind? g'.element ≠ some .package) :
    g.bounds.maxY + 30 * n + 50 + 60 * m ≤ g'.bounds.minY := by
  have hsame := h.key_eq_of_container hg.mem_right hg'.mem_right hxy.container_eq
  obtain ⟨inner', hkey', -⟩ : ∃ inner, key g'.element
      = key y.element ++ rank y.element :: inner ∧ inner.length = m - 1 := by
    cases m with
    | zero =>
        cases hg'
        exact absurd hxy.kind_eq hgkind'
    | succ m => exact h.keyed.key_eq hg'
  have horder : Grid.keyLE (key g.element) (key g'.element) ∧
      key g.element ≠ key g'.element := by
    rw [hkey', ← hsame]
    cases n with
    | zero =>
        cases hg
        exact ⟨Grid.keyLE_append _ _, by simp⟩
    | succ n =>
        obtain ⟨inner, hkey, -⟩ := h.keyed.key_eq hg
        have hlt := hxy.rank_lt (hg.kind_eq h.running)
        rw [hkey, Grid.keyLE_append_left]
        simp only [Grid.keyLE, hlt, decide_true, Bool.true_or, ne_eq, List.append_cancel_left_eq,
          List.cons.injEq, true_and]
        omega
  have hgap := h.spread.gap g (mem_grid hg.mem_left hgkind) g' (mem_grid hg'.mem_left hgkind')
    horder.1 horder.2 (h.le_highest g' hg'.mem_left)
  have hlength := h.keyed.length_eq hg
  have hlength' := h.keyed.length_eq hg'
  omega

theorem Before.minY_lt (hxy : Before start rank x y) (h : Composed start rank key p)
    (hx : x ∈ p.entries) (hy : y ∈ p.entries) (hxin : Anchored start p.entries x.view)
    (hyin : Anchored start p.entries y.view) : x.bounds.minY < y.bounds.minY := by
  obtain ⟨n, g, hg, hgkind, -⟩ := h.exists_le_minY hx hxin
  obtain ⟨m, g', hg', hgkind', hlow⟩ := h.exists_le_minY hy hyin
  have hgap := hxy.gap h hg hgkind hg' hgkind'
  have haround := Bounds.contains_iff.1 (h.contains_of_within hg)
  have hheight := (h.solid g hg.mem_left).height
  omega

/-- Where no floating package is in the way, the one ends above the other. -/
theorem Before.maxY_le (hxy : Before start rank x y) (h : Composed start rank key p)
    (hclear : FloatsClear start p.entries) (hx : x ∈ p.entries) (hy : y ∈ p.entries)
    (hxin : Anchored start p.entries x.view) (hyin : Anchored start p.entries y.view) :
    x.bounds.maxY ≤ y.bounds.minY := by
  obtain ⟨m, g', hg', hgkind', hlow⟩ := h.exists_le_minY hy hyin
  rcases h.exists_maxY_le hx hxin with ⟨n, g, hg, hgkind, hle⟩ |
    ⟨n, f, around, hf, hfc, hfloats, haround, hwithin, hle⟩
  · have hgap := hxy.gap h hg hgkind hg' hgkind'
    omega
  · have := hclear n f around x y hf hfc hfloats haround hwithin hy hxy.container_eq.symm hyin
      (hxy.minY_lt h hx hy hxin hyin)
    omega

/-- A floating package is apart from everything beside it. -/
theorem not_overlaps_floating (h : Composed start rank key p) {f : LayoutEntry}
    (hf : f ∈ p.entries) (hx : x ∈ p.entries) (hfloats : ¬ Anchored start p.entries f.view)
    (hcontainer : f.container = x.container) (hne : f.view ≠ x.view) :
    ¬ x.bounds.overlaps f.bounds := by
  rw [Bounds.overlaps_iff]
  cases hc : x.container with
  | none =>
      have hftop : f ∈ p.entries.filter fun e => e.container = none :=
        List.mem_filter.2 ⟨hf, decide_eq_true (hcontainer.trans hc)⟩
      have hxtop : x ∈ p.entries.filter fun e => e.container = none :=
        List.mem_filter.2 ⟨hx, decide_eq_true hc⟩
      by_cases hin : Anchored start p.entries x.view
      · have := h.lowered.below f hftop hfloats x hxtop hin
        omega
      · have := h.lowered.apart f hftop hfloats x hxtop hin hne
        unfold Packages.Beside at this
        omega
  | some c =>
      obtain ⟨box, hbox, rfl, howner⟩ := h.running.container_mem hx hc
      have harranged := h.arranged box hbox (kind?_of_owningPackage? howner)
      have hfmem := mem_entriesIn.2 ⟨hf, hcontainer.trans hc⟩
      have hxmem := mem_entriesIn.2 ⟨hx, hc⟩
      by_cases hin : Anchored start p.entries x.view
      · have := harranged.beside f hfmem hfloats x hxmem hin
        omega
      · have := harranged.apart f hfmem hfloats x hxmem hin hne
        unfold Packages.Beside at this
        omega

/-- Where no floating package is in the way, packages are apart from everything beside them. -/
theorem not_overlaps_of_clear (h : Composed start rank key p)
    (hclear : FloatsClear start p.entries) (hx : x ∈ p.entries) (hy : y ∈ p.entries)
    (hkind : start.kind? x.element = some .package) (hcontainer : x.container = y.container)
    (hne : x ≠ y) : ¬ x.bounds.overlaps y.bounds := by
  have hviews : x.view ≠ y.view := fun heq => hne (h.running.eq_of_view_eq hx hy heq)
  by_cases hyin : Anchored start p.entries y.view
  · by_cases hxin : Anchored start p.entries x.view
    · -- Both are anchored: one is above the other.
      rw [Bounds.overlaps_iff]
      rcases h.before_total hx hy hkind hcontainer hne with hbefore | hbefore
      · have := hbefore.maxY_le h hclear hx hy hxin hyin
        omega
      · have := hbefore.maxY_le h hclear hy hx hyin hxin
        omega
    · rw [Bounds.overlaps_comm]
      exact h.not_overlaps_floating hx hy hxin hcontainer hviews
  · exact h.not_overlaps_floating hy hx hyin hcontainer.symm hviews.symm

/-! ### Strangers -/

/-- Where no floating package is in the way, no package covers a stranger. -/
theorem coversNoStranger_of_clear (h : Composed start rank key p)
    (hclear : FloatsClear start p.entries) : CoversNoStranger start p.entries := by
  intro box hbox hkind e he hstranger hoverlap
  have hout : ∀ {a b : LayoutEntry}, a ≠ b → ¬ Inside p.entries a b →
      ∀ n, ¬ Within p.entries n a b := by
    intro a b hne hnot n hwithin
    cases n with
    | zero => cases hwithin; exact hne rfl
    | succ n => exact hnot (Within.inside_iff.2 ⟨n, hwithin⟩)
  obtain ⟨m, n, x, y, hx, hy, hcontainer, hne⟩ := h.running.exists_siblings hbox he
    (hout (Ne.symm hstranger.ne) hstranger.not_around) (hout hstranger.ne hstranger.not_inside)
  have hxkind : start.kind? x.element = some .package := by
    cases m with
    | zero => cases hx; exact hkind
    | succ m => exact hx.kind_eq h.running
  exact h.not_overlaps_of_clear hclear hx.mem_right hy.mem_right hxkind hcontainer hne
    (Bounds.overlaps_of_contains (h.contains_of_within hx) (h.contains_of_within hy) hoverlap)

/-- Entries beside each other are strangers. -/
theorem stranger_of_container (h : Composed start rank key p) (hx : x ∈ p.entries)
    (hy : y ∈ p.entries) (hcontainer : x.container = y.container) (hne : x ≠ y) :
    Stranger p.entries x y := by
  have hout : ∀ a ∈ p.entries, ∀ b ∈ p.entries, a.container = b.container →
      ¬ Inside p.entries a b := by
    intro a ha b hb hc hinside
    obtain ⟨n, hwithin⟩ := Within.inside_iff.1 hinside
    have hlength := h.keyed.length_eq hwithin
    rw [h.key_eq_of_container ha hb hc] at hlength
    omega
  exact ⟨hne, hout x hx y hy hcontainer, hout y hy x hx hcontainer.symm⟩

/-- A floating package that reaches down to an anchored one makes its boxes cover that. -/
theorem clear_of_coversNoStranger (h : Composed start rank key p)
    (hapart : CoversNoStranger start p.entries) : FloatsClear start p.entries := by
  intro n f around upper lower hf hfc hfloats haround hwithin hlower hcontainer hin hbelow
  have hupper := hwithin.mem_right
  have hkind : start.kind? upper.element = some .package :=
    (Within.up hf hfc hwithin).kind_eq h.running
  have hupperin := hwithin.anchored haround
  have hne : upper ≠ lower := by
    intro heq
    subst heq
    exact Int.lt_irrefl _ hbelow
  have hlowerkind : start.kind? lower.element = some .package := by
    rcases h.before_total hupper hlower hkind hcontainer.symm hne with hbefore | hbefore
    · exact hbefore.kind_eq
    · have := hbefore.minY_lt h hlower hupper hin hupperin
      omega
  by_contra hreaches
  refine hapart upper hupper hkind lower hlower
    (h.stranger_of_container hlower hupper hcontainer hne.symm) ?_
  -- Both have something at the left edge of the grid, and the upper one reaches into the lower one.
  obtain ⟨_, g, hg, hgleft⟩ := h.exists_flush hupper hkind hupperin
  obtain ⟨_, g', hg', hgleft'⟩ := h.exists_flush hlower hlowerkind hin
  have hgsolid := (h.solid g hg.mem_left).width
  have hgsolid' := (h.solid g' hg'.mem_left).width
  have hgaround := Bounds.contains_iff.1 (h.contains_of_within hg)
  have hgaround' := Bounds.contains_iff.1 (h.contains_of_within hg')
  have hreach := h.le_maxY hwithin hf hfc
  have hheight := (h.solid upper hupper).height
  have hheight' := (h.solid lower hlower).height
  rw [Bounds.overlaps_iff]
  omega

/-- **When a package covers a stranger.** -/
theorem coversNoStranger_iff (h : Composed start rank key p) :
    CoversNoStranger start p.entries ↔ FloatsClear start p.entries :=
  ⟨h.clear_of_coversNoStranger, h.coversNoStranger_of_clear⟩

end Composed

end UmlText
