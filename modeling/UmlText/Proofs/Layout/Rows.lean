import Mathlib.Algebra.Ring.Int.Defs
import UmlText.Proofs.Layout.Fitting

/-!
# UmlText.Proofs.Layout.Rows

**Views in a row.** Views that are side by side in the same container, or in none, are laid out from
left to right: all of them at the top of the row, each clear of the others, and no further apart than
they have to be (`row_layOutRow`).
-/

namespace UmlText

universe u

variable {σ : Type u} [ModelStore σ] [ViewStore σ] [BackedStore σ]

namespace Packages

open Placement (Running Redrawn boundsOf?_eq)
open Placement.Running (Carries)

/-- Two rectangles are side by side, with some space between them. -/
def Beside (spacing : Int) (a b : Bounds) : Prop :=
  a.maxX + spacing ≤ b.minX ∨ b.maxX + spacing ≤ a.minX

/-- Views that are in a row, which goes on at `x`. -/
structure Row (corner : Point) (spacing : Int) (views : List ViewId) (entries : List LayoutEntry)
    (x : Int) : Prop where
  le : corner.x ≤ x
  placed : ∀ e ∈ entries, e.view ∈ views →
    corner.x ≤ e.bounds.minX ∧ e.bounds.maxX + spacing ≤ x ∧ e.bounds.minY = corner.y
  beside : ∀ e ∈ entries, e.view ∈ views → ∀ e' ∈ entries, e'.view ∈ views → e.view ≠ e'.view →
    Beside spacing e.bounds e'.bounds

variable {start : Workspace} {p : Placement σ}

/-- Views that are side by side in the same container, or in none, and not turned inside out. -/
structure Siblings (start : Workspace) (views : List ViewId) (container : Option ViewId)
    (p : Placement σ) : Prop where
  running : Running start p
  exists_entry : ∀ v ∈ views, ∃ e ∈ p.entries, e.view = v
  width_nonneg : ∀ e ∈ p.entries, e.view ∈ views → 0 ≤ e.bounds.width
  container_eq : ∀ e ∈ p.entries, e.view ∈ views → e.container = container

variable {views done : List ViewId} {container : Option ViewId}

/-! ### One view -/

/-- Siblings are side by side wherever a view is moved. -/
theorem Siblings.translate (h : Siblings start views container p) (v : ViewId) (dx dy : Int) :
    Siblings start views container (p.translate v dx dy) := by
  have hredrawn := h.running.redrawn_translate v dx dy
  refine ⟨hredrawn.running, ?_, ?_, ?_⟩
  · intro u hu
    obtain ⟨e, he, rfl⟩ := h.exists_entry u hu
    obtain ⟨r, hr⟩ := hredrawn.exists_reshape he
    exact ⟨_, hr, rfl⟩
  · intro e he hmem
    obtain ⟨u, hu, rfl | rfl⟩ := h.running.mem_translate he
    · exact h.width_nonneg _ hu hmem
    · rw [LayoutEntry.bounds_reshape, Bounds.width_shift]
      exact h.width_nonneg u hu hmem
  · intro e he hmem
    obtain ⟨u, hu, -, hview, hc⟩ := hredrawn.mem_of_mem he
    rw [← hc]
    exact h.container_eq u hu (hview ▸ hmem)

theorem Siblings.layOutNext (h : Siblings start views container p) (y spacing x : Int)
    (v : ViewId) : Siblings start views container (Packages.layOutNext y spacing (p, x) v).1 := by
  simp only [Packages.layOutNext]
  split
  · exact h
  · exact h.translate v _ _

/-- When a view is moved, those beside it stay where they are. -/
theorem Siblings.mem_translate (h : Siblings start views container p) (hdone : done ⊆ views)
    {e : LayoutEntry} (he : e ∈ p.entries) (hv : e.view ∈ views) (hnew : e.view ∉ done)
    {dx dy : Int} {e' : LayoutEntry} (he' : e' ∈ (p.translate e.view dx dy).entries)
    (hview : e'.view ∈ done ++ [e.view]) :
    (e' ∈ p.entries ∧ e'.view ∈ done) ∨
      (e'.view = e.view ∧ e'.bounds = e.bounds.shift dx dy) := by
  rw [h.running.entries_translate] at he'
  obtain ⟨u, hu, rfl⟩ := List.mem_map.1 he'
  have hsame : (if Carries p e.view u.view then u.reshape (·.shift dx dy) else u).view
      = u.view := by split <;> rfl
  rw [hsame] at hview ⊢
  rcases List.mem_append.1 hview with hview | hview
  · have hne : u.view ≠ e.view := fun heq => hnew (heq ▸ hview)
    have hc : e.container = u.container :=
      (h.container_eq e he hv).trans (h.container_eq u hu (hdone hview)).symm
    rw [if_neg (h.running.not_carries_sibling he hu hc hne)]
    exact .inl ⟨hu, hview⟩
  · obtain rfl := h.running.eq_of_view_eq hu he (List.mem_singleton.1 hview)
    rw [if_pos (.inl rfl), LayoutEntry.bounds_reshape]
    exact .inr ⟨rfl, rfl⟩

/-- A view moved to the end of a row is in the row. -/
theorem Row.layOutNext {corner : Point} {spacing x : Int} (h : Row corner spacing done p.entries x)
    (hspacing : 0 ≤ spacing) (hs : Siblings start views container p) (hdone : done ⊆ views)
    {v : ViewId} (hv : v ∈ views) (hnew : v ∉ done) :
    Row corner spacing (done ++ [v]) (Packages.layOutNext corner.y spacing (p, x) v).1.entries
      (Packages.layOutNext corner.y spacing (p, x) v).2 := by
  obtain ⟨e, he, rfl⟩ := hs.exists_entry v hv
  have hwidth := hs.width_nonneg e he hv
  have hle := h.le
  simp only [Packages.layOutNext, boundsOf?_eq he, Bounds.width] at hwidth ⊢
  refine ⟨by omega, ?_, ?_⟩
  · intro e' he' hview
    rcases hs.mem_translate hdone he hv hnew he' hview with ⟨hmem, hview⟩ | ⟨-, hbounds⟩
    · obtain ⟨hleft, hright, htop⟩ := h.placed e' hmem hview
      exact ⟨hleft, by omega, htop⟩
    · rw [hbounds]
      simp only [Bounds.shift]
      omega
  · intro a ha haview b hb hbview hne
    unfold Beside
    rcases hs.mem_translate hdone he hv hnew ha haview with ⟨hamem, haview⟩ | ⟨haself, habounds⟩ <;>
      rcases hs.mem_translate hdone he hv hnew hb hbview with ⟨hbmem, hbview⟩ | ⟨hbself, hbbounds⟩
    · exact h.beside a hamem haview b hbmem hbview hne
    · -- The view at the end of the row begins where the row ended.
      have := h.placed a hamem haview
      rw [hbbounds]
      simp only [Bounds.shift]
      omega
    · have := h.placed b hbmem hbview
      rw [habounds]
      simp only [Bounds.shift]
      omega
    · exact absurd (haself.trans hbself.symm) hne

/-! ### All of them -/

/-- What views take in a row, with the space behind each of them. -/
def rowLength (p : Placement σ) (spacing : Int) (views : List ViewId) : Int :=
  (views.map fun v => (p.boundsOf? v).elim 0 fun b => b.width + spacing).sum

/-- Moving a view changes no width. -/
theorem Siblings.rowLength_translate (h : Siblings start views container p) {todo : List ViewId}
    (htodo : todo ⊆ views) (spacing : Int) (v : ViewId) (dx dy : Int) :
    rowLength (p.translate v dx dy) spacing todo = rowLength p spacing todo := by
  unfold rowLength
  congr 1
  refine List.map_congr_left fun u hu => ?_
  obtain ⟨e, he, rfl⟩ := h.exists_entry u (htodo hu)
  obtain ⟨e', he', hview, hwidth⟩ : ∃ e' ∈ (p.translate v dx dy).entries, e'.view = e.view ∧
      e'.bounds.width = e.bounds.width := by
    rw [h.running.entries_translate]
    refine ⟨_, List.mem_map_of_mem he, ?_, ?_⟩ <;> split <;> simp [Bounds.width_shift]
  rw [boundsOf?_eq he, ← hview, boundsOf?_eq he', Option.elim_some, Option.elim_some, hwidth]

/-- Views that are moved to the end of a row one after the other are in the row. -/
theorem Row.foldl_layOutNext {corner : Point} {spacing : Int} {todo : List ViewId}
    {state : Placement σ × Int} (h : Row corner spacing done state.1.entries state.2)
    (hspacing : 0 ≤ spacing) (hs : Siblings start (done ++ todo) container state.1)
    (hnodup : (done ++ todo).Nodup) :
    Row corner spacing (done ++ todo)
      (todo.foldl (Packages.layOutNext corner.y spacing) state).1.entries
      (state.2 + rowLength state.1 spacing todo) := by
  induction todo generalizing done state with
  | nil =>
      rw [List.append_nil, rowLength, List.map_nil, List.sum_nil, Int.add_zero]
      exact h
  | cons v rest ih =>
      have hnew : v ∉ done := fun hmem =>
        (List.nodup_append.1 hnodup).2.2 v hmem v List.mem_cons_self rfl
      have hv : v ∈ done ++ v :: rest := by simp
      have hstep := h.layOutNext hspacing hs (List.subset_append_left done _) hv hnew
      have hnext := hs.layOutNext corner.y spacing state.2 v
      -- The row is as long as it was going to be before the view was moved.
      have hlength : (Packages.layOutNext corner.y spacing state v).2
            + rowLength (Packages.layOutNext corner.y spacing state v).1 spacing rest
          = state.2 + rowLength state.1 spacing (v :: rest) := by
        obtain ⟨e, he, rfl⟩ := hs.exists_entry v hv
        have hrest : rest ⊆ done ++ e.view :: rest := fun u hu => by simp [hu]
        have hsame := hs.rowLength_translate hrest spacing e.view (state.2 - e.bounds.minX)
          (corner.y - e.bounds.minY)
        simp only [Packages.layOutNext, boundsOf?_eq he, hsame]
        simp only [rowLength, List.map_cons, List.sum_cons, boundsOf?_eq he, Option.elim_some]
        omega
      rw [List.append_cons] at hnext hnodup ⊢
      rw [← hlength]
      exact ih hstep hnext hnodup

/-- Laying views out in a row leaves their widths. -/
theorem Siblings.rowLength_layOutRow (h : Siblings start views container p) (corner : Point)
    (spacing : Int) : rowLength (layOutRow p views corner spacing).2 spacing views
      = rowLength p spacing views := by
  have hrow : Siblings start views container (layOutRow p views corner spacing).2 ∧
      rowLength (layOutRow p views corner spacing).2 spacing views
        = rowLength p spacing views :=
    layOutRow_induct (motive := fun q => Siblings start views container q ∧
        rowLength q spacing views = rowLength p spacing views)
      (fun _ v _ dx dy hq => ⟨hq.1.translate v dx dy,
        (hq.1.rowLength_translate (List.Subset.refl _) spacing v dx dy).trans hq.2⟩)
      ⟨h, rfl⟩ corner spacing
  exact hrow.2

/-- **A row**: views that are side by side in one container are all at the top of the row they are
laid out in, each clear of the others, and the row is as long as they are together. -/
theorem row_layOutRow (h : Siblings start views container p) (hnodup : views.Nodup)
    (corner : Point) {spacing : Int} (hspacing : 0 ≤ spacing) :
    Row corner spacing views (layOutRow p views corner spacing).2.entries
      (corner.x + rowLength (layOutRow p views corner spacing).2 spacing views) := by
  let state : Placement σ × Int := (p, corner.x)
  have hempty : Row corner spacing [] state.1.entries state.2 :=
    ⟨Int.le_of_eq rfl, by simp, by simp⟩
  rw [h.rowLength_layOutRow]
  exact hempty.foldl_layOutNext hspacing h hnodup

end Packages

end UmlText
