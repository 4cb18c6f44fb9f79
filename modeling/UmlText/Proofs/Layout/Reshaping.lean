import UmlText.Proofs.Layout.Fitting

/-!
# UmlText.Proofs.Layout.Reshaping

**Fitting touches views of the run only.** Once everything is placed, all that a layout does is to
give views of its own other bounds, one after another: `Reshapes p q` says that just that leads from
`p` to `q`. So what survives one such change survives the fitting of all packages
(`reshapes_fit`).
-/

namespace UmlText

universe u

variable {σ : Type u} [ViewStore σ]

namespace Placement

/-- Giving views of the run other bounds, one after another. -/
inductive Reshapes : Placement σ → Placement σ → Prop
  | done (p : Placement σ) : Reshapes p p
  | next {p q : Placement σ} {view : ViewId} (hview : view ∈ p.views.values) (r : Bounds → Bounds)
      (h : Reshapes (p.updateView view (·.reshape r)) q) : Reshapes p q

namespace Reshapes

variable {p q : Placement σ}

theorem trans {q' : Placement σ} (h : Reshapes p q) (h' : Reshapes q q') : Reshapes p q' := by
  induction h with
  | done p => exact h'
  | next hview r _ ih => exact .next hview r (ih h')

theorem views_eq (h : Reshapes p q) : q.views = p.views := by
  induction h with
  | done p => rfl
  | next hview r _ ih => exact ih

theorem one {view : ViewId} (hview : view ∈ p.views.values) (r : Bounds → Bounds) :
    Reshapes p (p.updateView view (·.reshape r)) :=
  .next hview r (.done _)

theorem foldl {views : List ViewId} (hviews : views ⊆ p.views.values) (r : Bounds → Bounds) :
    Reshapes p (views.foldl (fun p v => p.updateView v (·.reshape r)) p) := by
  induction views generalizing p with
  | nil => exact .done p
  | cons v rest ih =>
      obtain ⟨hv, hrest⟩ := List.cons_subset.1 hviews
      exact .next hv r (ih hrest)

/-- Moving a view of the run moves what the run put inside it. -/
theorem translate {view : ViewId} (hview : view ∈ p.views.values) (dx dy : Int) :
    Reshapes p (p.translate view dx dy) := by
  by_cases hzero : dx = 0 ∧ dy = 0
  · rw [Placement.translate, if_pos hzero]
    exact .done p
  · rw [Running.translate_eq_foldl p view hzero]
    exact foldl (List.cons_subset.2 ⟨hview, (Running.sublist_insideOf _ _ _).subset⟩) _

end Reshapes

end Placement

namespace Packages

open Placement (Reshapes)

variable {p : Placement σ}

theorem reshapes_layOutRow {views : List ViewId} (hviews : views ⊆ p.views.values) (start : Point)
    (spacing : Int) : Reshapes p (layOutRow p views start spacing).2 := by
  refine layOutRow_induct (fun q v hv dx dy hq => hq.trans (.translate ?_ dx dy)) (.done p) start
    spacing
  rw [hq.views_eq]
  exact hviews hv

omit [ViewStore σ] in
theorem mem_values_of_viewOf? {package : ElementId} {view : ViewId}
    (h : p.viewOf? package = some view) : view ∈ p.views.values :=
  List.mem_map.2 ⟨_, OrderedMap.mem_of_get? h, rfl⟩

theorem reshapes_fitPackage (s : PackageSettings) (packageViews : List ViewId) (f : Fitting σ)
    (package : ElementId) :
    Reshapes f.placement (fitPackage s packageViews f package).placement := by
  cases hview : f.placement.viewOf? package with
  | none =>
      simp only [fitPackage, hview]
      exact .done _
  | some view =>
      have hchildren : floatingIn packageViews f view ⊆ f.placement.views.values := fun v hv =>
        List.mem_of_mem_filter (List.mem_of_mem_filter hv)
      have hrow : Reshapes f.placement (withRow s packageViews f view) :=
        reshapes_layOutRow hchildren _ _
      rw [fitPackage_eq s packageViews f hview]
      refine hrow.trans (.one ?_ _)
      rw [hrow.views_eq]
      exact mem_values_of_viewOf? hview

/-- **Fitting packages gives views of the run other bounds**, and does nothing else. -/
theorem reshapes_fit (p : Placement σ) (packages : List ElementId) (origin : Point)
    (s : PackageSettings) : Reshapes p (fit p packages origin s) := by
  have hfold : ∀ (rest : List ElementId) (f : Fitting σ), Reshapes p f.placement →
      Reshapes p (rest.foldl (fitPackage s (packages.filterMap p.viewOf?)) f).placement := by
    intro rest
    induction rest with
    | nil => exact fun f hf => hf
    | cons package rest ih => exact fun f hf => ih _ (hf.trans (reshapes_fitPackage s _ f package))
  have hfitted := hfold packages { placement := p } (.done p)
  rw [fit, moveFloating_eq]
  refine hfitted.trans (reshapes_layOutRow (fun v hv => ?_) _ _)
  obtain ⟨package, -, hview⟩ := List.mem_filterMap.1 (List.mem_of_mem_filter hv)
  rw [hfitted.views_eq]
  exact mem_values_of_viewOf? hview

end Packages

end UmlText
