import UmlText.Proofs.Layout.Fitting
import UmlText.Proofs.Layout.Grafting
import UmlText.Proofs.Layout.Opening

/-!
# UmlText.Proofs.Layout.Boxing

**Package boxes in any workspace.** Packages are opened in the order of their depths. The parent that
a text is read into may itself be deep inside packages, so in the graft all depths are greater; but
they are greater by the same number, and the order is the same. From then on fitting asks only about
views of the run.
-/

namespace UmlText

open Workspace (Ground root)

namespace Packages

variable {base : Workspace} {ρ : Renumbering} {p : Placement Workspace}

/-- In the graft every element is deeper by the same number of packages: those around the parent,
and the parent itself if it is one. -/
theorem depth_graft (hbase : base.Ground ρ) {w : Workspace} (hw : w.Sprout) (hnested : w.Nested) :
    ∃ offset, ∀ element, element ≠ root → (w.element? element).isSome →
      depth (base.graft ρ w) (ρ.element element) = depth w element + offset := by
  have hnumbered := Workspace.numbered_graft hbase hw
  refine ⟨if base.kind? (ρ.element root) = some .package then
    depth (base.graft ρ w) (ρ.element root) + 1 else 0, fun element => ?_⟩
  -- The induction is on the number of the element, as its owner has a smaller one.
  induction hn : element.index using Nat.strongRecOn generalizing element with
  | ind n ih =>
      intro helement hknown
      obtain ⟨parent, hparent, hholds⟩ := hnested element helement hknown
      rcases hholds with rfl | hpackage
      · -- The element is declared in the project, which the parent stands in for.
        have howner : ModelStore.owningPackage? w element = none := by
          rw [Workspace.owningPackage?_eq, hparent, Option.filter, if_neg]
          simpa using fun hkind => hw.ne_root (by rw [hkind]; rfl) rfl
        have hdepth : depth w element = 0 := by rw [depth, howner]
        have hgraft := Workspace.owningPackage?_graft_none hbase helement howner
        rw [hdepth, Nat.zero_add]
        split
        · next hkind =>
            rw [if_pos ⟨hparent, hkind⟩] at hgraft
            exact depth_of_owner hnumbered hgraft
        · next hkind =>
            rw [if_neg fun h => hkind h.2] at hgraft
            rw [depth, hgraft]
      · have howner : ModelStore.owningPackage? w element = some parent := by
          rw [Workspace.owningPackage?_eq, hparent, Option.filter, if_pos (by simp [hpackage])]
        have hisSome : (w.kind? parent).isSome := by rw [hpackage]; rfl
        have hrec := ih parent.index (hn ▸ hw.numbered.owner_lt howner) parent rfl
          (hw.ne_root hisSome) (Workspace.isSome_element?_iff.2 (Workspace.lt_of_kind? hisSome))
        rw [depth_of_owner hnumbered
            (Workspace.owningPackage?_graft_some hbase hw helement howner),
          depth_of_owner hw.numbered howner, hrec, Nat.add_right_comm]

/-- A package and its depth in the graft. -/
def deeper (ρ : Renumbering) (offset : Nat) (package : ElementId × Nat) : ElementId × Nat :=
  (ρ.element package.1, package.2 + offset)

theorem openView_graft (hbase : base.Ground ρ) (offset : Nat)
    {state : Placement Workspace × List (ElementId × Nat)} (h : state.1.Sprouts base ρ)
    {package : ElementId × Nat} (hpackage : package.1 ≠ root) :
    (openView state package).1.Sprouts base ρ ∧
      openView (state.1.graft base ρ, state.2.map (deeper ρ offset)) (deeper ρ offset package)
        = ((openView state package).1.graft base ρ,
            (openView state package).2.map (deeper ρ offset)) := by
  obtain ⟨p, opened⟩ := state
  obtain ⟨hplaced, hgraft⟩ := Placement.place_graft hbase h hpackage ⟨0, 0⟩ none
  rw [openView_eq, openView_eq]
  refine ⟨hplaced, ?_⟩
  simp only [deeper, hgraft, Option.isSome_map]
  split <;> simp [deeper]

/-- The packages that a text declared, outer ones first, are the same in the graft, because all of
them are deeper by the same number. -/
theorem outerFirst_graft (hbase : base.Ground ρ) (h : p.Sprouts base ρ) (hnested : p.store.Nested)
    {roots : List ElementId} (hroots : ∀ e ∈ roots, (p.kind? e).isSome) :
    ∃ offset, outerFirst (p.graft base ρ) (roots.map ρ.element)
      = (outerFirst p roots).map (deeper ρ offset) := by
  obtain ⟨offset, hdepth⟩ := depth_graft hbase h.sprout hnested
  refine ⟨offset, ?_⟩
  have hpackages : (((roots.map ρ.element).filter fun e =>
        (p.graft base ρ).kind? e = some .package).map fun e => (e, depth (p.graft base ρ).store e))
      = ((roots.filter fun e => p.kind? e = some .package).map fun e =>
          (e, depth p.store e)).map (deeper ρ offset) := by
    have hfilter : (roots.map ρ.element).filter (fun e => (p.graft base ρ).kind? e = some .package)
        = (roots.filter fun e => p.kind? e = some .package).map ρ.element :=
      filter_map_of fun e he => by
        rw [Placement.kind?_graft hbase (h.sprout.ne_root (hroots e he))]
    rw [hfilter, List.map_map, List.map_map]
    refine List.map_congr_left fun e he => ?_
    have hkind := hroots e (List.mem_filter.1 he).1
    exact congrArg (Prod.mk (ρ.element e)) (hdepth e (h.sprout.ne_root hkind)
      (Workspace.isSome_element?_iff.2 (Workspace.lt_of_kind? hkind)))
  rw [outerFirst, hpackages, outerFirst]
  exact (List.map_mergeSort fun a _ b _ => by simp [deeper]).symm

/-- **Opening the views of packages** in the graft. -/
theorem openViews_graft (hbase : base.Ground ρ) (h : p.Sprouts base ρ) (hnested : p.store.Nested)
    {roots : List ElementId} (hroots : ∀ e ∈ roots, (p.kind? e).isSome) :
    (openViews p roots).1.Sprouts base ρ ∧
      openViews (p.graft base ρ) (roots.map ρ.element)
        = ((openViews p roots).1.graft base ρ, (openViews p roots).2.map ρ.element) := by
  obtain ⟨offset, houter⟩ := outerFirst_graft hbase h hnested hroots
  have hne : ∀ x ∈ outerFirst p roots, x.1 ≠ root := fun x hx => by
    have hmem := (perm_outerFirst p roots).mem_iff.1 (List.mem_map_of_mem hx)
    exact h.sprout.ne_root (hroots x.1 (List.mem_filter.1 hmem).1)
  obtain ⟨hopened, hgraft⟩ := foldl_map_of_invariant (f := openView) (g := openView)
    (m := fun state => (state.1.graft base ρ, state.2.map (deeper ρ offset)))
    (p := fun state => state.1.Sprouts base ρ) (q := fun x => x.1 ≠ root)
    (fun _ _ hstate hx => openView_graft hbase offset hstate hx) hne (b := (p, [])) h
  refine ⟨hopened, ?_⟩
  have hopen : ∀ (q : Placement Workspace) (es : List ElementId), openViews q es
      = (((outerFirst q es).foldl openView (q, [])).1,
          (((outerFirst q es).foldl openView (q, [])).2.mergeSort
            fun a b => b.2 ≤ a.2).map Prod.fst) := fun _ _ => rfl
  have hloop : (outerFirst (p.graft base ρ) (roots.map ρ.element)).foldl openView
      (p.graft base ρ, []) = _ := houter ▸ hgraft
  -- The views are opened outer ones first and listed inner ones first; both orders are of depths.
  rw [hopen, hopen, hloop]
  refine congrArg (Prod.mk _) ?_
  rw [← List.map_mergeSort (r := fun a b => decide (b.2 ≤ a.2)) fun a _ b _ => by simp [deeper],
    List.map_map, List.map_map]
  rfl

/-! ### Fitting -/

theorem layOutNext_graft (hbase : base.Ground ρ) (top spacing : Int)
    {state : Placement Workspace × Int} (h : state.1.Sprouts base ρ) (view : ViewId) :
    (layOutNext top spacing state view).1.Sprouts base ρ ∧
      layOutNext top spacing (state.1.graft base ρ, state.2) (ρ.view view)
        = ((layOutNext top spacing state view).1.graft base ρ,
            (layOutNext top spacing state view).2) := by
  simp only [layOutNext, Placement.boundsOf?_graft hbase]
  cases state.1.boundsOf? view with
  | none => exact ⟨h, rfl⟩
  | some bounds =>
      obtain ⟨hmoved, hgraft⟩ :=
        Placement.translate_graft hbase h view (state.2 - bounds.minX) (top - bounds.minY)
      exact ⟨hmoved, by simp only [hgraft]⟩

/-- A row of views. -/
theorem layOutRow_graft (hbase : base.Ground ρ) (h : p.Sprouts base ρ) (views : List ViewId)
    (start : Point) (spacing : Int) :
    (layOutRow p views start spacing).2.Sprouts base ρ ∧
      layOutRow (p.graft base ρ) (views.map ρ.view) start spacing
        = ((layOutRow p views start spacing).1,
            (layOutRow p views start spacing).2.graft base ρ) := by
  obtain ⟨hrow, hgraft⟩ := Placement.foldl_graft (q := fun _ => True)
    (fun _ view hstate _ => layOutNext_graft hbase start.y spacing hstate view)
    (l := views) (fun _ _ => trivial) h start.x
  refine ⟨hrow, ?_⟩
  simp only [layOutRow] at hgraft ⊢
  rw [hgraft]
  simp only [Placement.mergedBounds?_graft hbase]

/-- The packages being fitted in the graft. -/
def Fitting.graft (base : Workspace) (ρ : Renumbering) (f : Fitting Workspace) :
    Fitting Workspace where
  placement := f.placement.graft base ρ
  anchored := f.anchored.map ρ.view

section Fitting

variable {f : Fitting Workspace}

theorem fixedIn_graft (hbase : base.Ground ρ) (packageViews : List ViewId) (view : ViewId) :
    fixedIn (packageViews.map ρ.view) (f.graft base ρ) (ρ.view view)
      = (fixedIn packageViews f view).map ρ.view := by
  have hchildren : (f.graft base ρ).placement.children (ρ.view view) = _ :=
    Placement.children_graft hbase view
  rw [fixedIn, hchildren, fixedIn]
  refine filter_map_of fun child _ => ?_
  simp only [Fitting.graft, List.mem_map_of_injective ρ.view_injective]

theorem floatingIn_graft (hbase : base.Ground ρ) (packageViews : List ViewId) (view : ViewId) :
    floatingIn (packageViews.map ρ.view) (f.graft base ρ) (ρ.view view)
      = (floatingIn packageViews f view).map ρ.view := by
  have hchildren : (f.graft base ρ).placement.children (ρ.view view) = _ :=
    Placement.children_graft hbase view
  rw [floatingIn, hchildren, floatingIn]
  refine filter_map_of fun child _ => ?_
  simp only [Fitting.graft, List.mem_map_of_injective ρ.view_injective]

/-- One package. -/
theorem fitPackage_graft (hbase : base.Ground ρ) (s : PackageSettings) (packageViews : List ViewId)
    (h : f.placement.Sprouts base ρ) (package : ElementId) :
    (fitPackage s packageViews f package).placement.Sprouts base ρ ∧
      fitPackage s (packageViews.map ρ.view) (f.graft base ρ) (ρ.element package)
        = (fitPackage s packageViews f package).graft base ρ := by
  have hgraft : (f.graft base ρ).placement.viewOf? (ρ.element package) = _ :=
    Placement.viewOf?_graft package
  cases hview : f.placement.viewOf? package with
  | none =>
      rw [hview] at hgraft
      simp only [fitPackage, hview, hgraft, Option.map_none]
      exact ⟨h, trivial⟩
  | some view =>
      rw [hview] at hgraft
      have hcontent : (f.graft base ρ).placement.mergedBounds?
          (fixedIn (packageViews.map ρ.view) (f.graft base ρ) (ρ.view view))
          = f.placement.mergedBounds? (fixedIn packageViews f view) := by
        rw [fixedIn_graft hbase]
        exact Placement.mergedBounds?_graft hbase _
      obtain ⟨hrow, hmoved⟩ := layOutRow_graft hbase h (floatingIn packageViews f view)
        (rowOrigin s (f.placement.mergedBounds? (fixedIn packageViews f view))) s.spacing
      have hwithRow : withRow s (packageViews.map ρ.view) (f.graft base ρ) (ρ.view view)
          = (withRow s packageViews f view).graft base ρ := by
        rw [withRow, hcontent, floatingIn_graft hbase]
        exact congrArg Prod.snd hmoved
      have hreshaped : ∀ b : Bounds, ((withRow s packageViews f view).graft base ρ).updateView
          (ρ.view view) (·.reshape fun _ => b) = _ := fun b =>
        Placement.updateView_graft (f := (·.reshape fun _ => b)) hbase view fun _ => rfl
      rw [fitPackage_eq _ _ _ hview, fitPackage_eq _ _ _ hgraft, hcontent, hwithRow,
        floatingIn_graft hbase, Placement.mergedBounds?_graft hbase, hreshaped]
      refine ⟨hrow.updateView view fun _ => rfl, ?_⟩
      simp only [Fitting.graft, List.map_append]
      split <;> rfl

theorem isTopLevel_graft (hbase : base.Ground ρ) (view : ViewId) :
    isTopLevel (p.graft base ρ) (ρ.view view) = isTopLevel p view := by
  rw [isTopLevel, Placement.view?_graft hbase, Option.any_map, isTopLevel]
  congr 1
  funext v
  simp [View.renumber]

theorem topFloating_graft (hbase : base.Ground ρ) (packageViews : List ViewId) :
    topFloating (packageViews.map ρ.view) (f.graft base ρ)
      = (topFloating packageViews f).map ρ.view := by
  rw [topFloating, topFloating]
  refine filter_map_of fun view _ => ?_
  simp only [Fitting.graft, isTopLevel_graft hbase, List.mem_map_of_injective ρ.view_injective]

theorem topFixed_graft (hbase : base.Ground ρ) (packageViews : List ViewId) :
    topFixed (packageViews.map ρ.view) (f.graft base ρ)
      = (topFixed packageViews f).map ρ.view := by
  have hvalues : (f.graft base ρ).placement.views.values = _ := Placement.values_graft
  rw [topFixed, topFloating_graft hbase, hvalues, topFixed]
  refine filter_map_of fun view _ => ?_
  simp only [Fitting.graft, isTopLevel_graft hbase, List.mem_map_of_injective ρ.view_injective]

theorem moveFloating_graft (hbase : base.Ground ρ) (s : PackageSettings) (origin : Point)
    (packageViews : List ViewId) (h : f.placement.Sprouts base ρ) :
    (moveFloating s origin packageViews f).Sprouts base ρ ∧
      moveFloating s origin (packageViews.map ρ.view) (f.graft base ρ)
        = (moveFloating s origin packageViews f).graft base ρ := by
  have horigin : topOrigin s origin (packageViews.map ρ.view) (f.graft base ρ)
      = topOrigin s origin packageViews f := by
    rw [topOrigin, topFixed_graft hbase, topOrigin]
    rw [show (f.graft base ρ).placement.mergedBounds? _ = _ from
      Placement.mergedBounds?_graft hbase _]
  obtain ⟨hrow, hgraft⟩ := layOutRow_graft hbase h (topFloating packageViews f)
    (topOrigin s origin packageViews f) s.spacing
  rw [moveFloating_eq, moveFloating_eq, horigin, topFloating_graft hbase]
  exact ⟨hrow, congrArg Prod.snd hgraft⟩

end Fitting

/-- **Fitting all packages** in the graft. -/
theorem fit_graft (hbase : base.Ground ρ) (h : p.Sprouts base ρ) (packages : List ElementId)
    (origin : Point) (s : PackageSettings) :
    (fit p packages origin s).Sprouts base ρ ∧
      fit (p.graft base ρ) (packages.map ρ.element) origin s
        = (fit p packages origin s).graft base ρ := by
  have hviews : (packages.map ρ.element).filterMap (p.graft base ρ).viewOf?
      = (packages.filterMap p.viewOf?).map ρ.view := by
    rw [List.filterMap_map, List.map_filterMap]
    exact congrArg (List.filterMap · packages) (funext Placement.viewOf?_graft)
  obtain ⟨hfitted, hgraft⟩ := foldl_map_of_invariant
    (f := fitPackage s (packages.filterMap p.viewOf?))
    (g := fitPackage s ((packages.filterMap p.viewOf?).map ρ.view))
    (m := Fitting.graft base ρ) (p := fun f => f.placement.Sprouts base ρ) (q := fun _ => True)
    (fun _ package hf _ => fitPackage_graft hbase s _ hf package)
    (l := packages) (fun _ _ => trivial) (b := { placement := p }) h
  obtain ⟨hmoved, hgraft'⟩ := moveFloating_graft hbase s origin _ hfitted
  refine ⟨hmoved, ?_⟩
  rw [fit, hviews, fit, ← hgraft', ← hgraft]
  rfl

end Packages

end UmlText
