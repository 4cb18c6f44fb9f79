import Mathlib.Data.List.Basic
import UmlText.Layout.Packages
import UmlText.Proofs.Layout.Placing
import UmlText.Proofs.Layout.Sorting

/-!
# UmlText.Proofs.Layout.Opening

**Opening the packages.** All packages are tried, outer ones first, so a package that gets a view
has the view of its owner around it, if that got one. `Opened` says what stands at the end of this:
a run that has placed packages only, and those packages again, deepest first.
-/

namespace UmlText

universe u

open BackedStore (workspace)
open ModelStore (owningPackage?)
open Placement (Awaiting Running Tries)

variable {σ : Type u} [ModelStore σ] [ViewStore σ] [BackedStore σ]

/-! ### Who owns whom -/

theorem kind?_of_owningPackage? {w : Workspace} {element package : ElementId}
    (h : owningPackage? w element = some package) : w.kind? package = some .package := by
  simp only [owningPackage?, Option.bind_eq_bind, Option.bind_eq_some_iff] at h
  obtain ⟨e, -, parent, -, hpackage⟩ := h
  split at hpackage
  · next hkind =>
      obtain rfl := Option.some.inj hpackage
      simpa using hkind
  · cases hpackage

/-- What is placed earlier is not inside what is placed later. -/
theorem Placement.Running.owners_keys {start : Workspace} {p : Placement σ}
    (h : Running start p) :
    p.views.keys.Pairwise fun a b => owningPackage? start a ≠ some b := by
  rw [← h.map_element, List.pairwise_map]
  refine h.entries_increasing.imp_of_mem fun {e e'} he he' hlt howner => ?_
  have hcontainer : e.container = some e'.view := by
    rw [h.container_eq e he, howner, Option.bind_some, h.viewOf?_eq_some, ← h.map_entries]
    exact List.mem_map_of_mem he'
  exact Nat.lt_asymm hlt (h.container_lt e he _ hcontainer)

namespace Packages

/-! ### The order of packages -/

/-- The depth of a package in the model is one more than that of the package around it. -/
theorem depth_of_owner {s : σ} (hs : (workspace s).Numbered) {element package : ElementId}
    (h : owningPackage? s element = some package) : depth s element = depth s package + 1 := by
  have hlt : package.index < element.index :=
    hs.owner_lt (by rwa [← BackedStore.owningPackage?_eq])
  rw [depth, h]
  simp only [if_pos hlt]

/-- The packages with their depths, outer ones first. -/
def outerFirst (p : Placement σ) (roots : List ElementId) : List (ElementId × Nat) :=
  ((roots.filter (p.kind? · = some .package)).map fun e => (e, depth p.store e)).mergeSort
    fun a b => a.2 ≤ b.2

omit [ViewStore σ] [BackedStore σ] in
theorem perm_outerFirst (p : Placement σ) (roots : List ElementId) :
    ((outerFirst p roots).map Prod.fst).Perm (roots.filter (p.kind? · = some .package)) := by
  refine ((List.mergeSort_perm _ _).map _).trans ?_
  rw [List.map_map]
  simp [Function.comp_def]

omit [ViewStore σ] [BackedStore σ] in
/-- The number beside a package is its depth. -/
theorem depth_of_mem_outerFirst {p : Placement σ} {roots : List ElementId}
    {x : ElementId × Nat} (hx : x ∈ outerFirst p roots) : x.2 = depth p.store x.1 := by
  obtain ⟨e, -, rfl⟩ := List.mem_map.1 (List.mem_mergeSort.1 hx)
  rfl

omit [ViewStore σ] [BackedStore σ] in
/-- The depths do not decrease. -/
theorem pairwise_outerFirst (p : Placement σ) (roots : List ElementId) :
    ((outerFirst p roots).map Prod.fst).Pairwise fun a b => depth p.store a ≤ depth p.store b := by
  have hsorted : (outerFirst p roots).Pairwise fun a b => a.2 ≤ b.2 :=
    (List.pairwise_mergeSort (ascending_trans Prod.snd) (ascending_total Prod.snd) _).imp
      of_decide_eq_true
  rw [List.pairwise_map]
  exact hsorted.imp_of_mem fun ha hb hab =>
    depth_of_mem_outerFirst ha ▸ depth_of_mem_outerFirst hb ▸ hab

/-- An outer package comes before the packages inside it. -/
theorem owners_outerFirst (p : Placement σ) (hs : (workspace p.store).Numbered)
    (roots : List ElementId) :
    ((outerFirst p roots).map Prod.fst).Pairwise fun a b => owningPackage? p.store a ≠ some b := by
  refine (pairwise_outerFirst p roots).imp fun {a b} hle howner => ?_
  have := depth_of_owner hs howner
  omega

omit [BackedStore σ] in
/-- The loop that opens the views of packages tries each of them. -/
theorem tries_openView (packages : List (ElementId × Nat))
    (state : Placement σ × List (ElementId × Nat)) :
    Tries state.1 (packages.map Prod.fst) (packages.foldl openView state).1 := by
  refine Tries.foldl_each Prod.fst Prod.fst ?_
    packages state
  intro state package
  have h := Tries.one state.1 package.1 ⟨0, 0⟩ none
  simp only [openView]
  rcases hp : state.1.place package.1 ⟨0, 0⟩ none with ⟨placed, p⟩
  rw [hp] at h
  cases placed with
  | none => exact h
  | some view => exact h

omit [BackedStore σ] in
theorem tries_openViews (p : Placement σ) (roots : List ElementId) :
    Tries p ((outerFirst p roots).map Prod.fst) (openViews p roots).1 :=
  tries_openView (outerFirst p roots) (p, [])

/-! ### Those that get a view -/

omit [BackedStore σ] in
theorem openView_eq (state : Placement σ × List (ElementId × Nat)) (package : ElementId × Nat) :
    openView state package =
      ((state.1.place package.1 ⟨0, 0⟩ none).2,
        if (state.1.place package.1 ⟨0, 0⟩ none).1.isSome then state.2 ++ [package]
        else state.2) := by
  simp only [openView]
  rcases state.1.place package.1 ⟨0, 0⟩ none with ⟨placed, p⟩
  cases placed <;> rfl

/-- The packages that are kept are those that got a view. -/
theorem map_fst_foldl_openView {start : Workspace} {packages : List (ElementId × Nat)}
    (state : Placement σ × List (ElementId × Nat))
    (h : Awaiting start state.1 (packages.map Prod.fst))
    (hstate : state.2.map Prod.fst = state.1.views.keys) :
    (packages.foldl openView state).2.map Prod.fst
      = (packages.foldl openView state).1.views.keys := by
  induction packages generalizing state with
  | nil => exact hstate
  | cons package rest ih =>
      have hplaced := h.place ⟨0, 0⟩ none
      rw [List.foldl_cons, openView_eq]
      refine ih _ hplaced ?_
      rcases Placement.place_cases state.1 h.running.view_lt package.1 ⟨0, 0⟩ none with
        ⟨store, -, hp⟩ | ⟨e, store, -, -, hp⟩
      · rw [hp]
        exact hstate
      · rw [hp, OrderedMap.keys_insert, if_neg h.not_mem_keys]
        simp [hstate]

omit [BackedStore σ] in
/-- Only packages that were tried are kept. -/
theorem mem_foldl_openView {packages : List (ElementId × Nat)}
    {state : Placement σ × List (ElementId × Nat)} {x : ElementId × Nat}
    (hx : x ∈ (packages.foldl openView state).2) : x ∈ state.2 ∨ x ∈ packages := by
  induction packages generalizing state with
  | nil => exact .inl hx
  | cons package rest ih =>
      rcases ih hx with hx | hx
      · rw [openView_eq] at hx
        split at hx
        · rcases List.mem_append.1 hx with hx | hx
          · exact .inl hx
          · exact .inr (List.mem_singleton.1 hx ▸ List.mem_cons_self)
        · exact .inl hx
      · exact .inr (List.mem_cons_of_mem _ hx)

omit [BackedStore σ] in
theorem openViews_eq (p : Placement σ) (roots : List ElementId) :
    openViews p roots = (((outerFirst p roots).foldl openView (p, [])).1,
      (((outerFirst p roots).foldl openView (p, [])).2.mergeSort fun a b => b.2 ≤ a.2).map
        Prod.fst) := rfl

/-- A run that has opened the packages among `roots` on a diagram. -/
structure Opened (start : Workspace) (diagram : DiagramId) (roots : List ElementId)
    (p : Placement σ) (packages : List ElementId) : Prop where
  running : Running start p
  diagram_eq : p.diagram = diagram
  /-- Every package has been placed or skipped. -/
  perm : (p.views.keys ++ p.skipped).Perm (roots.filter fun e => start.kind? e = some .package)
  packages_perm : packages.Perm p.views.keys
  /-- No package stands before one that it owns. -/
  deepest_first : packages.Pairwise fun a b => owningPackage? start b ≠ some a

/-- The packages are tried once each, none of them after one that it owns. -/
theorem awaiting_outerFirst {store : σ} (h : (workspace store).Numbered) (diagram : DiagramId)
    {roots : List ElementId} (hnodup : roots.Nodup) :
    Awaiting (workspace store) ({ store, diagram } : Placement σ)
      ((outerFirst ({ store, diagram } : Placement σ) roots).map Prod.fst) := by
  have hrunning := Placement.running_start h diagram
  refine ⟨hrunning, (perm_outerFirst _ roots).nodup_iff.2 (hnodup.filter _), ?_⟩
  refine (owners_outerFirst _ h roots).imp fun {a b} hab => ?_
  rwa [← hrunning.owningPackage?_eq]

/-- **The packages are opened.** -/
theorem opened_openViews {store : σ} (h : (workspace store).Numbered) (diagram : DiagramId)
    {roots : List ElementId} (hnodup : roots.Nodup) :
    Opened (workspace store) diagram roots (openViews ({ store, diagram } : Placement σ) roots).1
      (openViews ({ store, diagram } : Placement σ) roots).2 := by
  let p : Placement σ := { store, diagram }
  have hrunning : Running (workspace store) p := Placement.running_start h diagram
  have hperm := perm_outerFirst p roots
  have hkinds : (roots.filter (p.kind? · = some .package))
      = roots.filter fun e => (workspace store).kind? e = some .package := by
    simp only [hrunning.kind?_eq]
  have hawaiting := awaiting_outerFirst h diagram hnodup
  obtain ⟨hq, hdiagram, placed, refused, hkeys, hskipped, hall⟩ :=
    hawaiting.tries (tries_openViews p roots)
  have hopened := map_fst_foldl_openView (p, []) hawaiting rfl
  refine ⟨hq, hdiagram, ?_, ?_, ?_⟩
  · rw [hkeys, hskipped, ← hkinds]
    exact hall.trans hperm
  · rw [openViews_eq]
    exact ((List.mergeSort_perm _ _).map _).trans (.of_eq hopened)
  · rw [openViews_eq, List.pairwise_map]
    have hsorted : ((((outerFirst p roots).foldl openView (p, [])).2).mergeSort fun a b =>
        b.2 ≤ a.2).Pairwise fun a b => b.2 ≤ a.2 :=
      (List.pairwise_mergeSort (descending_trans Prod.snd) (descending_total Prod.snd) _).imp
        of_decide_eq_true
    refine hsorted.imp_of_mem fun {a b} ha hb hle howner => ?_
    have hdepth : ∀ x ∈ ((outerFirst p roots).foldl openView (p, [])).2.mergeSort fun a b =>
        b.2 ≤ a.2, x.2 = depth p.store x.1 := fun x hx =>
      depth_of_mem_outerFirst
        ((mem_foldl_openView (List.mem_mergeSort.1 hx)).resolve_left (List.not_mem_nil))
    rw [← hrunning.owningPackage?_eq] at howner
    have hone : depth p.store b.1 = depth p.store a.1 + 1 := depth_of_owner h howner
    have := hdepth a ha
    have := hdepth b hb
    omega

/-- Only declared packages have been placed. -/
theorem Opened.of_mem_keys {start : Workspace} {diagram : DiagramId}
    {roots packages : List ElementId} {p : Placement σ}
    (h : Opened start diagram roots p packages) {package : ElementId}
    (hkey : package ∈ p.views.keys) : package ∈ roots ∧ start.kind? package = some .package := by
  simpa using h.perm.mem_iff.1 (List.mem_append_left _ hkey)

theorem Opened.of_mem_entries {start : Workspace} {diagram : DiagramId}
    {roots packages : List ElementId} {p : Placement σ}
    (h : Opened start diagram roots p packages) {e : LayoutEntry} (he : e ∈ p.entries) :
    e.element ∈ roots ∧ start.kind? e.element = some .package := by
  refine h.of_mem_keys ?_
  rw [← h.running.map_element]
  exact List.mem_map_of_mem he

end Packages

end UmlText
