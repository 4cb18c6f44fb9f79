import Mathlib.Data.List.Basic
import UmlText.Proofs.Layout.Hiding
import UmlText.Proofs.Layout.Sorting
import UmlText.Proofs.Layout.Strategies
import UmlText.Proofs.Tables

/-!
# UmlText.Proofs.Layout.Ranking

**The groups of a grid do not depend on what is hidden.** A group is known by the packages around
it; their ranks among all declared elements only say in which order the groups come (`Ranked`). With
some elements gone the ranks shift, but they keep their order, so the groups that still have members
come in the order they had (`Ranked.hide`). A group without members takes no room, and a member that
is skipped takes no cell. So a grid looks the same whether its hidden elements are tried or not
(`arrange_alike`).
-/

namespace UmlText

universe u

open ModelStore (owningPackage?)
open Placement (Alike AlikeWith)

/-! ### Ranks in a list -/

section Ranks

variable {α : Type} [DecidableEq α]

/-- Leaving out some values keeps the order of the others. -/
theorem idxOf_filter_lt_iff {l : List α} {keep : α → Bool} {a b : α} (ha : a ∈ l.filter keep)
    (hb : b ∈ l.filter keep) :
    (l.filter keep).idxOf a < (l.filter keep).idxOf b ↔ l.idxOf a < l.idxOf b := by
  induction l with
  | nil => cases ha
  | cons c rest ih =>
      by_cases hc : keep c
      · rw [List.filter_cons_of_pos hc] at ha hb ⊢
        by_cases hca : c = a
        · subst hca
          by_cases hcb : c = b <;> simp [hcb]
        · by_cases hcb : c = b
          · simp [List.idxOf_cons, hcb]
          · have ha := (List.mem_cons.1 ha).resolve_left (Ne.symm hca)
            have hb := (List.mem_cons.1 hb).resolve_left (Ne.symm hcb)
            simpa [List.idxOf_cons, hca, hcb] using ih ha hb
      · rw [List.filter_cons_of_neg hc] at ha hb ⊢
        have hca : c ≠ a := fun h => hc (h ▸ (List.mem_filter.1 ha).2)
        have hcb : c ≠ b := fun h => hc (h ▸ (List.mem_filter.1 hb).2)
        simpa [List.idxOf_cons, hca, hcb] using ih ha hb

/-- Lists are told apart by the ranks of what is in them. -/
theorem map_idxOf_inj {l a b : List α} (ha : ∀ x ∈ a, x ∈ l)
    (h : a.map l.idxOf = b.map l.idxOf) : a = b := by
  induction a generalizing b with
  | nil => exact (List.map_eq_nil_iff.1 h.symm).symm
  | cons x a ih =>
      cases b with
      | nil => cases h
      | cons y b =>
          rw [List.map_cons, List.map_cons, List.cons.injEq] at h
          rw [(List.idxOf_inj (ha x List.mem_cons_self)).1 h.1,
            ih (fun x hx => ha x (List.mem_cons_of_mem _ hx)) h.2]

end Ranks

namespace Grid

/-- Keys are compared in the same way by any ranks that are in the same order. -/
theorem keyLE_map_congr {f g : ElementId → Nat} {a b : List ElementId}
    (h : ∀ x ∈ a, ∀ y ∈ b, (f x < f y ↔ g x < g y) ∧ (f x = f y ↔ g x = g y)) :
    keyLE (a.map f) (b.map f) = keyLE (a.map g) (b.map g) := by
  induction a generalizing b with
  | nil => rfl
  | cons x a ih =>
      cases b with
      | nil => rfl
      | cons y b =>
          obtain ⟨hlt, heq⟩ := h x List.mem_cons_self y List.mem_cons_self
          have hrest := ih fun x hx y hy =>
            h x (List.mem_cons_of_mem _ hx) y (List.mem_cons_of_mem _ hy)
          simp only [List.map_cons, keyLE, hlt, heq, hrest]

/-- Leaving out some elements keeps the order of keys. -/
theorem keyLE_map_filter {roots : List ElementId} {keep : ElementId → Bool} {a b : List ElementId}
    (ha : ∀ x ∈ a, x ∈ roots.filter keep) (hb : ∀ x ∈ b, x ∈ roots.filter keep) :
    keyLE (a.map (roots.filter keep).idxOf) (b.map (roots.filter keep).idxOf)
      = keyLE (a.map roots.idxOf) (b.map roots.idxOf) := by
  refine keyLE_map_congr fun x hx y hy => ⟨idxOf_filter_lt_iff (ha x hx) (hb y hy), ?_⟩
  rw [List.idxOf_inj (ha x hx), List.idxOf_inj (List.mem_of_mem_filter (ha x hx))]

/-! ### Groups by their packages -/

section Groups

variable {σ : Type u} [ModelStore σ]

/-- The group of the elements that have just these packages around them. -/
def groupAt (p : Placement σ) (roots packages : List ElementId) : Group :=
  ⟨packages.map roots.idxOf, (gridElements p roots).filter (enclosingPackages p · = packages)⟩

/-- The packages around the elements of a grid, each list of them once, in the order of ranks. -/
structure Ranked (p : Placement σ) (roots : List ElementId) (paths : List (List ElementId)) :
    Prop where
  nodup : paths.Nodup
  sorted : paths.Pairwise fun a b => keyLE (a.map roots.idxOf) (b.map roots.idxOf)
  mem_iff : ∀ path, path ∈ paths ↔ ∃ e ∈ gridElements p roots, enclosingPackages p e = path

theorem exists_ranked (p : Placement σ) (roots : List ElementId) :
    ∃ paths, Ranked p roots paths := by
  let le (a b : List ElementId) : Bool := keyLE (a.map roots.idxOf) (b.map roots.idxOf)
  let paths := ((gridElements p roots).map (enclosingPackages p)).eraseDups
  have htrans : ∀ a b c, le a b → le b c → le a c := fun a b c => keyLE_trans _ _ _
  have htotal : ∀ a b, le a b || le b a := fun a b => keyLE_total _ _
  exact ⟨paths.mergeSort le, (List.mergeSort_perm _ _).nodup_iff.2 (nodup_eraseDups _),
    List.pairwise_mergeSort htrans htotal _, fun path => by simp [paths]⟩

/-- There is one group for each list of packages. -/
theorem Ranked.groups_eq {p : Placement σ} {roots : List ElementId}
    {paths : List (List ElementId)} (h : Ranked p roots paths)
    (hroots : ∀ path ∈ paths, ∀ x ∈ path, x ∈ roots) :
    groups p roots = paths.map (groupAt p roots) := by
  have hnodup : (paths.map (List.map roots.idxOf)).Nodup :=
    h.nodup.map_on fun a ha b _ => map_idxOf_inj (hroots a ha)
  have hmem : ∀ key, key ∈ ((gridElements p roots).map (groupKey p roots)).eraseDups ↔
      key ∈ paths.map (List.map roots.idxOf) := by
    intro key
    simp only [List.mem_eraseDups, List.mem_map, h.mem_iff, groupKey]
    constructor
    · intro hexists
      obtain ⟨e, he, rfl⟩ := hexists
      exact ⟨_, ⟨e, he, rfl⟩, rfl⟩
    · intro hexists
      obtain ⟨path, ⟨e, he, rfl⟩, rfl⟩ := hexists
      exact ⟨e, he, rfl⟩
  -- There is only one way to sort distinct keys.
  have hkeys : ((gridElements p roots).map (groupKey p roots)).eraseDups.mergeSort keyLE
      = paths.map (List.map roots.idxOf) :=
    ((List.mergeSort_perm _ _).trans
      ((List.perm_ext_iff_of_nodup (nodup_eraseDups _) hnodup).2 hmem)).eq_of_pairwise
        (fun a b _ _ => keyLE_antisymm) (List.pairwise_mergeSort keyLE_trans keyLE_total _)
        (List.pairwise_map.2 h.sorted)
  rw [groups_eq_map_keys, hkeys, List.map_map]
  refine List.map_congr_left fun path hpath => ?_
  rw [Function.comp_apply, groupAt, Group.mk.injEq]
  refine ⟨rfl, List.filter_congr fun e _ => ?_⟩
  rw [decide_eq_decide, groupKey]
  exact ⟨fun heq => (map_idxOf_inj (hroots path hpath) heq.symm).symm, fun heq => heq ▸ rfl⟩

end Groups

/-! ### Groups with hidden members -/

section Hidden

variable {hidden : List ElementId} {p q : Placement Host} {roots : List ElementId}

theorem enclosingPackages_alike (h : Alike hidden p q) (element : ElementId) :
    enclosingPackages q element = enclosingPackages p element := by
  induction hn : element.index using Nat.strongRecOn generalizing element with
  | ind n ih =>
      rw [enclosingPackages, enclosingPackages, h.owningPackage?_eq]
      split
      · next package _ =>
          rw [h.viewOf?_eq]
          split
          · split
            · next hlt => rw [ih package.index (hn ▸ hlt) package rfl]
            · rfl
          · rfl
      · rfl

/-- Only packages with a view count. -/
theorem viewOf?_of_mem_enclosingPackages {p : Placement Host} {element package : ElementId}
    (h : package ∈ enclosingPackages p element) : (p.viewOf? package).isSome := by
  induction hn : element.index using Nat.strongRecOn generalizing element with
  | ind n ih =>
      rw [enclosingPackages] at h
      split at h
      · next owner _ =>
          split at h
          · next hview =>
              split at h
              · next hlt =>
                  rcases List.mem_append.1 h with h | h
                  · exact ih owner.index (hn ▸ hlt) h rfl
                  · exact List.mem_singleton.1 h ▸ hview
              · exact List.mem_singleton.1 h ▸ hview
          · cases h
      · cases h

/-- The groups are the same if the same elements are declared. -/
theorem groups_alike (h : Alike hidden p q) (roots : List ElementId) :
    groups q roots = groups p roots := by
  simp only [groups, gridElements, groupKey, h.kind?_eq, enclosingPackages_alike h]

theorem gridElements_hide (h : Alike hidden p q) :
    gridElements q (roots.filter (· ∉ hidden)) = (gridElements p roots).filter (· ∉ hidden) := by
  simp only [gridElements, h.kind?_eq, List.filter_filter, Bool.and_comm]

/-- A group without its hidden members. -/
theorem groupAt_hide (h : Alike hidden p q) (roots path : List ElementId) :
    (groupAt q (roots.filter (· ∉ hidden)) path).depth = (groupAt p roots path).depth ∧
      (groupAt q (roots.filter (· ∉ hidden)) path).members
        = (groupAt p roots path).members.filter (· ∉ hidden) := by
  refine ⟨?_, ?_⟩
  · simp only [groupAt, Group.depth, List.length_map]
  · simp only [groupAt, gridElements_hide h, enclosingPackages_alike h, List.filter_filter,
      Bool.and_comm]

/-- Whether a group has a member that is not hidden. -/
def stands (p : Placement Host) (hidden roots path : List ElementId) : Bool :=
  (gridElements p roots).any fun e => e ∉ hidden && enclosingPackages p e = path

theorem members_eq_nil {path : List ElementId} (h : ¬ stands p hidden roots path) :
    (groupAt p roots path).members.filter (· ∉ hidden) = [] := by
  simpa [stands, groupAt, List.filter_filter, List.filter_eq_nil_iff] using h

/-- The groups that still have a member come in the order they had. -/
theorem Ranked.hide {paths : List (List ElementId)} (h : Ranked p roots paths)
    (halike : Alike hidden p q)
    (hviews : ∀ e, (p.viewOf? e).isSome → e ∈ roots.filter (· ∉ hidden)) :
    Ranked q (roots.filter (· ∉ hidden)) (paths.filter (stands p hidden roots)) := by
  refine ⟨h.nodup.filter _, ?_, fun path => ?_⟩
  · refine (h.sorted.filter _).imp_of_mem fun {a b} ha hb hle => ?_
    have hpackages : ∀ path ∈ paths.filter (stands p hidden roots), ∀ x ∈ path,
        x ∈ roots.filter (· ∉ hidden) := by
      intro path hpath x hx
      obtain ⟨e, -, rfl⟩ := (h.mem_iff path).1 (List.mem_of_mem_filter hpath)
      exact hviews x (viewOf?_of_mem_enclosingPackages hx)
    rwa [keyLE_map_filter (hpackages a ha) (hpackages b hb)]
  · rw [List.mem_filter, h.mem_iff, gridElements_hide halike]
    simp only [stands, List.any_eq_true, Bool.and_eq_true, decide_eq_true_eq, List.mem_filter,
      enclosingPackages_alike halike]
    constructor
    · intro hboth
      obtain ⟨-, e, he, hshown, hpath⟩ := hboth
      exact ⟨e, ⟨he, hshown⟩, hpath⟩
    · intro hexists
      obtain ⟨e, ⟨he, hshown⟩, hpath⟩ := hexists
      exact ⟨⟨e, he, hpath⟩, e, he, hshown, hpath⟩

/-! ### Filling blocks -/

/-- Two blocks that look the same. -/
structure FillingAlike (hidden : List ElementId) (f f' : Filling Host) : Prop where
  placement : Alike hidden f.placement f'.placement
  cells_eq : f'.cells = f.cells
  bounds_eq : f'.bounds = f.bounds

variable {f f' : Filling Host} {g : GridSettings} {s : PackageSettings}

/-- A hidden member takes no cell. -/
theorem FillingAlike.add_of_mem (h : FillingAlike hidden f f') (top : Int) {element : ElementId}
    (helement : element ∈ hidden) : FillingAlike hidden (f.add g top element) f' := by
  have hplace := h.placement.place_of_mem helement (cellPosition g top f.cells)
    (some (g.widthFor (f.placement.nameOf element)))
  simp only [Filling.add]
  rcases hp : f.placement.place element (cellPosition g top f.cells)
    (some (g.widthFor (f.placement.nameOf element))) with ⟨view, p⟩
  rw [hp] at hplace
  obtain ⟨rfl, halike⟩ := hplace
  exact ⟨halike, h.cells_eq, h.bounds_eq⟩

theorem FillingAlike.add (h : FillingAlike hidden f f') (top : Int) {element : ElementId}
    (helement : element ∉ hidden) :
    FillingAlike hidden (f.add g top element) (f'.add g top element) := by
  have hplace := h.placement.place helement (cellPosition g top f.cells)
    (some (g.widthFor (f.placement.nameOf element)))
  simp only [Filling.add, h.placement.nameOf_eq, h.cells_eq, h.bounds_eq]
  rcases hp : f.placement.place element (cellPosition g top f.cells)
    (some (g.widthFor (f.placement.nameOf element))) with ⟨view, p⟩
  rcases hq : f'.placement.place element (cellPosition g top f.cells)
    (some (g.widthFor (f.placement.nameOf element))) with ⟨view', q⟩
  rw [hp, hq] at hplace
  obtain ⟨hview, halike⟩ := hplace
  obtain rfl : view' = view := hview
  cases view' with
  | none => exact ⟨halike, rfl, rfl⟩
  | some view => exact ⟨halike, rfl, by simp only [halike.boundsOf?_eq]⟩

theorem fillBlock_alike (h : Alike hidden p q) (top : Int) (members : List ElementId) :
    FillingAlike hidden (fillBlock p g top members)
      (fillBlock q g top (members.filter (· ∉ hidden))) := by
  rw [fillBlock, fillBlock, List.foldl_filter]
  refine List.foldl_rel (r := FillingAlike hidden) ⟨h, rfl, rfl⟩ fun element _ f f' hstep => ?_
  by_cases helement : element ∈ hidden
  · rw [if_neg (by simpa using helement)]
    exact hstep.add_of_mem top helement
  · rw [if_pos (by simpa using helement)]
    exact hstep.add top helement

theorem placeGroup_alike {a b : Placement Host × Int} (h : AlikeWith hidden a b)
    {group group' : Group} (hdepth : group'.depth = group.depth)
    (hmembers : group'.members = group.members.filter (· ∉ hidden)) :
    AlikeWith hidden (placeGroup g s a group) (placeGroup g s b group') := by
  obtain ⟨halike, htop⟩ := h
  have hfilled := fillBlock_alike (g := g) halike (blockTop s a.2 group.depth) group.members
  simp only [placeGroup, hdepth, hmembers, htop, hfilled.bounds_eq, hfilled.cells_eq]
  split
  · exact ⟨hfilled.placement, rfl⟩
  · exact ⟨hfilled.placement, rfl⟩

/-- A group without members takes no room. -/
theorem placeGroup_of_members_eq_nil (state : Placement Host × Int) {group : Group}
    (h : group.members = []) : placeGroup g s state group = state := by
  simp only [placeGroup, h]
  rfl

/-- **A grid looks the same** whether its hidden elements are tried or not declared at all. -/
theorem arrange_alike (h : Alike hidden p q)
    (hviews : ∀ e, (p.viewOf? e).isSome → e ∈ roots.filter (· ∉ hidden)) :
    Alike hidden (arrange p roots g s) (arrange q (roots.filter (· ∉ hidden)) g s) := by
  obtain ⟨paths, hpaths⟩ := exists_ranked p roots
  have hpackages : ∀ path ∈ paths, ∀ x ∈ path, x ∈ roots.filter (· ∉ hidden) := by
    intro path hpath x hx
    obtain ⟨e, -, rfl⟩ := (hpaths.mem_iff path).1 hpath
    exact hviews x (viewOf?_of_mem_enclosingPackages hx)
  have hgroups := hpaths.groups_eq fun path hpath x hx =>
    List.mem_of_mem_filter (hpackages path hpath x hx)
  have hgroups' := (hpaths.hide h hviews).groups_eq fun path hpath x hx =>
    hpackages path (List.mem_of_mem_filter hpath) x hx
  rw [arrange, arrange, hgroups, hgroups', List.foldl_map, List.foldl_map, List.foldl_filter]
  have hfold : AlikeWith hidden
      (paths.foldl (fun state path => placeGroup g s state (groupAt p roots path)) (p, g.originY))
      (paths.foldl (fun state path => if stands p hidden roots path then placeGroup g s state
        (groupAt q (roots.filter (· ∉ hidden)) path) else state) (q, g.originY)) := by
    refine List.foldl_rel (r := AlikeWith hidden) ⟨h, rfl⟩ fun path _ a b hstep => ?_
    obtain ⟨hdepth, hmembers⟩ := groupAt_hide h roots path
    have hplaced := placeGroup_alike (g := g) (s := s) hstep hdepth hmembers
    split
    · exact hplaced
    · next hgone =>
        -- The second run has no such group. Placing it there would do nothing.
        rwa [placeGroup_of_members_eq_nil b (hmembers.trans (members_eq_nil hgone))] at hplaced
  exact hfold.1

end Hidden

end Grid

end UmlText
