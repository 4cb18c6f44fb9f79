import Mathlib.Algebra.Order.BigOperators.Group.List
import UmlText.Proofs.Layout.Blocks
import UmlText.Proofs.Layout.Scenes
import UmlText.Proofs.Reading.Charging

/-!
# UmlText.Proofs.Layout.Descending

**How far down a grid goes.** A block takes a row for a cell at most, the heights of what is in it,
and room for the borders around it. With the usual settings that is no more than 90 for each
character that declares something in the block and for each package around something in it, so the
whole grid is in an area that grows with both (`Grid.within_arrange`).
-/

namespace UmlText

universe u

open BackedStore (workspace)
open Placement (Awaiting)

variable {σ : Type u} [ModelStore σ] [ViewStore σ] [BackedStore σ]

/-! ### Sizes -/

namespace Saturating

/-- A sum that stops at the border of the grid stops too early, not too late. -/
theorem add_mem {a b : Int} (ha : 0 ≤ a) (hb : 0 ≤ b) : 0 ≤ add a b ∧ add a b ≤ a + b := by
  rw [add_of_nonneg ha hb]
  exact ⟨Int.le_min.2 ⟨by decide, Int.add_nonneg ha hb⟩, Int.min_le_right _ _⟩

theorem ofNat_le (n : Nat) {fallback : Int} (h : fallback ≤ highest) : ofNat n fallback ≤ n := by
  unfold ofNat
  split <;> omega

/-- The same for a multiple of a count. -/
theorem ofNat_mul_mem (n : Nat) {fallback k : Int} (h : 0 ≤ fallback) (hle : fallback ≤ highest)
    (hk : 0 ≤ k) : 0 ≤ mul (ofNat n fallback) k ∧ mul (ofNat n fallback) k ≤ k * n := by
  have hnonneg := ofNat_nonneg n fallback h
  have hproduct : ofNat n fallback * k ≤ k * n := by
    rw [Int.mul_comm]
    exact Int.mul_le_mul_of_nonneg_left (ofNat_le n hle) hk
  have hpositive := Int.mul_nonneg hnonneg hk
  refine ⟨mul_nonneg hnonneg hk, Int.le_trans ?_ hproduct⟩
  simp only [mul, clamp, lowest]
  omega

theorem mul_ofNat_mem (n : Nat) {k : Int} (hk : 0 ≤ k) :
    0 ≤ mul k (ofNat n highest) ∧ mul k (ofNat n highest) ≤ k * n := by
  rw [mul_ofNat hk]
  exact ⟨Int.le_min.2 ⟨by decide, Int.mul_nonneg hk (Int.natCast_nonneg n)⟩, Int.min_le_right _ _⟩

end Saturating

/-- A view on the grid has ten for each character of its name. -/
theorem GridSettings.widthFor_le (name : String) :
    ({} : GridSettings).widthFor name ≤ 100 + 10 * name.length := by
  have hname := (Saturating.ofNat_mul_mem name.length (k := 10)
    (by decide : 0 ≤ Saturating.highest / 16) (by decide) (by decide)).2
  simp only [widthFor, nameLength]
  omega

/-- A use case has eight. -/
theorem UseCaseSettings.useCaseWidth_le (name : String) :
    ({} : UseCaseSettings).useCaseWidth name ≤ 120 + 8 * name.length := by
  obtain ⟨hnonneg, hname⟩ := Saturating.ofNat_mul_mem name.length (k := 8)
    (by decide : 0 ≤ Saturating.highest / 16) (by decide) (by decide)
  have hpadded := (Saturating.add_mem hnonneg (by decide : (0 : Int) ≤ 30)).2
  simp only [useCaseWidth, nameLength]
  omega

/-- The height of a view that is no package. -/
theorem Workspace.nodeSize_le {e : Element} (h : e.kind? ≠ some .package) :
    (nodeSize e).width ≤ 120 ∧ (nodeSize e).height ≤ 80 + 15 * e.memberCount := by
  unfold nodeSize
  split
  case h_1 hkind => exact absurd hkind h
  case h_4 | h_5 | h_6 =>
      obtain ⟨hnonneg, hmembers⟩ := Saturating.ofNat_mul_mem e.memberCount (k := 15)
        (by decide : 0 ≤ Saturating.highest / 2) (by decide) (by decide)
      have hlines := (Saturating.add_mem (by decide : (0 : Int) ≤ 45) hnonneg).2
      simp only
      omega
  all_goals
    simp only
    omega

/-! ### Areas -/

/-- Elements that a strategy places: those with a kind, except packages. -/
def Placeable (start : Workspace) (element : ElementId) : Prop :=
  ∃ kind, start.kind? element = some kind ∧ kind ≠ .package

theorem placeable_of_any {start : Workspace} {element : ElementId}
    (h : (start.kind? element).any (· ≠ .package)) : Placeable start element := by
  rw [Option.any_eq_true] at h
  obtain ⟨kind, hkind, hother⟩ := h
  exact ⟨kind, hkind, of_decide_eq_true hother⟩

theorem Placeable.isSome_kind? {start : Workspace} {element : ElementId}
    (h : Placeable start element) : (start.kind? element).isSome := by
  obtain ⟨kind, hkind, -⟩ := h
  exact Option.isSome_of_eq_some hkind

/-- What has a kind takes six characters, those of its name, and one for each member. -/
theorem Workspace.charge_of_kind? {w : Workspace} {id : ElementId} {model : Element}
    (hmodel : w.element? id = some model) (hkind : model.kind?.isSome) :
    w.charge id = 6 + model.name.length + model.memberCount := by
  rw [charge, hmodel, Option.elim_some, Element.charge, if_pos hkind]

theorem Workspace.six_le_charge {w : Workspace} {id : ElementId} (h : (w.kind? id).isSome) :
    6 ≤ w.charge id := by
  obtain ⟨kind, hkind⟩ := Option.isSome_iff_exists.1 h
  obtain ⟨model, hmodel, hmodelKind⟩ := Option.bind_eq_some_iff.1 hkind
  rw [charge_of_kind? hmodel (hmodelKind ▸ rfl)]
  omega

/-- What declares an entry pays for its size. -/
theorem Fills.size_le {start : Workspace} {e : LayoutEntry} {spot : Spot} (h : Fills start e spot)
    (hplaceable : Placeable start spot.element) (hwidth : ∀ width ∈ spot.width,
      width ≤ 120 + 10 * (ModelStore.nameOf start spot.element).length) :
    e.size.width ≤ 60 + 10 * start.charge e.element ∧
      e.size.height ≤ 15 * start.charge e.element := by
  obtain ⟨model, hmodel, hsize⟩ := h.size_eq
  obtain ⟨kind, hkind, hpackage⟩ := hplaceable
  have hmodelKind : model.kind? = some kind := (Workspace.kind?_of_element? hmodel).symm.trans hkind
  have hcharge : start.charge e.element = 6 + model.name.length + model.memberCount :=
    h.element_eq ▸ Workspace.charge_of_kind? hmodel (hmodelKind ▸ rfl)
  have hname : ModelStore.nameOf start spot.element = model.name := by
    simp only [ModelStore.nameOf, BackedStore.element?_eq, BackedStore.workspace_self, hmodel]
    rfl
  obtain ⟨hnodeWidth, hnodeHeight⟩ := Workspace.nodeSize_le (e := model) fun hother =>
    hpackage (Option.some.inj (hmodelKind.symm.trans hother))
  have hasked : spot.width.getD (Workspace.nodeSize model).width
      ≤ 120 + 10 * model.name.length := by
    cases hspot : spot.width with
    | none =>
        rw [Option.getD_none]
        omega
    | some width => exact hname ▸ hwidth width hspot
  rw [hcharge, hsize]
  push_cast
  omega

/-- The characters that declare some elements. -/
def Workspace.charges (w : Workspace) (ids : List ElementId) : Nat :=
  (ids.map w.charge).sum

theorem Workspace.charge_le_charges {w : Workspace} {ids : List ElementId} {id : ElementId}
    (h : id ∈ ids) : w.charge id ≤ w.charges ids :=
  List.le_sum_of_mem (List.mem_map_of_mem h)

/-- Nothing is declared in less than six characters. -/
theorem Workspace.length_le_charges {w : Workspace} {ids : List ElementId}
    (h : ∀ id ∈ ids, (w.kind? id).isSome) : 6 * ids.length ≤ w.charges ids := by
  have hsum := List.card_nsmul_le_sum (ids.map w.charge) 6
    (List.forall_mem_map.2 fun id hid => six_le_charge (h id hid))
  rwa [List.length_map, Nat.nsmul_eq_mul, Nat.mul_comm] at hsum

/-- The area in which either strategy places what has some load. -/
def areaFor (load : Nat) : Bounds :=
  ⟨100, 100, 4160 + 30 * load, 250 + 90 * load⟩

theorem areaFor_contains {m n : Nat} (h : m ≤ n) : (areaFor n).contains (areaFor m) := by
  simp only [areaFor, Bounds.contains_iff]
  omega

namespace Grid

variable {start : Workspace} {p : Placement σ}

/-! ### Blocks -/

/-- A cell is in the first six columns, and no further down than with one cell to a row. -/
theorem cellPosition_le {top : Int} (h : 0 ≤ top) (cell : Nat) :
    100 ≤ (cellPosition {} top cell).x ∧ (cellPosition {} top cell).x ≤ 4100 ∧
      (cellPosition {} top cell).y ≤ top + 400 * cell := by
  obtain ⟨hright, hcolumn⟩ := Saturating.ofNat_mul_mem (cell % 6) (k := 800)
    (by decide : 0 ≤ Saturating.highest) (Int.le_refl _) (by decide)
  obtain ⟨hdown, hrow⟩ := Saturating.ofNat_mul_mem (cell / 6) (k := 400)
    (by decide : 0 ≤ Saturating.highest) (Int.le_refl _) (by decide)
  have hleft := Saturating.le_add 100
    (Saturating.mul (Saturating.ofNat (cell % 6) Saturating.highest) 800)
  have hx := (Saturating.add_mem (by decide : (0 : Int) ≤ 100) hright).2
  have hy := (Saturating.add_mem h hdown).2
  have hcolumns : max ({} : GridSettings).columns 1 = 6 := rfl
  simp only [cellPosition, hcolumns]
  simp only [Saturating.highest] at *
  omega

/-- A block starts below the headers of the packages around it. -/
theorem blockTop_le {top : Int} (h : 100 ≤ top) (depth : Nat) :
    100 ≤ blockTop {} top depth ∧ blockTop {} top depth ≤ top + 60 * depth := by
  obtain ⟨hheaders, hcount⟩ := Saturating.mul_ofNat_mem depth (by decide : (0 : Int) ≤ 60)
  have hup := Saturating.le_add top (Saturating.mul 60 (Saturating.ofNat depth Saturating.highest))
  have hdown := (Saturating.add_mem (by omega : 0 ≤ top) hheaders).2
  have hheader : Saturating.add ({} : PackageSettings).padding ({} : PackageSettings).header = 60 :=
    rfl
  simp only [blockTop, hheader]
  simp only [Saturating.highest] at *
  omega

/-- The next block starts a row for each cell below this one, or below the borders around it. -/
theorem nextTop_le {top : Int} (h : 0 ≤ top) (depth cells : Nat) (bounds : Bounds)
    (hbounds : 0 ≤ bounds.maxY) :
    nextTop {} {} top depth cells bounds
      ≤ max (top + 400 * cells) (bounds.maxY + 30 * depth + 50) := by
  obtain ⟨hdown, hrows⟩ := Saturating.ofNat_mul_mem ((cells + 6 - 1) / 6) (k := 400)
    (by decide : 0 ≤ Saturating.highest) (Int.le_refl _) (by decide)
  obtain ⟨hborders, hcount⟩ := Saturating.mul_ofNat_mem depth (by decide : (0 : Int) ≤ 30)
  have hrow := (Saturating.add_mem h hdown).2
  obtain ⟨hpadded, hborder⟩ := Saturating.add_mem hbounds hborders
  have hbelow := (Saturating.add_mem hpadded (by decide : (0 : Int) ≤ 50)).2
  have hcolumns : max ({} : GridSettings).columns 1 = 6 := rfl
  simp only [nextTop, rowsFor, hcolumns]
  omega

/-! ### What a block takes -/

/-- The characters that declare what is in some blocks, and the packages around each entry. -/
def load (start : Workspace) (key : ElementId → List Nat) (es : List LayoutEntry) : Nat :=
  start.charges (es.map LayoutEntry.element) + (es.map fun e => (key e.element).length).sum

section Load

variable {key : ElementId → List Nat} {es es' : List LayoutEntry}

theorem load_append : load start key (es ++ es') = load start key es + load start key es' := by
  simp only [load, Workspace.charges, List.map_append, List.sum_append]
  omega

/-- In a block every entry has the same packages around. -/
theorem load_of_depth (start : Workspace) {depth : Nat}
    (h : ∀ e ∈ es, (key e.element).length = depth) :
    load start key es = start.charges (es.map LayoutEntry.element) + es.length * depth := by
  rw [load, List.map_congr_left h, List.map_const', List.sum_replicate, Nat.nsmul_eq_mul]

end Load

omit [ModelStore σ] [BackedStore σ] in
/-- A block that starts at `top` ends a row below it for each cell, not counting the last one, and
the height of one entry. -/
theorem Filled.bounds_le {top : Int} {members : List ElementId} {f : Filling σ}
    {es : List LayoutEntry} (h : Filled {} start p top members f es) (htop : 100 ≤ top)
    (hmembers : ∀ m ∈ members, Placeable start m) {e : LayoutEntry} (he : e ∈ es) :
    100 ≤ e.bounds.minX ∧ e.bounds.maxX ≤ 4160 + 10 * start.charge e.element ∧
      e.bounds.maxY + 400 ≤ top + 400 * es.length + 15 * start.charge e.element := by
  obtain ⟨cell, hcell, hfill⟩ := h.exists_fills he
  obtain ⟨hleft, hright, hdown⟩ := cellPosition_le (by omega : 0 ≤ top) cell
  obtain ⟨hwidth, hheight⟩ := hfill.size_le (hmembers _ (h.mem_members e he)) fun width hwidth => by
    have hname := GridSettings.widthFor_le (ModelStore.nameOf start e.element)
    obtain rfl := Option.some.inj hwidth
    exact hname.trans (Int.add_le_add_right (by decide) _)
  simp only [LayoutEntry.bounds, Point.toBounds, hfill.position_eq, cellSpot]
  omega

omit [ModelStore σ] [BackedStore σ] in
/-- What the block takes, the borders around it included, is paid for by what is in it. -/
theorem Filled.takes_le {top : Int} {members : List ElementId} {f : Filling σ}
    {es : List LayoutEntry} (h : Filled {} start p top members f es)
    (hmembers : ∀ m ∈ members, Placeable start m) {key : ElementId → List Nat} {path : List Nat}
    (hkey : ∀ m ∈ members, key m = path) {e : LayoutEntry} (he : e ∈ es) :
    start.charge e.element ≤ load start key es ∧
      400 * es.length + 50 + 15 * start.charge e.element + 90 * path.length
        ≤ 90 * load start key es := by
  have hdepth : ∀ e ∈ es, (key e.element).length = path.length := fun e he =>
    congrArg List.length (hkey _ (h.mem_members e he))
  have hload := load_of_depth start hdepth
  have hcharge : start.charge e.element ≤ start.charges (es.map LayoutEntry.element) :=
    Workspace.charge_le_charges (List.mem_map_of_mem he)
  have hcount : 6 * (es.map LayoutEntry.element).length
      ≤ start.charges (es.map LayoutEntry.element) :=
    Workspace.length_le_charges
      (List.forall_mem_map.2 fun e he => (hmembers _ (h.mem_members e he)).isSome_kind?)
  have hlength := List.length_pos_of_mem he
  have hborders : path.length ≤ es.length * path.length := Nat.le_mul_of_pos_left _ hlength
  rw [List.length_map] at hcount
  omega

/-! ### One block after the other -/

/-- A grid that has not left the area for what is on it: the top of the next block, and what has
been placed. -/
structure Stays (start : Workspace) (key : ElementId → List Nat) (top : Int)
    (es : List LayoutEntry) : Prop where
  le_top : 100 ≤ top
  top_le : top ≤ 100 + 90 * load start key es
  inside : ∀ e ∈ es, (areaFor (load start key es)).contains e.bounds

/-- **One block** stays in the area for what is in it and above. -/
theorem Stays.placeGroup {key : ElementId → List Nat} {state : Placement σ × Int}
    {es : List LayoutEntry} {group : Group} {rest : List ElementId}
    (h : Stays start key state.2 es)
    (hawaiting : Awaiting start state.1 (group.members ++ rest))
    (hkey : ∀ m ∈ group.members, key m = group.key)
    (hmembers : ∀ m ∈ group.members, Placeable start m) :
    Awaiting start (placeGroup {} {} state group).1 rest ∧
      ∃ es', (placeGroup {} {} state group).1.entries = state.1.entries ++ es' ∧
        Stays start key (placeGroup {} {} state group).2 (es ++ es') := by
  have hforward : Forward {} {} := ⟨by decide, by decide, by decide, by decide⟩
  obtain ⟨hdown, hheaders⟩ := blockTop_le h.le_top group.depth
  obtain ⟨hrest, es', hfilled⟩ :=
    filled_fillBlock {} (blockTop {} state.2 group.depth) hawaiting
  have hbounds := fun e he => hfilled.bounds_le hdown hmembers (e := e) he
  have htakes := fun e he => hfilled.takes_le hmembers hkey (e := e) he
  have hcell := hfilled.inCell hforward (Saturating.add_le_highest _ _)
  have hbefore := h.top_le
  simp only [Grid.placeGroup]
  split
  · next hnone =>
      rw [hfilled.bounds_eq, Bounds.mergeAll_eq_none, List.map_eq_nil_iff] at hnone
      subst hnone
      exact ⟨hrest, [], hfilled.entries_eq, by rwa [List.append_nil]⟩
  · next bounds hsome =>
      rw [hfilled.bounds_eq] at hsome
      obtain ⟨-, b, hb, hlowest⟩ := Bounds.mergeAll_attains hsome
      obtain ⟨last, hlast, rfl⟩ := List.mem_map.1 hb
      obtain ⟨-, -, hlow⟩ := hbounds last hlast
      obtain ⟨htop, hheight, -⟩ := hcell last hlast
      have htake := (htakes last hlast).2
      have hnext := nextTop_le (by omega : 0 ≤ blockTop {} state.2 group.depth) group.depth
        es'.length bounds (by omega)
      have hlater := (le_nextTop hforward (blockTop {} state.2 group.depth) group.depth
        es'.length bounds).1
      rw [hfilled.cells_eq]
      refine ⟨hrest, es', hfilled.entries_eq, ?_, ?_, fun e he => ?_⟩
      · simp only [Saturating.highest] at hlater
        omega
      · rw [load_append]
        simp only [Group.depth] at *
        omega
      · rw [load_append]
        rcases List.mem_append.1 he with he | he
        · exact Bounds.contains_trans (areaFor_contains (Nat.le_add_right _ _)) (h.inside e he)
        · obtain ⟨hleft, hright, hlow⟩ := hbounds e he
          obtain ⟨hcharge, htake⟩ := htakes e he
          obtain ⟨htop, -, -⟩ := hcell e he
          simp only [Group.depth, areaFor, Bounds.contains_iff] at *
          omega

/-- **The whole grid**: the groups go one below the other. -/
theorem Stays.foldl_placeGroup {key : ElementId → List Nat} {groups : List Group}
    {state : Placement σ × Int} {es : List LayoutEntry} (h : Stays start key state.2 es)
    (hawaiting : Awaiting start state.1 (groups.flatMap Group.members))
    (hkey : ∀ group ∈ groups, ∀ m ∈ group.members, key m = group.key)
    (hmembers : ∀ group ∈ groups, ∀ m ∈ group.members, Placeable start m) :
    ∃ es', (groups.foldl (Grid.placeGroup {} {}) state).1.entries = state.1.entries ++ es' ∧
      Stays start key (groups.foldl (Grid.placeGroup {} {}) state).2 (es ++ es') := by
  induction groups generalizing state es with
  | nil => exact ⟨[], (List.append_nil _).symm, by rwa [List.append_nil]⟩
  | cons group groups ih =>
      rw [List.flatMap_cons] at hawaiting
      obtain ⟨hnext, first, hfirst, hstays⟩ := h.placeGroup hawaiting
        (hkey group List.mem_cons_self) (hmembers group List.mem_cons_self)
      obtain ⟨es', hentries, hend⟩ := ih hstays hnext
        (fun b hb => hkey b (List.mem_cons_of_mem _ hb))
        fun b hb => hmembers b (List.mem_cons_of_mem _ hb)
      refine ⟨first ++ es', ?_, ?_⟩
      · rw [List.foldl_cons, hentries, hfirst, List.append_assoc]
      · rw [← List.append_assoc]
        exact hend

omit [ViewStore σ] in
/-- What is in a group can be placed. -/
theorem placeable_of_mem_groups {roots : List ElementId} (hkind : ∀ e, p.kind? e = start.kind? e)
    {group : Group} (h : group ∈ groups p roots) {m : ElementId} (hm : m ∈ group.members) :
    Placeable start m := by
  rw [groups_eq_map_keys] at h
  obtain ⟨key, -, rfl⟩ := List.mem_map.1 h
  have hany := (List.mem_filter.1 (List.mem_filter.1 hm).1).2
  exact placeable_of_any (hkind m ▸ hany)

/-- **A grid stays in an area** that grows with the characters that declare what is on it and with
the packages around each entry. -/
theorem within_arrange {roots : List ElementId}
    (h : Awaiting start p ((groups p roots).flatMap Group.members)) :
    ∃ es, (arrange p roots {} {}).entries = p.entries ++ es ∧
      ∀ e ∈ es, (areaFor (load start (groupKey p roots) es)).contains e.bounds := by
  have hempty : Stays start (groupKey p roots) (p, ({} : GridSettings).originY).2 [] :=
    ⟨Int.le_refl _, by simp [load, Workspace.charges], by simp⟩
  obtain ⟨es, hentries, hstays⟩ := Stays.foldl_placeGroup hempty h
    (fun b hb m hm => key_of_mem_groups hb hm)
    fun b hb m hm => placeable_of_mem_groups h.running.kind?_eq hb hm
  exact ⟨es, hentries, hstays.inside⟩

end Grid

end UmlText
