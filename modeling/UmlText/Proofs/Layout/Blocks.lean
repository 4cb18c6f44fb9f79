import Mathlib.Algebra.Order.Ring.Int
import UmlText.Layout.Grid
import UmlText.Proofs.Geometry
import UmlText.Proofs.Layout.Moving
import UmlText.Proofs.Layout.Sorting
import UmlText.Proofs.Layout.Spots
import UmlText.Proofs.Layout.Strategies

/-!
# UmlText.Proofs.Layout.Blocks

**Blocks of the grid stand one below the other.** Every group of elements has a block of rows, and
between two blocks there is room for the borders of all packages around them, unless the grid ends
before (`Grid.stacked_arrange`). The blocks come in the order of their keys. With the usual settings
the room is arithmetic with numerals (`Grid.spread_arrange`).
-/

namespace UmlText

universe u

open BackedStore (workspace)
open ModelStore (owningPackage?)
open Placement (Awaiting Running)

/-! ### The grid has an end -/

namespace Saturating

theorem ofNat_nonneg (n : Nat) (fallback : Int) (h : 0 ≤ fallback) : 0 ≤ ofNat n fallback := by
  unfold ofNat
  split <;> omega

theorem ofNat_highest (n : Nat) : ofNat n highest = min highest n := by
  unfold ofNat
  split <;> omega

/-- A sum may stop at the end of the grid, but before its border at the top it is none too small. -/
theorem le_add (a b : Int) : min highest (a + b) ≤ add a b := by
  simp only [add, clamp]
  omega

theorem add_le_highest (a b : Int) : add a b ≤ highest := by
  simp only [add, clamp, highest, lowest]
  omega

theorem add_of_nonneg {a b : Int} (ha : 0 ≤ a) (hb : 0 ≤ b) : add a b = min highest (a + b) := by
  simp only [add, clamp, highest, lowest]
  omega

theorem mul_nonneg {a b : Int} (ha : 0 ≤ a) (hb : 0 ≤ b) : 0 ≤ mul a b := by
  have hproduct := Int.mul_nonneg ha hb
  simp only [mul, clamp, highest, lowest]
  omega

/-- A product with a count stops at the end of the grid, and only there. -/
theorem mul_ofNat {a : Int} (ha : 0 ≤ a) (n : Nat) :
    mul a (ofNat n highest) = min highest (a * n) := by
  have hproduct : 0 ≤ a * n := Int.mul_nonneg ha (Int.natCast_nonneg n)
  rw [ofNat_highest]
  rcases Int.le_total (n : Int) highest with hle | hle
  · rw [Int.min_eq_right hle]
    simp only [mul, clamp, highest, lowest]
    omega
  · -- The count is beyond the end, and so is any product with it but zero.
    rw [Int.min_eq_left hle]
    rcases ha.eq_or_lt with rfl | hpos
    · simp [mul, clamp, highest, lowest]
    · have hone : 1 * highest ≤ a * highest :=
        Int.mul_le_mul_of_nonneg_right hpos (by decide)
      have hmore : a * highest ≤ a * n := Int.mul_le_mul_of_nonneg_left hle ha
      simp only [mul, clamp, highest, lowest] at hone hmore ⊢
      omega

end Saturating

namespace Grid

/-- Settings that only ever go on to the right and down. -/
structure Forward (g : GridSettings) (s : PackageSettings) : Prop where
  rowSpacing : 0 ≤ g.rowSpacing
  padding : 0 ≤ s.padding
  header : 0 ≤ s.header
  spacing : 0 ≤ s.spacing

/-- The headers of the packages around an element fit on the grid, or it has no negative heights. -/
def HeadersFit (g : GridSettings) (s : PackageSettings) (depth : Nat) : Prop :=
  0 ≤ g.originY ∨ (s.padding + s.header) * depth ≤ Saturating.highest

variable {g : GridSettings} {s : PackageSettings}

/-- A block starts below the headers of the packages around it. -/
theorem blockTop_eq (h : Forward g s) (top : Int) (depth : Nat) :
    blockTop s top depth
      = Saturating.add top (min Saturating.highest ((s.padding + s.header) * depth)) := by
  have hheader : 0 ≤ s.padding + s.header := by
    have := h.padding
    have := h.header
    omega
  have hclipped : 0 ≤ min Saturating.highest (s.padding + s.header) :=
    Int.le_min.2 ⟨by decide, hheader⟩
  simp only [blockTop, Saturating.add_of_nonneg h.padding h.header, Saturating.mul_ofNat hclipped]
  congr 1
  -- Headers that are larger than the grid are beyond its end however many they are.
  rcases Int.le_total (s.padding + s.header) Saturating.highest with hle | hle
  · rw [Int.min_eq_right hle]
  · rw [Int.min_eq_left hle]
    cases depth with
    | zero => simp
    | succ n =>
        have hone : Saturating.highest * 1 ≤ Saturating.highest * ((n + 1 : Nat) : Int) :=
          Int.mul_le_mul_of_nonneg_left (by omega) (by decide)
        have hmore : Saturating.highest * ((n + 1 : Nat) : Int)
            ≤ (s.padding + s.header) * ((n + 1 : Nat) : Int) :=
          Int.mul_le_mul_of_nonneg_right hle (by omega)
        omega

theorem Forward.headers_nonneg (h : Forward g s) (depth : Nat) :
    0 ≤ s.padding * depth ∧ s.padding * depth ≤ (s.padding + s.header) * depth := by
  have hpadding := Int.mul_nonneg h.padding (Int.natCast_nonneg depth)
  have hheader := Int.mul_nonneg h.header (Int.natCast_nonneg depth)
  rw [Int.add_mul]
  omega

theorem le_blockTop (h : Forward g s) (top : Int) (depth : Nat) :
    min Saturating.highest top ≤ blockTop s top depth ∧
      blockTop s top depth ≤ Saturating.highest ∧
      (0 ≤ top ∨ (s.padding + s.header) * depth ≤ Saturating.highest →
        min Saturating.highest (top + (s.padding + s.header) * depth) ≤ blockTop s top depth) := by
  have hheaders := h.headers_nonneg depth
  rw [blockTop_eq h]
  have hle := Saturating.le_add top (min Saturating.highest ((s.padding + s.header) * depth))
  have hend := Saturating.add_le_highest top
    (min Saturating.highest ((s.padding + s.header) * depth))
  simp only [Saturating.highest] at hle hend ⊢
  omega

theorem le_cellPosition (h : Forward g s) {top : Int} (hend : top ≤ Saturating.highest)
    (cell : Nat) : top ≤ (cellPosition g top cell).y := by
  have hrow : 0 ≤ Saturating.mul (Saturating.ofNat (cell / max g.columns 1) Saturating.highest)
      g.rowSpacing :=
    Saturating.mul_nonneg (Saturating.ofNat_nonneg _ _ (by decide)) h.rowSpacing
  have hle := Saturating.le_add top
    (Saturating.mul (Saturating.ofNat (cell / max g.columns 1) Saturating.highest) g.rowSpacing)
  simp only [cellPosition]
  omega

/-- The next block starts below this one and below the borders around it. -/
theorem le_nextTop (h : Forward g s) (start : Int) (depth cells : Nat) (bounds : Bounds) :
    min Saturating.highest start ≤ nextTop g s start depth cells bounds ∧
      (0 ≤ bounds.maxY ∨ s.padding * depth ≤ Saturating.highest →
        min Saturating.highest (bounds.maxY + s.padding * depth + s.spacing)
          ≤ nextTop g s start depth cells bounds) := by
  have hpadding := h.headers_nonneg depth
  have hspacing := h.spacing
  have hrows : 0 ≤ Saturating.mul (rowsFor g cells) g.rowSpacing :=
    Saturating.mul_nonneg (Saturating.ofNat_nonneg _ _ (by decide)) h.rowSpacing
  have hnext := Saturating.le_add start (Saturating.mul (rowsFor g cells) g.rowSpacing)
  have hborder := Saturating.le_add bounds.maxY (min Saturating.highest (s.padding * depth))
  have hbelow := Saturating.le_add
    (Saturating.add bounds.maxY (min Saturating.highest (s.padding * depth))) s.spacing
  simp only [nextTop, Saturating.mul_ofNat h.padding]
  simp only [Saturating.highest] at hnext hborder hbelow ⊢
  omega

end Grid

theorem Workspace.nodeSize_height (e : Element) : 0 < (nodeSize e).height := by
  unfold nodeSize
  split
  case h_4 | h_5 | h_6 =>
      have hmembers := Saturating.ofNat_nonneg e.memberCount (Saturating.highest / 2) (by decide)
      simp only [Saturating.add, Saturating.mul, Saturating.clamp, Saturating.highest,
        Saturating.lowest] at hmembers ⊢
      omega
  all_goals decide

namespace Grid

variable {σ : Type u} [ModelStore σ] [ViewStore σ] [BackedStore σ]
  {g : GridSettings} {s : PackageSettings}

/-! ### Filling a block -/

/-- Where the first cell of every block begins. -/
def leftEdge (g : GridSettings) : Int := (cellPosition g 0 0).x

/-- An entry in a cell of a block that starts at `top`. -/
structure InCell (g : GridSettings) (top : Int) (e : LayoutEntry) : Prop where
  top_le : top ≤ e.bounds.minY
  height_pos : e.bounds.minY < e.bounds.maxY
  width_ge : e.bounds.minX + g.minWidth ≤ e.bounds.maxX

/-- The spot of an element in a cell of a block that starts at `top`: as wide as its name. -/
def cellSpot (g : GridSettings) (start : Workspace) (top : Int) (cell : Nat) (element : ElementId) :
    Spot :=
  ⟨element, cellPosition g top cell, some (g.widthFor (ModelStore.nameOf start element))⟩

/-- A block being filled from `top` on with some of `members`: what has been added to `p`. -/
structure Filled (g : GridSettings) (start : Workspace) (p : Placement σ) (top : Int)
    (members : List ElementId) (f : Filling σ) (es : List LayoutEntry) : Prop where
  entries_eq : f.placement.entries = p.entries ++ es
  cells_eq : f.cells = es.length
  bounds_eq : f.bounds = Bounds.mergeAll (es.map LayoutEntry.bounds)
  mem_members : ∀ e ∈ es, e.element ∈ members
  /-- No cell is left out. -/
  fills : ∀ cell e, es[cell]? = some e → Fills start e (cellSpot g start top cell e.element)

omit [ModelStore σ] [BackedStore σ] in
theorem Filled.exists_fills {start : Workspace} {p : Placement σ} {top : Int}
    {members : List ElementId} {f : Filling σ} {es : List LayoutEntry}
    (h : Filled g start p top members f es) {e : LayoutEntry} (he : e ∈ es) :
    ∃ cell < es.length, Fills start e (cellSpot g start top cell e.element) := by
  obtain ⟨cell, hcell⟩ := List.mem_iff_getElem?.1 he
  exact ⟨cell, (List.getElem?_eq_some_iff.1 hcell).1, h.fills cell e hcell⟩

omit [ModelStore σ] [BackedStore σ] in
/-- Every cell is at the top of the block or further down. -/
theorem Filled.inCell {start : Workspace} {p : Placement σ} {top : Int} {members : List ElementId}
    {f : Filling σ} {es : List LayoutEntry} (h : Filled g start p top members f es)
    (hg : Forward g s) (hend : top ≤ Saturating.highest) : ∀ e ∈ es, InCell g top e := by
  intro e he
  obtain ⟨cell, -, hfill⟩ := h.exists_fills he
  obtain ⟨model, -, hsize⟩ := hfill.size_eq
  have htop := le_cellPosition hg hend cell
  have hheight := Workspace.nodeSize_height model
  have hwidth : g.minWidth ≤ g.widthFor (ModelStore.nameOf start e.element) := Int.le_max_left _ _
  constructor <;>
    simp only [LayoutEntry.bounds, Point.toBounds, hfill.position_eq, hsize, cellSpot,
      Option.getD_some] <;> omega

omit [ModelStore σ] [BackedStore σ] in
/-- The first entry is at the left edge of the grid. -/
theorem Filled.flush {start : Workspace} {p : Placement σ} {top : Int} {members : List ElementId}
    {f : Filling σ} {es : List LayoutEntry} (h : Filled g start p top members f es) :
    ∀ e ∈ es.head?, e.bounds.minX = leftEdge g := by
  intro e he
  have hfill := h.fills 0 e (List.head?_eq_getElem? ▸ he)
  rw [LayoutEntry.bounds, hfill.position_eq]
  rfl

theorem filled_add {start : Workspace} {p : Placement σ} {top : Int} {members rest : List ElementId}
    {f : Filling σ} {es : List LayoutEntry} {element : ElementId}
    (h : Filled g start p top members f es)
    (hawaiting : Awaiting start f.placement (element :: rest)) (hmem : element ∈ members) :
    Awaiting start (f.add g top element).placement rest ∧
      ∃ es', Filled g start p top members (f.add g top element) es' := by
  have hspot : Awaiting start f.placement
      ((cellSpot g start top f.cells element).element :: rest) := hawaiting
  have hrest := hspot.afterSpot
  have hfills := hspot.fills_place
  simp only [Filling.add, hawaiting.running.nameOf_eq]
  simp only [Placement.placeSpot, cellSpot] at hrest hfills
  rcases hplace : f.placement.place element (cellPosition g top f.cells)
    (some (g.widthFor (ModelStore.nameOf start element))) with ⟨placed, q⟩
  rw [hplace] at hrest hfills
  rcases hfills with ⟨rfl, hentries⟩ | ⟨new, rfl, hentries, hfill⟩
  · exact ⟨hrest, es, { h with entries_eq := hentries.trans h.entries_eq }⟩
  have hentries : q.entries = f.placement.entries ++ [new] := hentries
  have hbounds : q.boundsOf? new.view = some new.bounds :=
    Placement.boundsOf?_eq (by rw [hentries]; simp)
  have helement : new.element = element := hfill.element_eq
  simp only [hbounds]
  refine ⟨hrest, es ++ [new], ?_, ?_, ?_, ?_, ?_⟩
  · rw [hentries, h.entries_eq, List.append_assoc]
  · simp [h.cells_eq]
  · rw [h.bounds_eq, List.map_append, Bounds.mergeAll_append]
    cases Bounds.mergeAll (es.map LayoutEntry.bounds) <;> rfl
  · simpa [or_imp, forall_and, helement, hmem] using h.mem_members
  · -- The new entry is in the cell behind the others.
    intro cell e he
    rcases Nat.lt_or_ge cell es.length with hlt | hge
    · rw [List.getElem?_append_left hlt] at he
      exact h.fills cell e he
    · rw [List.getElem?_append_right hge, List.getElem?_singleton] at he
      split at he
      · next hlast =>
          obtain rfl := Option.some.inj he
          obtain rfl : cell = f.cells := by rw [h.cells_eq]; omega
          rw [helement]
          exact hfill
      · cases he

/-- A group fills its block. -/
theorem filled_fillBlock (g : GridSettings) (top : Int) {start : Workspace} {p : Placement σ}
    {members rest : List ElementId} (h : Awaiting start p (members ++ rest)) :
    Awaiting start (fillBlock p g top members).placement rest ∧
      ∃ es, Filled g start p top members (fillBlock p g top members) es := by
  have hfold : ∀ (ms : List ElementId) (f : Filling σ) (es : List LayoutEntry),
      (∀ m ∈ ms, m ∈ members) → Awaiting start f.placement (ms ++ rest) →
        Filled g start p top members f es →
          Awaiting start (ms.foldl (Filling.add g top) f).placement rest ∧
            ∃ es', Filled g start p top members (ms.foldl (Filling.add g top) f) es' := by
    intro ms
    induction ms with
    | nil => exact fun f es _ hawaiting hfilled => ⟨hawaiting, es, hfilled⟩
    | cons m ms ih =>
        intro f es hmem hawaiting hfilled
        obtain ⟨hnext, es', hfilled'⟩ :=
          filled_add hfilled hawaiting (hmem m List.mem_cons_self)
        exact ih _ es' (fun m' hm' => hmem m' (List.mem_cons_of_mem _ hm')) hnext hfilled'
  refine hfold members { placement := p } [] (fun m hm => hm) h ?_
  constructor <;> simp [Bounds.mergeAll]

/-! ### One block after the other -/

/-- Entries in blocks by their keys: there is room between the blocks for the borders of all
packages around the upper one, and for the headers of all packages around the lower one. -/
structure Stacked (g : GridSettings) (s : PackageSettings) (key : ElementId → List Nat)
    (es : List LayoutEntry) : Prop where
  height_pos : ∀ e ∈ es, e.bounds.minY < e.bounds.maxY
  width_ge : ∀ e ∈ es, e.bounds.minX + g.minWidth ≤ e.bounds.maxX
  /-- Every block begins at the left edge of the grid. -/
  flush : ∀ e ∈ es, ∃ e' ∈ es, key e'.element = key e.element ∧ e'.bounds.minX = leftEdge g
  sorted : es.Pairwise fun e e' => keyLE (key e.element) (key e'.element)
  gap : ∀ e ∈ es, ∀ e' ∈ es, keyLE (key e.element) (key e'.element) →
    key e.element ≠ key e'.element → HeadersFit g s (key e.element).length →
    HeadersFit g s (key e'.element).length → e'.bounds.maxY ≤ Saturating.highest →
      e.bounds.maxY + s.padding * (key e.element).length + s.spacing +
        (s.padding + s.header) * (key e'.element).length ≤ e'.bounds.minY

/-- A grid with some blocks in place: what has been added to the run `p`, and the top of the next
block. -/
structure Laid (g : GridSettings) (s : PackageSettings) (p : Placement σ)
    (key : ElementId → List Nat) (state : Placement σ × Int) (es : List LayoutEntry) : Prop where
  entries_eq : state.1.entries = p.entries ++ es
  originY_le : min Saturating.highest g.originY ≤ state.2
  le_top : ∀ e ∈ es, HeadersFit g s (key e.element).length →
    min Saturating.highest
      (e.bounds.maxY + s.padding * (key e.element).length + s.spacing) ≤ state.2
  stacked : Stacked g s key es

/-- A block goes below those before it. -/
theorem Stacked.append {key : ElementId → List Nat} {es es' : List LayoutEntry} {top start : Int}
    {group : List Nat} (h : Stacked g s key es) (hg : Forward g s)
    (hle : ∀ e ∈ es, HeadersFit g s (key e.element).length →
      min Saturating.highest
        (e.bounds.maxY + s.padding * (key e.element).length + s.spacing) ≤ top)
    (hstart : HeadersFit g s group.length →
      min Saturating.highest (top + (s.padding + s.header) * group.length) ≤ start)
    (hbefore : ∀ e ∈ es, keyLE (key e.element) group ∧ key e.element ≠ group)
    (hkey : ∀ e ∈ es', key e.element = group) (hcell : ∀ e ∈ es', InCell g start e)
    (hflush : ∀ e ∈ es'.head?, e.bounds.minX = leftEdge g) :
    Stacked g s key (es ++ es') := by
  refine ⟨?_, ?_, ?_, ?_, ?_⟩
  · exact fun e he => (List.mem_append.1 he).elim (h.height_pos e) fun he => (hcell e he).height_pos
  · exact fun e he => (List.mem_append.1 he).elim (h.width_ge e) fun he => (hcell e he).width_ge
  · intro e he
    rcases List.mem_append.1 he with he | he
    · obtain ⟨e', he', hsame, hleft⟩ := h.flush e he
      exact ⟨e', List.mem_append_left _ he', hsame, hleft⟩
    · cases es' with
      | nil => cases he
      | cons first rest =>
          exact ⟨first, by simp, by rw [hkey e he, hkey first (by simp)], hflush first rfl⟩
  · refine List.pairwise_append.2 ⟨h.sorted, ?_, fun e he e' he' => ?_⟩
    · refine List.pairwise_of_forall_mem_list fun e he e' he' => ?_
      rw [hkey e he, hkey e' he']
      exact keyLE_refl group
    · rw [hkey e' he']
      exact (hbefore e he).1
  · intro e he e' he' hkeyLE hne hfit hfit' hend
    rcases List.mem_append.1 he with he | he <;> rcases List.mem_append.1 he' with he' | he'
    · exact h.gap e he e' he' hkeyLE hne hfit hfit' hend
    · have hend' := hle e he hfit
      obtain ⟨hbelow, hheight, -⟩ := hcell e' he'
      rw [hkey e' he'] at hfit' ⊢
      have hstart := hstart hfit'
      have hheaders := hg.headers_nonneg group.length
      simp only [Saturating.highest] at hend hend' hstart
      omega
    · obtain ⟨hle', hne'⟩ := hbefore e' he'
      rw [hkey e he] at hkeyLE
      exact absurd (keyLE_antisymm hle' hkeyLE) hne'
    · exact absurd ((hkey e he).trans (hkey e' he').symm) hne

/-- The next block starts below what is in this one, with room for the borders around it. -/
theorem InCell.le_nextTop {e : LayoutEntry} {start : Int} (h : InCell g start e) (hg : Forward g s)
    (hstart : 0 ≤ g.originY → 0 ≤ start) {depth : Nat} (hfit : HeadersFit g s depth) (cells : Nat)
    {bounds : Bounds} (hbounds : e.bounds.maxY ≤ bounds.maxY) :
    min Saturating.highest (e.bounds.maxY + s.padding * depth + s.spacing)
      ≤ nextTop g s start depth cells bounds := by
  obtain ⟨htop, hheight, -⟩ := h
  have hheaders := hg.headers_nonneg depth
  have hroom : 0 ≤ bounds.maxY ∨ s.padding * depth ≤ Saturating.highest := by
    refine hfit.imp (fun hpositive => ?_) (Int.le_trans hheaders.2)
    have hnonneg := hstart hpositive
    omega
  have hbelow := (Grid.le_nextTop hg start depth cells bounds).2 hroom
  simp only [Saturating.highest] at hbelow ⊢
  omega

/-- The members of a group go into a block of their own, below the others. -/
theorem Laid.placeGroup {start : Workspace} {p : Placement σ} {key : ElementId → List Nat}
    {state : Placement σ × Int} {es : List LayoutEntry} {group : Group} {rest : List ElementId}
    (h : Laid g s p key state es) (hg : Forward g s)
    (hawaiting : Awaiting start state.1 (group.members ++ rest))
    (hkey : ∀ m ∈ group.members, key m = group.key)
    (hbefore : ∀ e ∈ es, keyLE (key e.element) group.key ∧ key e.element ≠ group.key) :
    Awaiting start (placeGroup g s state group).1 rest ∧
      ∃ es', (∀ e ∈ es', key e.element = group.key) ∧
        Laid g s p key (placeGroup g s state group) (es ++ es') := by
  obtain ⟨hdown, hend, hstart⟩ := le_blockTop hg state.2 group.depth
  obtain ⟨hrest, es', hfilled⟩ := filled_fillBlock g _ hawaiting
  have hcell := hfilled.inCell hg hend
  have hkeys : ∀ e ∈ es', key e.element = group.key := fun e he =>
    hkey _ (hfilled.mem_members e he)
  have hentries :
      (fillBlock state.1 g (blockTop s state.2 group.depth) group.members).placement.entries
        = p.entries ++ (es ++ es') := by
    rw [hfilled.entries_eq, h.entries_eq, List.append_assoc]
  have horigin : min Saturating.highest g.originY ≤ blockTop s state.2 group.depth :=
    Int.le_trans (Int.le_min.2 ⟨Int.min_le_left _ _, h.originY_le⟩) hdown
  have hnonneg : ∀ {top : Int}, min Saturating.highest g.originY ≤ top → 0 ≤ g.originY → 0 ≤ top :=
    fun hle hnonneg => Int.le_trans (Int.le_min.2 ⟨by decide, hnonneg⟩) hle
  have hstacked : Stacked g s key (es ++ es') :=
    h.stacked.append hg h.le_top (fun hfit => hstart (hfit.imp (hnonneg h.originY_le) id))
      hbefore hkeys hcell hfilled.flush
  simp only [Grid.placeGroup]
  split
  · next hnone =>
      -- Nothing was placed, so the next block starts where this one would have.
      rw [hfilled.bounds_eq, Bounds.mergeAll_eq_none, List.map_eq_nil_iff] at hnone
      subst hnone
      rw [List.append_nil] at hentries hstacked
      exact ⟨hrest, [], hkeys, by rw [List.append_nil]; exact { h with entries_eq := hentries }⟩
  · next bounds hsome =>
      rw [hfilled.bounds_eq] at hsome
      have haround : ∀ e ∈ es', e.bounds.maxY ≤ bounds.maxY := fun e he =>
        (Bounds.contains_iff.1 (Bounds.mergeAll_contains hsome (List.mem_map_of_mem he))).2.2.2
      obtain ⟨hnext, -⟩ := le_nextTop hg (blockTop s state.2 group.depth) group.depth
        (fillBlock state.1 g (blockTop s state.2 group.depth) group.members).cells bounds
      refine ⟨hrest, es', hkeys, hentries, ?_, ?_, hstacked⟩
      · exact Int.le_trans (Int.le_min.2 ⟨Int.min_le_left _ _, horigin⟩) hnext
      · intro e he hfit
        rcases List.mem_append.1 he with he | he
        · have htop := h.le_top e he hfit
          simp only [Saturating.highest] at htop hdown hnext ⊢
          omega
        · rw [hkeys e he] at hfit ⊢
          exact (hcell e he).le_nextTop hg (hnonneg horigin) hfit _ (haround e he)

/-- The groups go one below the other, if their keys are in order. -/
theorem Laid.foldl_placeGroup {start : Workspace} {p : Placement σ} {key : ElementId → List Nat}
    {groups : List Group} {state : Placement σ × Int} {es : List LayoutEntry}
    (h : Laid g s p key state es) (hg : Forward g s)
    (hawaiting : Awaiting start state.1 (groups.flatMap Group.members))
    (hkey : ∀ group ∈ groups, ∀ m ∈ group.members, key m = group.key)
    (hsorted : groups.Pairwise fun a b => keyLE a.key b.key ∧ a.key ≠ b.key)
    (hbefore : ∀ e ∈ es, ∀ group ∈ groups,
      keyLE (key e.element) group.key ∧ key e.element ≠ group.key) :
    ∃ es', Laid g s p key (groups.foldl (Grid.placeGroup g s) state) es' := by
  induction groups generalizing state es with
  | nil => exact ⟨es, h⟩
  | cons group groups ih =>
      obtain ⟨hfirst, hrest⟩ := List.pairwise_cons.1 hsorted
      rw [List.flatMap_cons] at hawaiting
      obtain ⟨hnext, es', hkeys, hlaid⟩ := h.placeGroup hg hawaiting
        (hkey group List.mem_cons_self) fun e he => hbefore e he group List.mem_cons_self
      refine ih hlaid hnext (fun b hb => hkey b (List.mem_cons_of_mem _ hb)) hrest ?_
      intro e he b hb
      rcases List.mem_append.1 he with he | he
      · exact hbefore e he b (List.mem_cons_of_mem _ hb)
      · rw [hkeys e he]
        exact hfirst b hb

omit [ViewStore σ] [BackedStore σ] in
/-- The keys of the groups are in order. -/
theorem pairwise_groups (p : Placement σ) (roots : List ElementId) :
    (groups p roots).Pairwise fun g g' => keyLE g.key g'.key ∧ g.key ≠ g'.key := by
  unfold groups
  rw [List.pairwise_map]
  refine List.Pairwise.and ?_ ?_
  · exact List.pairwise_mergeSort keyLE_trans keyLE_total _
  · exact (List.mergeSort_perm _ _).nodup_iff.2 (nodup_eraseDups _)

omit [ViewStore σ] [BackedStore σ] in
theorem key_of_mem_groups {p : Placement σ} {roots : List ElementId} {group : Group}
    (h : group ∈ groups p roots) {m : ElementId} (hm : m ∈ group.members) :
    groupKey p roots m = group.key := by
  rw [groups_eq_map_keys] at h
  obtain ⟨key, -, rfl⟩ := List.mem_map.1 h
  exact of_decide_eq_true (List.mem_filter.1 hm).2

/-- **The blocks of a grid** stand one below the other in the order of their keys, with room for all
package borders between them. -/
theorem stacked_arrange {start : Workspace} {p : Placement σ} {roots : List ElementId}
    (h : Awaiting start p ((groups p roots).flatMap Group.members)) (hg : Forward g s) :
    ∃ es, (arrange p roots g s).entries = p.entries ++ es ∧ Stacked g s (groupKey p roots) es := by
  have hempty : Laid g s p (groupKey p roots) (p, g.originY) [] :=
    { entries_eq := by simp
      originY_le := Int.min_le_right _ _
      le_top := by simp
      stacked := ⟨by simp, by simp, by simp, List.Pairwise.nil, by simp⟩ }
  obtain ⟨es, hlaid⟩ := hempty.foldl_placeGroup hg h (fun b hb m hm => key_of_mem_groups hb hm)
    (pairwise_groups p roots) (by simp)
  exact ⟨es, hlaid.entries_eq, hlaid.stacked⟩

/-! ### The usual settings -/

/-- Entries in blocks by their keys, with the usual settings. -/
structure Spread (key : ElementId → List Nat) (es : List LayoutEntry) : Prop where
  solid : ∀ e ∈ es, e.bounds.Solid
  /-- Every block begins at the left edge of the grid. -/
  flush : ∀ e ∈ es, ∃ e' ∈ es, key e'.element = key e.element ∧ e'.bounds.minX = 100
  gap : ∀ e ∈ es, ∀ e' ∈ es, keyLE (key e.element) (key e'.element) →
    key e.element ≠ key e'.element → e'.bounds.maxY ≤ Saturating.highest →
      e.bounds.maxY + 30 * (key e.element).length + 50 + 60 * (key e'.element).length
        ≤ e'.bounds.minY

/-- With the usual settings the blocks have at least 50 between their borders. -/
theorem spread_arrange {start : Workspace} {p : Placement σ} {roots : List ElementId}
    (h : Awaiting start p ((groups p roots).flatMap Group.members)) :
    ∃ es, (arrange p roots {} {}).entries = p.entries ++ es ∧ Spread (groupKey p roots) es := by
  obtain ⟨es, hentries, hstacked⟩ := stacked_arrange (g := {}) (s := {}) h
    ⟨by decide, by decide, by decide, by decide⟩
  have hfit : ∀ depth, HeadersFit {} {} depth := fun _ => .inl (by decide)
  refine ⟨es, hentries, fun e he => ⟨?_, hstacked.height_pos e he⟩, hstacked.flush, ?_⟩
  · have hwidth := hstacked.width_ge e he
    simp only at hwidth
    omega
  · intro e he e' he' hle hne hend
    exact hstacked.gap e he e' he' hle hne (hfit _) (hfit _) hend

end Grid

end UmlText
