import Mathlib.Data.List.Induction
import Mathlib.Data.List.Nodup
import UmlText.Proofs.Geometry
import UmlText.Proofs.Layout.Placing

/-!
# UmlText.Proofs.Layout.Moving

**Moving what is placed.** Once everything has its view, a layout changes bounds only: which views
there are and which of them is inside which stays as it is. So the entries tell all there is to know
of the run, and each operation is a map over them: a view that is given other bounds
(`entries_updateView`), and a view that is moved with everything inside it (`entries_translate`).

A container is numbered before what is inside it. That is why one pass finds all that is inside a
view (`mem_inside`), and why no view is inside itself.
-/

namespace UmlText

universe u

open BackedStore (workspace)
open ModelStore (owningPackage?)

variable {σ : Type u} [ModelStore σ] [ViewStore σ] [BackedStore σ]

/-! ### Other bounds -/

/-- A rectangle is told by its corner and its size. -/
theorem Bounds.toBounds_minPoint (b : Bounds) : b.minPoint.toBounds b.toSize = b := by
  cases b
  simp only [minPoint, toSize, Point.toBounds, width, height, mk.injEq, true_and]
  omega

theorem Point.toSize_toBounds (p : Point) (s : Size) : (p.toBounds s).toSize = s := by
  cases s
  simp only [toBounds, Bounds.toSize, Bounds.width, Bounds.height, Size.mk.injEq]
  omega

@[simp]
theorem Bounds.toSize_shift (b : Bounds) (dx dy : Int) : (b.shift dx dy).toSize = b.toSize := by
  simp only [shift, toSize, width, height, Size.mk.injEq]
  omega

/-- A view with its bounds changed. -/
def View.reshape (v : View) (r : Bounds → Bounds) : View :=
  v.setBounds (r v.bounds)

/-- An entry with its bounds changed. -/
def LayoutEntry.reshape (e : LayoutEntry) (r : Bounds → Bounds) : LayoutEntry :=
  { e with position := (r e.bounds).minPoint, size := (r e.bounds).toSize }

namespace LayoutEntry

variable (e : LayoutEntry) (r : Bounds → Bounds)

@[simp] theorem element_reshape : (e.reshape r).element = e.element := rfl

@[simp] theorem view_reshape : (e.reshape r).view = e.view := rfl

@[simp] theorem size_reshape : (e.reshape r).size = (r e.bounds).toSize := rfl

@[simp]
theorem bounds_reshape : (e.reshape r).bounds = r e.bounds :=
  Bounds.toBounds_minPoint _

@[simp]
theorem toSize_bounds : e.bounds.toSize = e.size :=
  Point.toSize_toBounds _ _

@[simp]
theorem reshape_id : e.reshape (fun b => b) = e := by
  rw [reshape, toSize_bounds]
  rfl

theorem reshape_reshape (r' : Bounds → Bounds) :
    (e.reshape r).reshape r' = e.reshape fun b => r' (r b) := by
  rw [reshape, bounds_reshape]
  rfl

end LayoutEntry

theorem View.shift_eq_reshape (v : View) (dx dy : Int) :
    v.shift dx dy = v.reshape (·.shift dx dy) := by
  rw [reshape, setBounds, Bounds.toSize_shift, bounds, Point.toSize_toBounds]
  rfl

namespace Placement

omit [ModelStore σ] in
theorem entryOf_reshape (element : ElementId) (v : View) (r : Bounds → Bounds) :
    entryOf element (v.reshape r) = (entryOf element v).reshape r := rfl

/-- The bounds of one view are changed; the entries of the others stay. -/
theorem entries_updateView (p : Placement σ) (view : ViewId) (r : Bounds → Bounds) :
    (p.updateView view (·.reshape r)).entries
      = p.entries.map fun e => if e.view = view then e.reshape r else e := by
  rw [entries_eq, entries_eq, List.map_filterMap]
  apply List.filterMap_congr
  intro x _
  simp only [updateView, BackedStore.workspace_updateView]
  rw [Workspace.view?_updateView (f := (·.reshape r)) _ _ _ fun v => rfl, Option.map_map,
    Option.map_map]
  cases hv : (workspace p.store).view? x.2 with
  | none => rfl
  | some v =>
      have hentry : (entryOf x.1 v).view = x.2 := id_of_view? hv
      by_cases hid : view = x.2
      · simp [hid, hentry, entryOf_reshape]
      · simp [hid, Ne.symm hid, hentry]

/-- A run after another in which only bounds were changed. -/
structure Redrawn (start : Workspace) (p q : Placement σ) : Prop where
  running : Running start q
  views_eq : q.views = p.views
  diagram_eq : q.diagram = p.diagram
  skipped_eq : q.skipped = p.skipped
  /-- Every entry is still there, with other bounds at most. -/
  entries_eq : ∃ r : ViewId → Bounds → Bounds,
    q.entries = p.entries.map fun e => e.reshape (r e.view)

namespace Redrawn

variable {start : Workspace} {p q : Placement σ}

theorem refl (h : Running start p) : Redrawn start p p :=
  ⟨h, rfl, rfl, rfl, fun _ b => b, by simp⟩

theorem trans {p' : Placement σ} (h : Redrawn start p q) (h' : Redrawn start q p') :
    Redrawn start p p' := by
  obtain ⟨r, hr⟩ := h.entries_eq
  obtain ⟨r', hr'⟩ := h'.entries_eq
  refine ⟨h'.running, h'.views_eq.trans h.views_eq, h'.diagram_eq.trans h.diagram_eq,
    h'.skipped_eq.trans h.skipped_eq, fun v b => r' v (r v b), ?_⟩
  rw [hr', hr, List.map_map]
  exact List.map_congr_left fun e _ => e.reshape_reshape _ _

/-- What an entry shows and where it belongs is not touched. -/
theorem mem_of_mem (h : Redrawn start p q) {e : LayoutEntry} (he : e ∈ q.entries) :
    ∃ e' ∈ p.entries, e'.element = e.element ∧ e'.view = e.view ∧ e'.container = e.container := by
  obtain ⟨r, hr⟩ := h.entries_eq
  rw [hr] at he
  obtain ⟨e', he', rfl⟩ := List.mem_map.1 he
  exact ⟨e', he', rfl, rfl, rfl⟩

/-- No entry is lost. -/
theorem exists_reshape (h : Redrawn start p q) {e : LayoutEntry} (he : e ∈ p.entries) :
    ∃ r, e.reshape r ∈ q.entries := by
  obtain ⟨r, hr⟩ := h.entries_eq
  exact ⟨r e.view, hr ▸ List.mem_map_of_mem he⟩

end Redrawn

/-- A run goes on when the bounds of a view are changed. -/
theorem Running.updateView {start : Workspace} {p : Placement σ} (h : Running start p)
    (view : ViewId) (r : Bounds → Bounds) :
    Running start (p.updateView view (·.reshape r)) := by
  have hentries := entries_updateView p view r
  have hmem : ∀ e ∈ (p.updateView view (·.reshape r)).entries, ∃ e' ∈ p.entries,
      e'.element = e.element ∧ e'.view = e.view ∧ e'.container = e.container := by
    intro e he
    rw [hentries] at he
    obtain ⟨e', he', rfl⟩ := List.mem_map.1 he
    refine ⟨e', he', ?_⟩
    split <;> exact ⟨rfl, rfl, rfl⟩
  have hw : workspace (p.updateView view (·.reshape r)).store
      = (workspace p.store).updateView view (·.reshape r) := by
    simp only [Placement.updateView, BackedStore.workspace_updateView]
  refine { h with
    elements_eq := by rw [hw]; exact h.elements_eq
    diagrams_eq := by rw [hw]; exact h.diagrams_eq
    view_lt := by rw [hw]; exact Workspace.view_lt_updateView h.view_lt view fun _ => rfl
    nextView_le := by rw [hw]; exact h.nextView_le
    shown := ?_
    container_eq := ?_
    container_lt := ?_ }
  · intro x hx
    obtain ⟨v, hv, hshown⟩ := h.shown x hx
    refine ⟨if view = x.2 then v.reshape r else v, ?_, ?_⟩
    · rw [hw, Workspace.view?_updateView (f := (·.reshape r)) _ _ _ fun v => rfl, hv]
      rfl
    · split <;> exact hshown
  · intro e he
    obtain ⟨e', he', helement, -, hcontainer⟩ := hmem e he
    rw [← hcontainer, ← helement]
    exact h.container_eq e' he'
  · intro e he c hc
    obtain ⟨e', he', -, hview, hcontainer⟩ := hmem e he
    rw [← hview]
    exact h.container_lt e' he' c (hcontainer ▸ hc)

theorem Running.redrawn_updateView {start : Workspace} {p : Placement σ} (h : Running start p)
    (view : ViewId) (r : Bounds → Bounds) :
    Redrawn start p (p.updateView view (·.reshape r)) := by
  refine ⟨h.updateView view r, rfl, rfl, rfl, fun v b => if v = view then r b else b, ?_⟩
  rw [entries_updateView]
  apply List.map_congr_left
  intro e _
  by_cases hview : e.view = view <;> simp [hview]

/-! ### Lookups in the entries -/

theorem boundsOf?_eq {p : Placement σ} {e : LayoutEntry} (he : e ∈ p.entries) :
    p.boundsOf? e.view = some e.bounds := by
  obtain ⟨v, -, hv, heq⟩ := mem_entries.1 he
  rw [boundsOf?, BackedStore.view?_eq, hv, heq]
  rfl

theorem containerOf?_eq {p : Placement σ} {e : LayoutEntry} (he : e ∈ p.entries) :
    p.containerOf? e.view = e.container := by
  obtain ⟨v, -, hv, heq⟩ := mem_entries.1 he
  rw [containerOf?, BackedStore.view?_eq, hv, heq]
  rfl

omit [ModelStore σ] [BackedStore σ] in
theorem mergedBounds?_perm (p : Placement σ) {vs vs' : List ViewId} (h : vs.Perm vs') :
    p.mergedBounds? vs = p.mergedBounds? vs' :=
  Bounds.mergeAll_perm (h.filterMap _)

omit [ModelStore σ] [BackedStore σ] in
theorem mergedBounds?_append (p : Placement σ) (vs vs' : List ViewId) :
    p.mergedBounds? (vs ++ vs') = Bounds.merge? (p.mergedBounds? vs) (p.mergedBounds? vs') := by
  rw [mergedBounds?, List.filterMap_append, Bounds.mergeAll_append]
  rfl

/-- The bounds of some views are those of their entries. -/
theorem mergedBounds?_map_view {p : Placement σ} {es : List LayoutEntry}
    (h : ∀ e ∈ es, e ∈ p.entries) :
    p.mergedBounds? (es.map LayoutEntry.view) = Bounds.mergeAll (es.map LayoutEntry.bounds) := by
  rw [mergedBounds?, List.filterMap_map]
  congr 1
  rw [← List.filterMap_eq_map]
  exact List.filterMap_congr fun e he => boundsOf?_eq (h e he)

/-- The entries directly inside a view. -/
def entriesIn (entries : List LayoutEntry) (container : ViewId) : List LayoutEntry :=
  entries.filter fun e => e.container = some container

omit [ModelStore σ] [ViewStore σ] [BackedStore σ] in
theorem mem_entriesIn {entries : List LayoutEntry} {container : ViewId} {e : LayoutEntry} :
    e ∈ entriesIn entries container ↔ e ∈ entries ∧ e.container = some container := by
  simp [entriesIn]

namespace Running

variable {start : Workspace} {p : Placement σ}

theorem children_eq (h : Running start p) (container : ViewId) :
    p.children container = (entriesIn p.entries container).map LayoutEntry.view := by
  rw [children, ← h.map_view, List.filter_map, entriesIn]
  congr 1
  apply List.filter_congr
  intro e he
  rw [Function.comp_apply, containerOf?_eq he]

/-! ### What is inside a view -/

/-- The views of a list inside a view, at any depth, if each of them is directly inside the one that
`containerOf?` says. -/
def insideOf (containerOf? : ViewId → Option ViewId) (views : List ViewId) (container : ViewId) :
    List ViewId :=
  views.foldl
    (fun found view =>
      if (containerOf? view).any fun c => c = container || c ∈ found then found ++ [view]
      else found)
    []

omit [ModelStore σ] [ViewStore σ] [BackedStore σ] in
theorem sublist_insideOf (containerOf? : ViewId → Option ViewId) (views : List ViewId)
    (container : ViewId) : (insideOf containerOf? views container).Sublist views := by
  induction views using List.reverseRecOn with
  | nil => exact .slnil
  | append_singleton rest view ih =>
      rw [insideOf, List.foldl_append, ← insideOf, List.foldl_cons, List.foldl_nil]
      split
      · exact ih.append (List.Sublist.refl _)
      · exact ih.trans (List.sublist_append_left _ _)

omit [ModelStore σ] [ViewStore σ] [BackedStore σ] in
/-- One pass finds everything inside a view, if containers come before what is inside them. -/
theorem mem_insideOf {containerOf? : ViewId → Option ViewId} {views : List ViewId}
    (hincreasing : views.Pairwise fun v v' => v.index < v'.index)
    (hlt : ∀ v ∈ views, ∀ c, containerOf? v = some c → c.index < v.index)
    (container : ViewId) {v : ViewId} (hv : v ∈ views) :
    v ∈ insideOf containerOf? views container ↔
      ∃ c, containerOf? v = some c ∧
        (c = container ∨ c ∈ insideOf containerOf? views container) := by
  -- The last view of the list is the container of none before it, so it can be added at the end.
  induction views using List.reverseRecOn generalizing v with
  | nil => cases hv
  | append_singleton rest last ih =>
      obtain ⟨hrest, -, hlast⟩ := List.pairwise_append.1 hincreasing
      have hbefore : ∀ u ∈ rest, u.index < last.index := fun u hu =>
        hlast u hu last (List.mem_singleton_self last)
      have hnotlast : ∀ c, c.index < last.index →
          (c ∈ insideOf containerOf? (rest ++ [last]) container ↔
            c ∈ insideOf containerOf? rest container) := by
        intro c hc
        have hne : c ≠ last := fun heq => Nat.lt_irrefl _ (heq ▸ hc)
        rw [insideOf, List.foldl_append, ← insideOf, List.foldl_cons, List.foldl_nil]
        split <;> simp [hne]
      rcases List.mem_append.1 hv with hmem | hmem
      · have hvlast := hbefore v hmem
        rw [hnotlast v hvlast, ih hrest (fun u hu => hlt u (List.mem_append_left _ hu)) hmem]
        refine exists_congr fun c => and_congr_right ?_
        intro hc
        rw [hnotlast c (Nat.lt_trans (hlt v hv c hc) hvlast)]
      · obtain rfl := List.mem_singleton.1 hmem
        have hfresh : v ∉ insideOf containerOf? rest container := fun hin =>
          Nat.lt_irrefl _ (hbefore v ((sublist_insideOf _ _ _).mem hin))
        have hself : v ∈ insideOf containerOf? (rest ++ [v]) container ↔
            (containerOf? v).any fun c =>
              c = container || c ∈ insideOf containerOf? rest container := by
          rw [insideOf, List.foldl_append, ← insideOf, List.foldl_cons, List.foldl_nil]
          split
          · next hin => simp [hin]
          · next hout => simp [hout, hfresh]
        rw [hself, Option.any_eq_true]
        refine exists_congr fun c => and_congr_right ?_
        intro hc
        rw [hnotlast c (hlt v hv c hc)]
        simp

omit [ModelStore σ] [ViewStore σ] [BackedStore σ] in
theorem nodup_of_increasing {views : List ViewId}
    (h : views.Pairwise fun v v' => v.index < v'.index) : views.Nodup := by
  refine h.imp fun {v v'} hlt heq => ?_
  rw [heq] at hlt
  exact Nat.lt_irrefl _ hlt

theorem nodup_values (h : Running start p) : p.views.values.Nodup :=
  nodup_of_increasing h.increasing

/-- No view is that of two elements. -/
theorem viewOf?_inj (h : Running start p) {a b : ElementId} {view : ViewId}
    (ha : p.viewOf? a = some view) (hb : p.viewOf? b = some view) : a = b := by
  have hpair := List.inj_on_of_nodup_map h.nodup_values
    (h.viewOf?_eq_some.1 ha) (h.viewOf?_eq_some.1 hb) rfl
  exact (Prod.mk.inj hpair).1

/-- There is one entry for each view. -/
theorem eq_of_view_eq (h : Running start p) {e e' : LayoutEntry} (he : e ∈ p.entries)
    (he' : e' ∈ p.entries) (hview : e.view = e'.view) : e = e' := by
  have hnodup : (p.entries.map LayoutEntry.view).Nodup := h.map_view ▸ h.nodup_values
  exact List.inj_on_of_nodup_map hnodup he he' hview

/-- There is one entry for each element. -/
theorem eq_of_element_eq (h : Running start p) {e e' : LayoutEntry} (he : e ∈ p.entries)
    (he' : e' ∈ p.entries) (helement : e.element = e'.element) : e = e' := by
  have hnodup : (p.entries.map LayoutEntry.element).Nodup := h.map_element ▸ h.keys_nodup
  exact List.inj_on_of_nodup_map hnodup he he' helement

/-- An entry is inside a view if its container is that view or is inside it. -/
theorem mem_inside (h : Running start p) (container : ViewId) {e : LayoutEntry}
    (he : e ∈ p.entries) :
    e.view ∈ p.inside container ↔
      ∃ c, e.container = some c ∧ (c = container ∨ c ∈ p.inside container) := by
  have hvalue : ∀ v ∈ p.views.values, ∃ e ∈ p.entries, e.view = v := by
    intro v hv
    rw [← h.map_view] at hv
    exact List.mem_map.1 hv
  have hlt : ∀ v ∈ p.views.values, ∀ c, p.containerOf? v = some c → c.index < v.index := by
    intro v hv c hc
    obtain ⟨e, he, rfl⟩ := hvalue v hv
    exact h.container_lt e he c (containerOf?_eq he ▸ hc)
  have hmem : e.view ∈ p.views.values := by
    rw [← h.map_view]
    exact List.mem_map_of_mem he
  rw [← containerOf?_eq he]
  exact mem_insideOf h.increasing hlt container hmem

theorem nodup_inside (h : Running start p) (container : ViewId) :
    (p.inside container).Nodup :=
  h.nodup_values.sublist (sublist_insideOf _ _ _)

/-- Whatever is inside a view was made after it. -/
theorem lt_of_mem_inside (h : Running start p) {container v : ViewId}
    (hv : v ∈ p.inside container) : container.index < v.index := by
  obtain ⟨n, hn⟩ : ∃ n, v.index = n := ⟨_, rfl⟩
  induction n using Nat.strongRecOn generalizing v with
  | ind n ih =>
      have hmem : v ∈ p.views.values := (sublist_insideOf _ _ _).mem hv
      rw [← h.map_view] at hmem
      obtain ⟨e, he, rfl⟩ := List.mem_map.1 hmem
      obtain ⟨c, hc, hc'⟩ := (h.mem_inside container he).1 hv
      have hlt := h.container_lt e he c hc
      rcases hc' with rfl | hin
      · exact hlt
      · exact Nat.lt_trans (ih c.index (hn ▸ hlt) hin rfl) hlt

/-! ### Moving a view -/

/-- A view and everything inside it, which moves with it. -/
def Carries (p : Placement σ) (view v : ViewId) : Prop :=
  v = view ∨ v ∈ p.inside view

instance (p : Placement σ) (view v : ViewId) : Decidable (Carries p view v) :=
  inferInstanceAs (Decidable (_ ∨ _))

omit [ModelStore σ] [BackedStore σ] in
theorem carries_iff_mem {p : Placement σ} {view v : ViewId} :
    Carries p view v ↔ v ∈ view :: p.inside view := by
  simp [Carries]

/-- A view other than the one that is moved goes along exactly if its container does. -/
theorem carries_iff (h : Running start p) {view : ViewId} {e : LayoutEntry}
    (he : e ∈ p.entries) (hne : e.view ≠ view) :
    Carries p view e.view ↔ ∃ c, e.container = some c ∧ Carries p view c := by
  rw [Carries, or_iff_right hne]
  exact h.mem_inside view he

/-- A view is not carried by one made after it. -/
theorem not_carries_of_lt (h : Running start p) {view v : ViewId} (hlt : v.index < view.index) :
    ¬ Carries p view v := by
  intro hcarries
  rcases hcarries with rfl | hin
  · exact Nat.lt_irrefl _ hlt
  · exact Nat.lt_asymm hlt (h.lt_of_mem_inside hin)

/-- Views that are side by side in the same container do not carry each other. -/
theorem not_carries_sibling (h : Running start p) {e e' : LayoutEntry} (he : e ∈ p.entries)
    (he' : e' ∈ p.entries) (hc : e.container = e'.container) (hne : e'.view ≠ e.view) :
    ¬ Carries p e.view e'.view := by
  rw [h.carries_iff he' hne]
  intro hexists
  obtain ⟨c, hc', hcarried⟩ := hexists
  exact h.not_carries_of_lt (h.container_lt e he c (hc.trans hc')) hcarried

/-- The bounds of some views, each listed once, are changed in turn. -/
theorem entries_foldl_updateView (p : Placement σ) {views : List ViewId} (hnodup : views.Nodup)
    (r : Bounds → Bounds) :
    (views.foldl (fun p v => p.updateView v (·.reshape r)) p).entries
      = p.entries.map fun e => if e.view ∈ views then e.reshape r else e := by
  induction views generalizing p with
  | nil => simp
  | cons v rest ih =>
      obtain ⟨hnew, hrest⟩ := List.nodup_cons.1 hnodup
      rw [List.foldl_cons, ih _ hrest, entries_updateView, List.map_map]
      apply List.map_congr_left
      intro e _
      by_cases hv : e.view = v
      · simp [hv, hnew]
      · simp [hv]

theorem redrawn_foldl_updateView (h : Running start p) (views : List ViewId)
    (r : Bounds → Bounds) :
    Redrawn start p (views.foldl (fun p v => p.updateView v (·.reshape r)) p) := by
  induction views generalizing p with
  | nil => exact .refl h
  | cons v rest ih => exact (h.redrawn_updateView v r).trans (ih (h.updateView v r))

/-- A view is changed by no edit of another one. -/
theorem view?_updateView_of_ne (p : Placement σ) {view v : ViewId} (h : view ≠ v)
    (r : Bounds → Bounds) :
    ViewStore.view? (p.updateView view (·.reshape r)).store v = ViewStore.view? p.store v := by
  simp only [Placement.updateView, BackedStore.view?_eq, BackedStore.workspace_updateView]
  rw [Workspace.view?_updateView (f := (·.reshape r)) _ _ _ fun v => rfl]
  simp [h]

omit [ModelStore σ] [BackedStore σ] in
theorem translate_eq_foldl (p : Placement σ) (view : ViewId) {dx dy : Int}
    (hne : ¬ (dx = 0 ∧ dy = 0)) :
    p.translate view dx dy = (view :: p.inside view).foldl
      (fun p v => p.updateView v (·.reshape (·.shift dx dy))) p := by
  simp only [translate, if_neg hne, View.shift_eq_reshape]

/-- Moving a view changes no view that it does not carry. -/
theorem view?_translate (p : Placement σ) {view v : ViewId} (h : ¬ Carries p view v) (dx dy : Int) :
    ViewStore.view? (p.translate view dx dy).store v = ViewStore.view? p.store v := by
  have hfold : ∀ (views : List ViewId) (p : Placement σ), v ∉ views →
      ViewStore.view? (views.foldl (fun p u => p.updateView u (·.reshape (·.shift dx dy))) p).store v
        = ViewStore.view? p.store v := by
    intro views
    induction views with
    | nil => exact fun _ _ => rfl
    | cons u rest ih =>
        intro p hout
        obtain ⟨hne, hrest⟩ := not_or.1 (List.mem_cons.not.1 hout)
        exact (ih _ hrest).trans (view?_updateView_of_ne p (Ne.symm hne) _)
  by_cases hne : dx = 0 ∧ dy = 0
  · rw [translate, if_pos hne]
  · rw [translate_eq_foldl p view hne]
    exact hfold _ p (carries_iff_mem.not.1 h)

theorem redrawn_translate (h : Running start p) (view : ViewId) (dx dy : Int) :
    Redrawn start p (p.translate view dx dy) := by
  by_cases hne : dx = 0 ∧ dy = 0
  · rw [translate, if_pos hne]
    exact .refl h
  · rw [translate_eq_foldl p view hne]
    exact h.redrawn_foldl_updateView _ _

/-- **Moving a view moves everything inside it by the same distance**, and nothing else. -/
theorem entries_translate (h : Running start p) (view : ViewId) (dx dy : Int) :
    (p.translate view dx dy).entries
      = p.entries.map fun e =>
          if Carries p view e.view then e.reshape (·.shift dx dy) else e := by
  by_cases hne : dx = 0 ∧ dy = 0
  · obtain ⟨rfl, rfl⟩ := hne
    simp [translate]
  · have hnodup : (view :: p.inside view).Nodup :=
      List.nodup_cons.2 ⟨fun hin => Nat.lt_irrefl _ (h.lt_of_mem_inside hin), h.nodup_inside view⟩
    rw [translate_eq_foldl p view hne, entries_foldl_updateView p hnodup]
    simp only [carries_iff_mem]

/-- After a view was moved, every entry is where it was or has moved with the view. -/
theorem mem_translate (h : Running start p) {view : ViewId} {dx dy : Int} {e : LayoutEntry}
    (he : e ∈ (p.translate view dx dy).entries) :
    ∃ u ∈ p.entries, e = u ∨ e = u.reshape (·.shift dx dy) := by
  rw [h.entries_translate] at he
  obtain ⟨u, hu, rfl⟩ := List.mem_map.1 he
  refine ⟨u, hu, ?_⟩
  split
  · exact .inr rfl
  · exact .inl rfl

end Running

end Placement

end UmlText
