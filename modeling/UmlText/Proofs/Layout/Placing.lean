import Mathlib.Data.List.Basic
import UmlText.Layout.Report
import UmlText.Proofs.Store.Backed

/-!
# UmlText.Proofs.Layout.Placing

**Placing elements one after another.** A strategy decides where elements go and in which order, but
all it ever does to a run is to place one element after another. `Tries p es q` says that just that
leads from `p` to `q`, with `es` the elements in order and nothing said of their places; so what is
proved of `Tries` holds of every strategy.

`Running` is the invariant of a run: which views it made, that the store shows them as they were
asked for, and that each stands in the view of the package that owns its element. One placed or
refused element keeps it (`Running.place`), hence any number of them (`Running.tries`).
-/

namespace UmlText

universe u

open BackedStore (workspace)
open ModelStore (owningPackage?)

variable {σ : Type u} [ModelStore σ] [ViewStore σ] [BackedStore σ]

namespace Placement

/-! ### Placing one element -/

/-- What a run asks the store for when it places an element. -/
def request (p : Placement σ) (element : ElementId) (position : Point) : NewView :=
  { model := element, diagram := p.diagram, position, container := p.containerFor? element }

omit [ViewStore σ] [BackedStore σ] in
/-- The container that a run asks for is a view of the run. -/
theorem mem_of_containerFor? {p : Placement σ} {element : ElementId} {c : ViewId}
    (h : p.containerFor? element = some c) : c ∈ p.views.values := by
  obtain ⟨package, -, hc⟩ := Option.bind_eq_some_iff.1 h
  exact List.mem_map.2 ⟨(package, c), OrderedMap.mem_of_get? hc, rfl⟩

/-- An edit of the view just created is seen in nothing else. -/
theorem updateView_withView {w : Workspace} (hlt : ∀ v ∈ w.views, v.id.index < w.nextView)
    {v : View} (hv : v.id = ⟨w.nextView⟩) (f : View → View) :
    (w.withView v).updateView ⟨w.nextView⟩ f = w.withView (f v) := by
  have hold : w.views.map (fun u => if u.id = ⟨w.nextView⟩ then f u else u) = w.views := by
    refine (List.map_congr_left fun u hu => if_neg fun hid => ?_).trans (List.map_id _)
    have hu := hlt u hu
    rw [hid] at hu
    exact Nat.lt_irrefl _ hu
  simp only [Workspace.updateView, Workspace.withView, List.map_append, hold, List.map_cons, hv,
    if_true, List.map_nil]

/-- The two outcomes of placing an element: it is skipped and the workspace is left alone, or the
workspace has a view more, which is prepared as asked. -/
theorem place_cases (p : Placement σ)
    (hlt : ∀ v ∈ (workspace p.store).views, v.id.index < (workspace p.store).nextView)
    (element : ElementId) (position : Point) (width : Option Int) :
    (∃ store, workspace store = workspace p.store ∧
        p.place element position width = (none, { p with
          store, skipped := p.skipped ++ [element] })) ∨
      ∃ e store, (workspace p.store).GrantsView (p.request element position) e ∧
        workspace store = (workspace p.store).withView
          (prepare width ((workspace p.store).newView (p.request element position) e)) ∧
        p.place element position width = (some ⟨(workspace p.store).nextView⟩, { p with
          store, views := p.views.insert element ⟨(workspace p.store).nextView⟩ }) := by
  rcases hview : ViewStore.createView p.store (p.request element position) with ⟨result, store⟩
  have hans := BackedStore.createView_answers p.store (p.request element position)
  simp only [hview] at hans
  rcases hans.cases ((workspace p.store).createView_cases (p.request element position)) with
    ⟨error, rfl, hw⟩ | ⟨⟨e, hgrants⟩, hgranted⟩
  · refine .inl ⟨store, hw, ?_⟩
    rw [request] at hview
    simp only [place, hview]
  · obtain ⟨rfl, hw⟩ := Prod.mk.inj (hgranted.trans hgrants.createView)
    refine .inr ⟨e, ViewStore.updateView store ⟨(workspace p.store).nextView⟩ (prepare width),
      hgrants, ?_, ?_⟩
    · rw [BackedStore.workspace_updateView, hw, updateView_withView hlt rfl]
    · rw [request] at hview
      simp only [place, hview]
      rfl

/-- What a workspace tells whatever views it has. -/
structure IgnoresViews {α : Type} (tells : Workspace → α) : Prop where
  withView : ∀ w v, tells (w.withView v) = tells w
  updateView : ∀ w id f, tells (w.updateView id f) = tells w

/-- Whatever becomes of the request, nothing but views is touched. -/
theorem IgnoresViews.place {α : Type} {tells : Workspace → α} (h : IgnoresViews tells)
    (p : Placement σ) (element : ElementId) (position : Point) (width : Option Int) :
    tells (workspace (p.place element position width).2.store) = tells (workspace p.store) := by
  rcases hview : ViewStore.createView p.store (p.request element position) with ⟨result, store⟩
  have hans := BackedStore.createView_answers p.store (p.request element position)
  simp only [hview] at hans
  have hcreated : tells (workspace store) = tells (workspace p.store) := by
    rcases hans.cases ((workspace p.store).createView_cases (p.request element position)) with
      ⟨error, -, hw⟩ | ⟨⟨e, hgrants⟩, hgranted⟩
    · rw [hw]
    · rw [(Prod.mk.inj (hgranted.trans hgrants.createView)).2, h.withView]
  rw [request] at hview
  cases result with
  | error => simp only [Placement.place, hview, hcreated]
  | ok view =>
      simp only [Placement.place, hview, Placement.updateView,
        BackedStore.workspace_updateView, h.updateView, hcreated]

/-! ### The invariant of a run -/

/-- A run begun on the workspace `start`. -/
structure Running (start : Workspace) (p : Placement σ) : Prop where
  numbered : start.Numbered
  elements_eq : (workspace p.store).elements = start.elements
  diagrams_eq : (workspace p.store).diagrams = start.diagrams
  /-- The counter is ahead of every view. -/
  view_lt : ∀ v ∈ (workspace p.store).views, v.id.index < (workspace p.store).nextView
  nextView_le : start.nextView ≤ (workspace p.store).nextView
  /-- No element is placed twice. -/
  keys_nodup : p.views.keys.Nodup
  /-- The store shows every placed element as this run asked for it. -/
  shown : ∀ x ∈ p.views.entries, ∃ v, (workspace p.store).view? x.2 = some v ∧ v.model = x.1 ∧
    v.diagram = p.diagram ∧ v.showNamespace = false
  /-- The views were made in this run. -/
  fresh : ∀ v ∈ p.views.values, start.nextView ≤ v.index
  /-- They are numbered in placement order. -/
  increasing : p.views.values.Pairwise fun v v' => v.index < v'.index
  /-- Every view is inside the view of the package that owns its element. -/
  container_eq : ∀ e ∈ p.entries, e.container = (owningPackage? start e.element).bind p.viewOf?
  /-- A container was made before what is inside it. -/
  container_lt : ∀ e ∈ p.entries, ∀ c, e.container = some c → c.index < e.view.index

/-- The entry that reports a view of an element. -/
def entryOf (element : ElementId) (v : View) : LayoutEntry :=
  { element, view := v.id, position := v.position, size := v.size, container := v.container }

theorem id_of_view? {w : Workspace} {id : ViewId} {v : View} (h : w.view? id = some v) :
    v.id = id := by
  simpa using List.find?_some h

/-- The entries of a run, one for each view the store knows. -/
theorem entries_eq (p : Placement σ) :
    p.entries = p.views.entries.filterMap fun x =>
      ((workspace p.store).view? x.2).map (entryOf x.1) := by
  rw [entries]
  apply List.filterMap_congr
  intro x _
  simp only [BackedStore.view?_eq]
  cases h : (workspace p.store).view? x.2 with
  | none => rfl
  | some v => simp only [Option.map_some, entryOf, id_of_view? h]

theorem mem_entries {p : Placement σ} {e : LayoutEntry} :
    e ∈ p.entries ↔ ∃ v, (e.element, e.view) ∈ p.views.entries ∧
      (workspace p.store).view? e.view = some v ∧ e = entryOf e.element v := by
  rw [entries_eq, List.mem_filterMap]
  constructor
  · intro hexists
    obtain ⟨⟨element, id⟩, hx, he⟩ := hexists
    obtain ⟨v, hv, rfl⟩ := Option.map_eq_some_iff.1 he
    obtain rfl := id_of_view? hv
    exact ⟨v, hx, hv, rfl⟩
  · intro hexists
    obtain ⟨v, hx, hv, he⟩ := hexists
    exact ⟨(e.element, e.view), hx, by simp only [hv, Option.map_some]; rw [← he]⟩

namespace Running

variable {start : Workspace} {p : Placement σ}

/-- No view of a run is lost: there is an entry for each, in placement order. -/
theorem map_entries (h : Running start p) :
    p.entries.map (fun e => (e.element, e.view)) = p.views.entries := by
  rw [entries_eq, List.map_filterMap]
  refine (List.filterMap_congr fun x hx => ?_).trans List.filterMap_some
  obtain ⟨v, hv, -⟩ := h.shown x hx
  simp only [hv, Option.map_some, entryOf, id_of_view? hv]

theorem map_element (h : Running start p) : p.entries.map LayoutEntry.element = p.views.keys := by
  rw [OrderedMap.keys, ← h.map_entries, List.map_map]
  rfl

theorem map_view (h : Running start p) : p.entries.map LayoutEntry.view = p.views.values := by
  rw [OrderedMap.values, ← h.map_entries, List.map_map]
  rfl

/-- The entries are numbered in placement order. -/
theorem entries_increasing (h : Running start p) :
    p.entries.Pairwise fun e e' => e.view.index < e'.view.index := by
  have := h.increasing
  rwa [← h.map_view, List.pairwise_map] at this

theorem viewOf?_eq_some (h : Running start p) {element : ElementId} {view : ViewId} :
    p.viewOf? element = some view ↔ (element, view) ∈ p.views.entries :=
  ⟨OrderedMap.mem_of_get?, OrderedMap.get?_of_mem h.keys_nodup⟩

/-- An entry is found under its element. -/
theorem viewOf?_element (h : Running start p) {e : LayoutEntry} (he : e ∈ p.entries) :
    p.viewOf? e.element = some e.view := by
  rw [h.viewOf?_eq_some, ← h.map_entries]
  exact List.mem_map_of_mem he

theorem viewOf?_isSome (h : Running start p) {element : ElementId} :
    (p.viewOf? element).isSome ↔ ∃ e ∈ p.entries, e.element = element := by
  rw [← List.mem_map, h.map_element, Option.isSome_iff_ne_none, Ne, viewOf?,
    OrderedMap.get?_eq_none_iff, not_not]

/-- The container of an entry is itself an entry: that of the owning package. -/
theorem container_mem (h : Running start p) {e : LayoutEntry} (he : e ∈ p.entries) {c : ViewId}
    (hc : e.container = some c) :
    ∃ q ∈ p.entries, q.view = c ∧ owningPackage? start e.element = some q.element := by
  rw [h.container_eq e he] at hc
  obtain ⟨package, hpackage, hview⟩ := Option.bind_eq_some_iff.1 hc
  have hmem := h.viewOf?_eq_some.1 hview
  rw [← h.map_entries] at hmem
  obtain ⟨q, hq, heq⟩ := List.mem_map.1 hmem
  obtain ⟨rfl, rfl⟩ := Prod.mk.inj heq
  exact ⟨q, hq, rfl, hpackage⟩

theorem element?_eq (h : Running start p) (id : ElementId) :
    (workspace p.store).element? id = start.element? id := by
  simp only [Workspace.element?, h.elements_eq]

theorem kind?_eq (h : Running start p) (id : ElementId) :
    p.kind? id = start.kind? id := by
  simp only [Placement.kind?, BackedStore.kind?_eq, Workspace.kind?, h.element?_eq]

theorem owningPackage?_eq (h : Running start p) (id : ElementId) :
    owningPackage? p.store id = owningPackage? start id := by
  rw [BackedStore.owningPackage?_eq]
  simp only [owningPackage?, BackedStore.element?_eq, BackedStore.kind?_eq, h.element?_eq,
    Workspace.kind?, BackedStore.workspace_self]

/-- A view of this run has a number below the counter. -/
theorem value_lt (h : Running start p) {v : ViewId} (hv : v ∈ p.views.values) :
    v.index < (workspace p.store).nextView := by
  obtain ⟨x, hx, rfl⟩ := List.mem_map.1 hv
  obtain ⟨record, hrecord, -⟩ := h.shown x hx
  rw [← id_of_view? hrecord]
  exact h.view_lt record (List.mem_of_find?_eq_some hrecord)

end Running

/-! ### One step -/

/-- A run that has not placed anything. -/
theorem running_start {s : σ} (h : (workspace s).Numbered) (diagram : DiagramId) :
    Running (workspace s) ({ store := s, diagram } : Placement σ) where
  numbered := h
  elements_eq := rfl
  diagrams_eq := rfl
  view_lt := h.view_lt
  nextView_le := Nat.le_refl _
  keys_nodup := List.nodup_nil
  shown := by simp
  fresh := by simp [OrderedMap.values]
  increasing := List.Pairwise.nil
  container_eq := by simp [entries]
  container_lt := by simp [entries]

/-- The entries after one more view: the old ones and, at the end, the new one. -/
theorem entries_withView {start : Workspace} {p : Placement σ} (h : Running start p)
    {element : ElementId} (hnew : element ∉ p.views.keys) {v : View}
    (hv : v.id = ⟨(workspace p.store).nextView⟩) {store : σ}
    (hw : workspace store = (workspace p.store).withView v) :
    ({ p with store, views := p.views.insert element v.id } : Placement σ).entries
      = p.entries ++ [entryOf element v] := by
  rw [entries_eq, entries_eq]
  simp only [OrderedMap.entries_insert_of_not_mem hnew, List.filterMap_append, hw]
  congr 1
  · apply List.filterMap_congr
    intro x hx
    obtain ⟨u, hu, -⟩ := h.shown x hx
    rw [hu, Workspace.view?_withView hu]
  · rw [List.filterMap_cons, hv, Workspace.view?_withView_self h.view_lt hv]
    rfl

/-- The entries are told by the views of the store and those of the run. -/
theorem entries_congr {p q : Placement σ} (hw : workspace q.store = workspace p.store)
    (hviews : q.views = p.views) : q.entries = p.entries := by
  rw [entries_eq, entries_eq, hw, hviews]

/-- A skipped element leaves a run as it is. -/
theorem Running.skip {start : Workspace} {p : Placement σ} (h : Running start p) {store : σ}
    (hw : workspace store = workspace p.store) (skipped : List ElementId) :
    Running start { p with store, skipped } := by
  have hentries : ({ p with store, skipped } : Placement σ).entries = p.entries :=
    entries_congr hw rfl
  exact { h with
    elements_eq := hw ▸ h.elements_eq
    diagrams_eq := hw ▸ h.diagrams_eq
    view_lt := hw ▸ h.view_lt
    nextView_le := hw ▸ h.nextView_le
    shown := by simpa only [hw] using h.shown
    container_eq := by rw [hentries]; exact h.container_eq
    container_lt := by rw [hentries]; exact h.container_lt }

section WithView

variable {start : Workspace} {p : Placement σ} {element : ElementId} {v : View}

/-- The store shows the new view beside the old ones. -/
theorem shown_insert (h : Running start p) (hnew : element ∉ p.views.keys)
    (hid : v.id = ⟨(workspace p.store).nextView⟩) (hmodel : v.model = element)
    (hdiagram : v.diagram = p.diagram) (hnamespace : v.showNamespace = false) :
    ∀ x ∈ (p.views.insert element v.id).entries, ∃ u,
      ((workspace p.store).withView v).view? x.2 = some u ∧ u.model = x.1 ∧
        u.diagram = p.diagram ∧ u.showNamespace = false := by
  intro x hx
  rw [OrderedMap.entries_insert_of_not_mem hnew, List.mem_append, List.mem_singleton] at hx
  rcases hx with hx | rfl
  · obtain ⟨u, hu, hrest⟩ := h.shown x hx
    exact ⟨u, Workspace.view?_withView hu, hrest⟩
  · refine ⟨v, ?_, hmodel, hdiagram, hnamespace⟩
    rw [hid]
    exact Workspace.view?_withView_self h.view_lt hid

/-- Every entry is inside the view of the package that owns its element, also when there is a view
more. -/
theorem container_insert (h : Running start p)
    (howner : ∀ k ∈ p.views.keys, owningPackage? start k ≠ some element)
    (hcontainer : v.container = p.containerFor? element) :
    ∀ e ∈ p.entries ++ [entryOf element v], e.container
      = (owningPackage? start e.element).bind (p.views.insert element v.id).get? := by
  -- A view more is not noticed by what the new element does not own.
  have hlookup : ∀ k, owningPackage? start k ≠ some element →
      (owningPackage? start k).bind p.viewOf?
        = (owningPackage? start k).bind (p.views.insert element v.id).get? := by
    intro k hk
    apply Option.bind_congr
    intro package hpackage
    have hne : element ≠ package := fun heq => hk (heq ▸ hpackage)
    rw [OrderedMap.get?_insert, if_neg hne]
    rfl
  intro e hmem
  rcases List.mem_append.1 hmem with he | he
  · -- An entry made before: the new element does not own it.
    rw [h.container_eq e he]
    refine hlookup e.element (howner e.element ?_)
    rw [← h.map_element]
    exact List.mem_map_of_mem he
  · -- The new entry: it does not own itself.
    obtain rfl := List.mem_singleton.1 he
    simp only [entryOf, hcontainer, containerFor?, h.owningPackage?_eq]
    exact hlookup element fun hpackage => Nat.lt_irrefl _ (h.numbered.owner_lt hpackage)

/-- A new view keeps the invariant of a run, if it is in its proper container and if its element
does not own one that was placed before. -/
theorem Running.withView (h : Running start p) (hnew : element ∉ p.views.keys)
    (howner : ∀ k ∈ p.views.keys, owningPackage? start k ≠ some element)
    (hid : v.id = ⟨(workspace p.store).nextView⟩) (hmodel : v.model = element)
    (hdiagram : v.diagram = p.diagram) (hnamespace : v.showNamespace = false)
    (hcontainer : v.container = p.containerFor? element) {store : σ}
    (hw : workspace store = (workspace p.store).withView v) :
    Running start { p with store, views := p.views.insert element v.id } := by
  have hentries := entries_withView h hnew hid hw
  have hvalues := OrderedMap.values_insert_of_not_mem hnew v.id
  refine { h with
    elements_eq := by rw [hw]; exact h.elements_eq
    diagrams_eq := by rw [hw]; exact h.diagrams_eq
    view_lt := by rw [hw]; exact Workspace.view_lt_withView h.view_lt hid
    nextView_le := by rw [hw]; exact Nat.le_succ_of_le h.nextView_le
    keys_nodup := ?_
    shown := by rw [hw]; exact shown_insert h hnew hid hmodel hdiagram hnamespace
    fresh := ?_
    increasing := ?_
    container_eq := by rw [hentries]; exact container_insert h howner hcontainer
    container_lt := ?_ }
  · rw [OrderedMap.keys_insert, if_neg hnew]
    exact List.nodup_append.2 ⟨h.keys_nodup, by simp, fun a ha b hb hab =>
      hnew (List.mem_singleton.1 hb ▸ hab ▸ ha)⟩
  · intro u hu
    rw [hvalues, List.mem_append, List.mem_singleton] at hu
    rcases hu with hu | rfl
    · exact h.fresh u hu
    · rw [hid]; exact h.nextView_le
  · rw [hvalues, List.pairwise_append]
    refine ⟨h.increasing, List.pairwise_singleton _ _, ?_⟩
    intro a ha b hb
    obtain rfl := List.mem_singleton.1 hb
    rw [hid]
    exact h.value_lt ha
  · -- A container is a view of the run, so its number is below the counter.
    intro e he c hc
    rw [hentries, List.mem_append, List.mem_singleton] at he
    rcases he with he | rfl
    · exact h.container_lt e he c hc
    · simp only [entryOf, hid]
      exact h.value_lt (mem_of_containerFor? (hcontainer.symm.trans hc))

end WithView

/-- Placing an element keeps the invariant of a run, if it is a new one that does not own an
element placed before. -/
theorem Running.place {start : Workspace} {p : Placement σ} (h : Running start p)
    {element : ElementId} (hnew : element ∉ p.views.keys)
    (howner : ∀ k ∈ p.views.keys, owningPackage? start k ≠ some element)
    (position : Point) (width : Option Int) :
    Running start (p.place element position width).2 := by
  rcases place_cases p h.view_lt element position width with
    ⟨store, hw, hp⟩ | ⟨e, store, hgrants, hw, hp⟩
  · rw [hp]
    exact h.skip hw _
  · rw [hp]
    exact h.withView hnew howner rfl rfl rfl rfl rfl hw

/-- What placing an element does to the entries: there is one more, where it was asked for and as
wide, or they are the same. -/
theorem Running.entries_place {start : Workspace} {p : Placement σ} (h : Running start p)
    {element : ElementId} (hnew : element ∉ p.views.keys) (position : Point)
    (width : Option Int) :
    ((p.place element position width).1 = none ∧
        (p.place element position width).2.entries = p.entries) ∨
      ∃ new e, (p.place element position width).1 = some new.view ∧
        (p.place element position width).2.entries = p.entries ++ [new] ∧
        new.element = element ∧ new.position = position ∧
        new.size = ⟨width.getD (Workspace.nodeSize e).width, (Workspace.nodeSize e).height⟩ := by
  rcases place_cases p h.view_lt element position width with
    ⟨store, hw, hp⟩ | ⟨e, store, -, hw, hp⟩
  · rw [hp]
    exact .inl ⟨rfl, entries_congr hw rfl⟩
  · rw [hp]
    exact .inr ⟨_, e, rfl, entries_withView h hnew rfl hw, rfl, rfl, rfl⟩

/-! ### Any number of steps -/

/-- A run in which some elements are still to be placed, in this order. -/
structure Awaiting (start : Workspace) (p : Placement σ) (es : List ElementId) : Prop where
  running : Running start p
  /-- They are distinct, and none of them has been placed. -/
  nodup : (p.views.keys ++ es).Nodup
  /-- None of them owns an element before it. -/
  owners : (p.views.keys ++ es).Pairwise fun a b => owningPackage? start a ≠ some b

namespace Awaiting

variable {start : Workspace} {p : Placement σ} {element : ElementId} {rest : List ElementId}

theorem not_mem_keys (h : Awaiting start p (element :: rest)) : element ∉ p.views.keys :=
  fun hmem => (List.nodup_append.1 h.nodup).2.2 element hmem element (by simp) rfl

/-- Once the first one has been placed or skipped, the others are still to be placed. -/
theorem place (h : Awaiting start p (element :: rest)) (position : Point) (width : Option Int) :
    Awaiting start (p.place element position width).2 rest := by
  have hrunning := h.running.place h.not_mem_keys
    (fun k hk => (List.pairwise_append.1 h.owners).2.2 k hk element (by simp)) position width
  have hsub : ((p.place element position width).2.views.keys ++ rest).Sublist
      (p.views.keys ++ element :: rest) := by
    rcases place_cases p h.running.view_lt element position width with
      ⟨store, -, hp⟩ | ⟨e, store, -, -, hp⟩
    · rw [hp]
      exact (List.sublist_cons_self _ _).append_left _
    · rw [hp, OrderedMap.keys_insert, if_neg h.not_mem_keys, List.append_assoc]
      exact List.Sublist.refl _
  exact ⟨hrunning, h.nodup.sublist hsub, h.owners.sublist hsub⟩

end Awaiting

/-- Placing elements one after the other, wherever that may be, leads from one run to another. -/
inductive Tries : Placement σ → List ElementId → Placement σ → Prop
  | done (p : Placement σ) : Tries p [] p
  | next {p q : Placement σ} {element : ElementId} {rest : List ElementId} (position : Point)
      (width : Option Int) (h : Tries (p.place element position width).2 rest q) :
      Tries p (element :: rest) q

namespace Tries

omit [BackedStore σ] in
theorem one (p : Placement σ) (element : ElementId) (position : Point) (width : Option Int) :
    Tries p [element] (p.place element position width).2 :=
  .next position width (.done _)

omit [BackedStore σ] in
theorem append {p q r : Placement σ} {es fs : List ElementId} (h : Tries p es q)
    (h' : Tries q fs r) : Tries p (es ++ fs) r := by
  induction h with
  | done p => exact h'
  | next position width _ ih => exact .next position width (ih h')

omit [BackedStore σ] in
/-- A loop each of whose rounds places some elements places all of them. -/
theorem foldl {α : Type} {β : Type u} {f : β → α → β} (run : β → Placement σ)
    (order : α → List ElementId)
    (step : ∀ b a, Tries (run b) (order a) (run (f b a))) (l : List α) (b : β) :
    Tries (run b) (l.flatMap order) (run (l.foldl f b)) := by
  induction l generalizing b with
  | nil => exact .done _
  | cons a rest ih =>
      rw [List.flatMap_cons, List.foldl_cons]
      exact (step b a).append (ih (f b a))

omit [BackedStore σ] in
/-- A loop each of whose rounds places one element places all of them. -/
theorem foldl_each {α : Type} {β : Type u} {f : β → α → β} (run : β → Placement σ)
    (element : α → ElementId) (step : ∀ b a, Tries (run b) [element a] (run (f b a)))
    (l : List α) (b : β) : Tries (run b) (l.map element) (run (l.foldl f b)) := by
  rw [List.map_eq_flatMap]
  exact foldl run _ step l b

theorem tells_eq {α : Type} {tells : Workspace → α} (hviews : IgnoresViews tells)
    {p q : Placement σ} {es : List ElementId} (h : Tries p es q) :
    tells (workspace q.store) = tells (workspace p.store) := by
  induction h with
  | done p => rfl
  | next position width _ ih => rw [ih, hviews.place]

end Tries

/-- **Placing any number of elements.** Distinct elements, none of them after one that it owns, keep
the invariant of a run. Each is placed or skipped, once. -/
theorem Awaiting.tries {start : Workspace} {p q : Placement σ} {es : List ElementId}
    (h : Awaiting start p es) (t : Tries p es q) :
    Running start q ∧ q.diagram = p.diagram ∧
      ∃ placed refused, q.views.keys = p.views.keys ++ placed ∧
        q.skipped = p.skipped ++ refused ∧ (placed ++ refused).Perm es := by
  induction t with
  | done p => exact ⟨h.running, rfl, [], [], by simp, by simp, .nil⟩
  | @next p q element rest position width t ih =>
      obtain ⟨hq, hdiagram, placed, refused, hkeys, hskipped, hperm⟩ := ih (h.place position width)
      rcases place_cases p h.running.view_lt element position width with
        ⟨store, -, hp⟩ | ⟨e, store, -, -, hp⟩
      · rw [hp] at hdiagram hkeys hskipped
        refine ⟨hq, hdiagram, placed, element :: refused, hkeys, by simp [hskipped], ?_⟩
        exact List.perm_middle.trans (hperm.cons element)
      · rw [hp] at hdiagram hkeys hskipped
        have hkeys' : (p.views.insert element ⟨(workspace p.store).nextView⟩).keys
            = p.views.keys ++ [element] := by
          rw [OrderedMap.keys_insert, if_neg h.not_mem_keys]
        exact ⟨hq, hdiagram, element :: placed, refused, by simp [hkeys, hkeys'], hskipped,
          hperm.cons element⟩

end Placement

end UmlText
