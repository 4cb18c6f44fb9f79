import Mathlib.Data.List.Basic
import UmlText.Proofs.Layout.Placing
import UmlText.Proofs.Store.Grafting

/-!
# UmlText.Proofs.Layout.Grafting

**Placing views on any workspace.** A run that lays elements out in a new workspace is a run in the
graft under other numbers: the views that a run asks about are its own, and whatever `base` held
before, it holds no view that one of these could be taken for. So every operation of a run has one
lemma, which says that it commutes with grafting and leaves a run that can be grafted (`Sprouts`).
-/

namespace UmlText

open Workspace (Ground root)

namespace Placement

variable {base : Workspace} {ρ : Renumbering} {p : Placement Workspace}

/-- The same run in the graft. -/
def graft (base : Workspace) (ρ : Renumbering) (p : Placement Workspace) : Placement Workspace where
  store := base.graft ρ p.store
  diagram := ρ.diagram p.diagram
  views := p.views.map ρ.element ρ.view
  skipped := p.skipped.map ρ.element

/-- A run in what a new workspace has become: its diagram is known here and there, and it does not
place the project. -/
structure Sprouts (base : Workspace) (ρ : Renumbering) (p : Placement Workspace) : Prop where
  sprout : p.store.Sprout
  diagram_known : (p.store.diagram? p.diagram).isSome
  diagram_grafted : (base.diagram? (ρ.diagram p.diagram)).isSome
  ne_root : ∀ x ∈ p.views.entries, x.1 ≠ root

/-! ### Asking -/

theorem kind?_graft (hbase : base.Ground ρ) {element : ElementId} (h : element ≠ root) :
    (p.graft base ρ).kind? (ρ.element element) = p.kind? element :=
  Workspace.kind?_graft hbase h

theorem nameOf_graft (hbase : base.Ground ρ) {element : ElementId} (h : element ≠ root) :
    (p.graft base ρ).nameOf (ρ.element element) = p.nameOf element :=
  Workspace.nameOf_graft hbase h

theorem viewOf?_graft (element : ElementId) :
    (p.graft base ρ).viewOf? (ρ.element element) = (p.viewOf? element).map ρ.view :=
  OrderedMap.get?_map ρ.element_injective p.views element

theorem values_graft : (p.graft base ρ).views.values = p.views.values.map ρ.view :=
  OrderedMap.values_map p.views

theorem view?_graft (hbase : base.Ground ρ) (view : ViewId) :
    ViewStore.view? (p.graft base ρ).store (ρ.view view)
      = (ViewStore.view? p.store view).map (·.renumber ρ) :=
  Workspace.view?_graft hbase view

theorem boundsOf?_graft (hbase : base.Ground ρ) (view : ViewId) :
    (p.graft base ρ).boundsOf? (ρ.view view) = p.boundsOf? view := by
  rw [boundsOf?, boundsOf?, view?_graft hbase, Option.map_map]
  rfl

theorem containerOf?_graft (hbase : base.Ground ρ) (view : ViewId) :
    (p.graft base ρ).containerOf? (ρ.view view) = (p.containerOf? view).map ρ.view := by
  rw [containerOf?, containerOf?, view?_graft hbase]
  cases ViewStore.view? p.store view <;> rfl

/-- No view of a run shows the project. -/
theorem Sprouts.viewOf?_root (h : p.Sprouts base ρ) : p.viewOf? root = none := by
  rw [viewOf?, OrderedMap.get?_eq_none_iff]
  intro hmem
  obtain ⟨x, hx, hroot⟩ := List.mem_map.1 hmem
  exact h.ne_root x hx hroot

theorem Sprouts.ne_root_of_viewOf? (h : p.Sprouts base ρ) {element : ElementId} {view : ViewId}
    (hview : p.viewOf? element = some view) : element ≠ root := by
  rintro rfl
  rw [h.viewOf?_root] at hview
  cases hview

/-- Whatever the parent is, it has no view in the run: what is placed directly below it is in no
container, as in the project. -/
theorem containerFor?_graft (hbase : base.Ground ρ) (h : p.Sprouts base ρ) {element : ElementId}
    (helement : element ≠ root) :
    (p.graft base ρ).containerFor? (ρ.element element) = (p.containerFor? element).map ρ.view := by
  simp only [containerFor?]
  cases howner : ModelStore.owningPackage? p.store element with
  | some package =>
      have howner' : ModelStore.owningPackage? (p.graft base ρ).store (ρ.element element) = _ :=
        Workspace.owningPackage?_graft_some hbase h.sprout helement howner
      rw [howner', Option.bind_some, Option.bind_some, viewOf?_graft]
  | none =>
      have howner' : ModelStore.owningPackage? (p.graft base ρ).store (ρ.element element) = _ :=
        Workspace.owningPackage?_graft_none hbase helement howner
      have hroot : (p.graft base ρ).viewOf? (ρ.element root) = none := by
        rw [viewOf?_graft, h.viewOf?_root, Option.map_none]
      rw [howner']
      split
      · exact hroot
      · rfl

theorem children_graft (hbase : base.Ground ρ) (container : ViewId) :
    (p.graft base ρ).children (ρ.view container) = (p.children container).map ρ.view := by
  rw [children, children, values_graft]
  refine filter_map_of fun view _ => ?_
  rw [containerOf?_graft hbase]
  cases p.containerOf? view with
  | none => rfl
  | some c => simp [ρ.view_injective.eq_iff]

theorem inside_graft (hbase : base.Ground ρ) (container : ViewId) :
    (p.graft base ρ).inside (ρ.view container) = (p.inside container).map ρ.view := by
  rw [inside, values_graft, List.foldl_map]
  change p.views.values.foldl _ (([] : List ViewId).map ρ.view) = _
  refine List.foldl_hom (List.map ρ.view) fun found view => ?_
  rw [containerOf?_graft hbase, Option.any_map]
  simp only [ρ.view_injective.eq_iff, List.mem_map_of_injective ρ.view_injective]
  split
  · rw [List.map_append]; rfl
  · rfl

theorem mergedBounds?_graft (hbase : base.Ground ρ) (views : List ViewId) :
    (p.graft base ρ).mergedBounds? (views.map ρ.view) = p.mergedBounds? views := by
  rw [mergedBounds?, mergedBounds?, List.filterMap_map]
  congr 1
  exact congrArg (List.filterMap · views) (funext (boundsOf?_graft hbase))

/-! ### Changing -/

/-- What a workspace refuses is skipped. -/
theorem place_refused {element : ElementId} {position : Point} {error : StoreError}
    (h : p.store.createView (p.request element position) = (.error error, p.store))
    (width : Option Int) :
    p.place element position width = (none, { p with skipped := p.skipped ++ [element] }) := by
  rw [request] at h
  simp only [place, show ViewStore.createView p.store _ = _ from h]

/-- What it grants gets a view. -/
theorem place_granted {element : ElementId} {position : Point} {e : Element}
    (h : p.store.GrantsView (p.request element position) e) (width : Option Int) :
    p.place element position width = (some ⟨p.store.nextView⟩, { p with
      store := (p.store.withView (p.store.newView (p.request element position) e)).updateView
        ⟨p.store.nextView⟩ (prepare width)
      views := p.views.insert element ⟨p.store.nextView⟩ }) := by
  have hcreate := h.createView
  rw [request] at hcreate
  simp only [place, show ViewStore.createView p.store _ = _ from hcreate]
  rfl

theorem Sprouts.updateView (h : p.Sprouts base ρ) (view : ViewId) {f : View → View}
    (hf : ∀ v, (f v).id = v.id) : (p.updateView view f).Sprouts base ρ :=
  ⟨h.sprout.updateView view hf, h.diagram_known, h.diagram_grafted, h.ne_root⟩

theorem updateView_graft (hbase : base.Ground ρ) (view : ViewId) {f f' : View → View}
    (hf : ∀ v : View, (f v).renumber ρ = f' (v.renumber ρ)) :
    (p.graft base ρ).updateView (ρ.view view) f' = (p.updateView view f).graft base ρ :=
  congrArg (fun store => { p.graft base ρ with store })
    (Workspace.updateView_graft hbase view hf)

theorem request_graft (hbase : base.Ground ρ) (h : p.Sprouts base ρ) {element : ElementId}
    (helement : element ≠ root) (position : Point) :
    (p.graft base ρ).request (ρ.element element) position
      = (p.request element position).renumber ρ := by
  rw [request, containerFor?_graft hbase h helement]
  rfl

/-- **Placing an element** in the graft is placing it in the new workspace. -/
theorem place_graft (hbase : base.Ground ρ) (h : p.Sprouts base ρ) {element : ElementId}
    (helement : element ≠ root) (position : Point) (width : Option Int) :
    (p.place element position width).2.Sprouts base ρ ∧
      (p.graft base ρ).place (ρ.element element) position width
        = ((p.place element position width).1.map ρ.view,
            (p.place element position width).2.graft base ρ) := by
  have hrequest := request_graft hbase h helement position
  rcases p.store.createView_cases (p.request element position) with ⟨error, he⟩ | ⟨e, hgrants⟩
  · -- What is refused in the new workspace is refused in the graft.
    rcases (base.graft ρ p.store).createView_cases ((p.request element position).renumber ρ) with
      ⟨error', he'⟩ | ⟨e', hgrants'⟩
    · rw [← hrequest] at he'
      have hplace := place_refused (p := p.graft base ρ) he' width
      rw [hplace, place_refused he width]
      exact ⟨{ h with }, by simp [graft]⟩
    · obtain ⟨e, hgrants⟩ := hgrants'.of_graft hbase helement h.diagram_known
      rw [hgrants.createView] at he
      cases he
  · have hgrants' := hgrants.graft hbase helement h.diagram_grafted
    rw [← hrequest] at hgrants'
    have hplace := place_granted (p := p.graft base ρ) hgrants' width
    rw [hplace, place_granted hgrants width]
    constructor
    · refine { h with
        sprout := (h.sprout.withView rfl).updateView _ fun _ => rfl
        ne_root := fun x hx => ?_ }
      rcases OrderedMap.mem_entries_insert hx with rfl | hx
      · exact helement
      · exact h.ne_root x hx
    · have hid : (⟨(p.graft base ρ).store.nextView⟩ : ViewId) = ρ.view ⟨p.store.nextView⟩ :=
        (hbase.view_eq _).symm
      have hviews := OrderedMap.insert_map (g := ρ.view) ρ.element_injective p.views element
        ⟨p.store.nextView⟩
      have hstore : (p.graft base ρ).store.withView ((p.graft base ρ).store.newView
          ((p.request element position).renumber ρ) (e.renumber ρ)) = _ :=
        Workspace.withView_graft hbase (p.request element position) e
      have hprepare : ∀ v : View, (prepare width v).renumber ρ = prepare width (v.renumber ρ) :=
        fun _ => rfl
      have hupdate := Workspace.updateView_graft
        (w := p.store.withView (p.store.newView (p.request element position) e)) hbase
        ⟨p.store.nextView⟩ hprepare
      rw [hid, hrequest, hstore, hupdate]
      simp only [graft, hviews, Option.map_some]

/-- Moving a view and what is inside it. -/
theorem translate_graft (hbase : base.Ground ρ) (h : p.Sprouts base ρ) (view : ViewId)
    (dx dy : Int) :
    (p.translate view dx dy).Sprouts base ρ ∧
      (p.graft base ρ).translate (ρ.view view) dx dy = (p.translate view dx dy).graft base ρ := by
  simp only [translate]
  split
  · exact ⟨h, rfl⟩
  · rw [inside_graft hbase, ← List.map_cons]
    exact foldl_map_of_invariant (m := graft base ρ) (q := fun _ => True)
      (fun q v hq _ => ⟨hq.updateView v fun _ => rfl,
        updateView_graft (f := (·.shift dx dy)) hbase v fun _ => rfl⟩)
      (fun _ _ => trivial) h

/-- **A loop over a run** that carries something else along, like the place of the next view, does
to the graft what it does to the run, if each of its steps does. -/
theorem foldl_graft {α α' τ : Type} {f : Placement Workspace × τ → α → Placement Workspace × τ}
    {g : Placement Workspace × τ → α' → Placement Workspace × τ} {n : α → α'} {q : α → Prop}
    (step : ∀ (state : Placement Workspace × τ) (a : α), state.1.Sprouts base ρ → q a →
      (f state a).1.Sprouts base ρ ∧
        g (state.1.graft base ρ, state.2) (n a) = ((f state a).1.graft base ρ, (f state a).2))
    {l : List α} (hl : ∀ a ∈ l, q a) (h : p.Sprouts base ρ) (along : τ) :
    (l.foldl f (p, along)).1.Sprouts base ρ ∧
      (l.map n).foldl g (p.graft base ρ, along)
        = ((l.foldl f (p, along)).1.graft base ρ, (l.foldl f (p, along)).2) :=
  foldl_map_of_invariant (m := fun state : Placement Workspace × τ =>
    (state.1.graft base ρ, state.2)) (p := fun state => state.1.Sprouts base ρ) step hl
    (b := (p, along)) h

end Placement

end UmlText
