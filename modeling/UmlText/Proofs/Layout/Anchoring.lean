import UmlText.Proofs.Layout.Opening
import UmlText.Proofs.Layout.Rows

/-!
# UmlText.Proofs.Layout.Anchoring

**Anchored and floating packages.** A package is `Anchored` if something that a strategy placed is
inside it, at any depth. When a package has its turn, the ones inside it have had theirs, and the
list that the loop keeps says which of them are anchored (`Progress`). So only floating packages are
ever moved, with nothing but floating packages inside, and every view but those of packages stays as
it was (`Intact`).
-/

namespace UmlText

universe u

open ModelStore (owningPackage?)
open Placement (Running Redrawn entriesIn mem_entriesIn)
open Placement.Running (Carries)

variable {σ : Type u} [ModelStore σ] [ViewStore σ] [BackedStore σ]

namespace Packages

variable {start : Workspace} {p q : Placement σ}

/-! ### What is anchored -/

/-- A view is anchored if it shows something that is no package, or if something anchored is
directly inside it. -/
inductive Anchored (start : Workspace) (entries : List LayoutEntry) : ViewId → Prop
  | element {e : LayoutEntry} (he : e ∈ entries)
      (hkind : start.kind? e.element ≠ some .package) : Anchored start entries e.view
  | package {e : LayoutEntry} {view : ViewId} (he : e ∈ entries)
      (hcontainer : e.container = some view) (h : Anchored start entries e.view) :
      Anchored start entries view

/-- Bounds do not matter for what is anchored. -/
theorem anchored_redrawn (hq : Redrawn start p q) {view : ViewId} :
    Anchored start q.entries view ↔ Anchored start p.entries view := by
  constructor
  · intro h
    induction h with
    | element he hkind =>
        obtain ⟨e', he', helement, hview, -⟩ := hq.mem_of_mem he
        exact hview ▸ .element he' (helement ▸ hkind)
    | package he hcontainer _ ih =>
        obtain ⟨e', he', -, hview, hcontainer'⟩ := hq.mem_of_mem he
        exact .package he' (hcontainer'.trans hcontainer) (hview ▸ ih)
  · obtain ⟨r, hr⟩ := hq.entries_eq
    have hmem : ∀ e ∈ p.entries, e.reshape (r e.view) ∈ q.entries := fun e he =>
      hr ▸ List.mem_map_of_mem he
    intro h
    induction h with
    | @element e he hkind => exact .element (e := e.reshape (r e.view)) (hmem e he) hkind
    | @package e _ he hcontainer _ ih =>
        exact .package (e := e.reshape (r e.view)) (hmem e he) hcontainer ih

/-- A package is anchored exactly if something directly inside it is. -/
theorem anchored_iff (hq : Redrawn start p q) {box : LayoutEntry} (hbox : box ∈ q.entries)
    (hkind : start.kind? box.element = some .package) :
    Anchored start p.entries box.view ↔
      ∃ e ∈ entriesIn q.entries box.view, Anchored start p.entries e.view := by
  simp only [← anchored_redrawn hq]
  constructor
  · intro h
    generalize hview : box.view = view at h
    cases h with
    | element he hother =>
        obtain rfl := hq.running.eq_of_view_eq hbox he hview
        exact absurd hkind hother
    | package he hcontainer h => exact ⟨_, mem_entriesIn.2 ⟨he, hcontainer⟩, h⟩
  · intro hexists
    obtain ⟨e, he, h⟩ := hexists
    obtain ⟨he, hcontainer⟩ := mem_entriesIn.1 he
    exact .package he hcontainer h

/-- Whatever carries something anchored is anchored. -/
theorem Anchored.of_carries (hq : Redrawn start p q) {v : ViewId} {e : LayoutEntry}
    (he : e ∈ q.entries) (hcarried : Carries q v e.view)
    (h : Anchored start p.entries e.view) : Anchored start p.entries v := by
  rw [← anchored_redrawn hq] at h ⊢
  obtain ⟨n, hn⟩ : ∃ n, e.view.index = n := ⟨_, rfl⟩
  induction n using Nat.strongRecOn generalizing e with
  | ind n ih =>
      by_cases hself : e.view = v
      · exact hself ▸ h
      · obtain ⟨c, hc, hcarried⟩ := (hq.running.carries_iff he hself).1 hcarried
        obtain ⟨box, hbox, rfl, -⟩ := hq.running.container_mem he hc
        have hlt := hq.running.container_lt e he _ hc
        exact ih box.view.index (hn ▸ hlt) hbox hcarried (.package he hc h) rfl

/-! ### What moving floating packages keeps -/

/-- A run after `p` in which every view is as it was, but for those of the packages. -/
structure Intact (start : Workspace) (p q : Placement σ) : Prop where
  redrawn : Redrawn start p q
  still : ∀ view, (∀ e ∈ p.entries, e.view = view → start.kind? e.element ≠ some .package) →
    ViewStore.view? q.store view = ViewStore.view? p.store view

/-- Everything that is no package is where it was. -/
theorem Intact.mem_of_mem (h : Intact start p q) {e : LayoutEntry} (he : e ∈ q.entries)
    (hkind : start.kind? e.element ≠ some .package) : e ∈ p.entries := by
  obtain ⟨v, hentry, hv, heq⟩ := Placement.mem_entries.1 he
  have hsame : ViewStore.view? q.store e.view = ViewStore.view? p.store e.view := by
    refine h.still e.view fun e' he' hview => ?_
    obtain ⟨r, hr⟩ := h.redrawn.exists_reshape he'
    rwa [← h.redrawn.running.eq_of_view_eq hr he hview] at hkind
  rw [BackedStore.view?_eq, BackedStore.view?_eq, hv] at hsame
  exact Placement.mem_entries.2 ⟨v, h.redrawn.views_eq ▸ hentry, hsame.symm, heq⟩

theorem Intact.translate (h : Intact start p q) {v : ViewId} (hv : ∃ e ∈ p.entries, e.view = v)
    (hfloats : ¬ Anchored start p.entries v) (dx dy : Int) :
    Intact start p (q.translate v dx dy) := by
  have hrunning := h.redrawn.running
  refine ⟨h.redrawn.trans (hrunning.redrawn_translate v dx dy), ?_⟩
  intro view hother
  refine (Running.view?_translate q (fun hcarried => ?_) dx dy).trans (h.still view hother)
  -- What goes along with a floating package is floating too, and so a package.
  have hmem : view ∈ q.views.values := by
    rcases hcarried with rfl | hin
    · obtain ⟨e, he, rfl⟩ := hv
      obtain ⟨r, hr⟩ := h.redrawn.exists_reshape he
      rw [← hrunning.map_view]
      exact List.mem_map.2 ⟨_, hr, rfl⟩
    · exact (Running.sublist_insideOf _ _ _).mem hin
  rw [← hrunning.map_view] at hmem
  obtain ⟨e, he, rfl⟩ := List.mem_map.1 hmem
  obtain ⟨e', he', -, hview, -⟩ := h.redrawn.mem_of_mem he
  have hin : Anchored start p.entries e.view := hview ▸ .element he' (hother e' he' hview)
  exact hfloats (.of_carries h.redrawn he hcarried hin)

theorem Intact.layOutRow (h : Intact start p q) {views : List ViewId}
    (hviews : ∀ v ∈ views, (∃ e ∈ p.entries, e.view = v) ∧ ¬ Anchored start p.entries v)
    (corner : Point) (spacing : Int) : Intact start p (layOutRow q views corner spacing).2 :=
  layOutRow_induct (fun _ v hv dx dy hq => hq.translate (hviews v hv).1 (hviews v hv).2 dx dy)
    h corner spacing

/-! ### The turn of a package -/

/-- Packages being fitted, those in `done` so far: the loop knows which of these are anchored. -/
structure Progress (start : Workspace) (p : Placement σ) (packageViews : List ViewId)
    (done : List ElementId) (f : Fitting σ) : Prop where
  intact : Intact start p f.placement
  packageViews_iff : ∀ e ∈ f.placement.entries,
    e.view ∈ packageViews ↔ start.kind? e.element = some .package
  anchored_of_mem : ∀ v ∈ f.anchored, Anchored start p.entries v
  mem_of_anchored : ∀ e ∈ f.placement.entries, e.element ∈ done →
    Anchored start p.entries e.view → e.view ∈ f.anchored

/-- A package whose turn it is: every package directly inside it has had its turn. -/
structure Turn (start : Workspace) (p : Placement σ) (packageViews : List ViewId)
    (done : List ElementId) (f : Fitting σ) (box : LayoutEntry) : Prop
    extends Progress start p packageViews done f where
  mem : box ∈ f.placement.entries
  kind_eq : start.kind? box.element = some .package
  inside : ∀ e ∈ entriesIn f.placement.entries box.view,
    start.kind? e.element = some .package → e.element ∈ done

namespace Turn

variable {done : List ElementId} {packageViews : List ViewId} {f : Fitting σ} {box : LayoutEntry}

theorem running (h : Turn start p packageViews done f box) : Running start f.placement :=
  h.intact.redrawn.running

theorem viewOf?_eq (h : Turn start p packageViews done f box) :
    f.placement.viewOf? box.element = some box.view :=
  h.running.viewOf?_element h.mem

/-- What is fixed in a package is what is anchored. -/
theorem fixed_iff (h : Turn start p packageViews done f box) {e : LayoutEntry}
    (he : e ∈ entriesIn f.placement.entries box.view) :
    (e.view ∉ packageViews ∨ e.view ∈ f.anchored) ↔ Anchored start p.entries e.view := by
  have hmem := (mem_entriesIn.1 he).1
  rw [h.packageViews_iff e hmem]
  by_cases hkind : start.kind? e.element = some .package
  · simp only [hkind, not_true_eq_false, false_or]
    exact ⟨h.anchored_of_mem _, h.mem_of_anchored e hmem (h.inside e he hkind)⟩
  · have hanchored := (anchored_redrawn h.intact.redrawn).1 (.element hmem hkind)
    simp [hkind, hanchored]

theorem mem_floatingIn (h : Turn start p packageViews done f box) {v : ViewId} :
    v ∈ floatingIn packageViews f box.view ↔
      ∃ e ∈ entriesIn f.placement.entries box.view,
        e.view = v ∧ ¬ Anchored start p.entries e.view := by
  unfold floatingIn
  rw [List.mem_filter, h.running.children_eq, List.mem_map]
  constructor
  · intro hexists
    obtain ⟨⟨e, he, rfl⟩, hfloats⟩ := hexists
    refine ⟨e, he, rfl, ?_⟩
    rw [← h.fixed_iff he]
    simpa using hfloats
  · intro hexists
    obtain ⟨e, he, rfl, hfloats⟩ := hexists
    refine ⟨⟨e, he, rfl⟩, ?_⟩
    rw [← h.fixed_iff he] at hfloats
    simpa using hfloats

theorem exists_entry_of_mem_floatingIn (h : Turn start p packageViews done f box) {v : ViewId}
    (hv : v ∈ floatingIn packageViews f box.view) :
    (∃ e ∈ p.entries, e.view = v) ∧ ¬ Anchored start p.entries v := by
  obtain ⟨e, he, rfl, hfloats⟩ := h.mem_floatingIn.1 hv
  obtain ⟨e', he', -, hview, -⟩ := h.intact.redrawn.mem_of_mem (mem_entriesIn.1 he).1
  exact ⟨⟨e', he', hview⟩, hfloats⟩

/-- Moving the floating packages beside the others leaves the run intact. -/
theorem intact_withRow (h : Turn start p packageViews done f box) (s : PackageSettings) :
    Intact start p (withRow s packageViews f box.view) :=
  h.intact.layOutRow (fun _ hv => h.exists_entry_of_mem_floatingIn hv) _ _

/-- The bounds of what is fixed in a package are those of what is anchored in it. -/
theorem mergedBounds?_fixedIn (h : Turn start p packageViews done f box) (s : PackageSettings) :
    ∃ es : List LayoutEntry, f.placement.mergedBounds? (fixedIn packageViews f box.view)
        = Bounds.mergeAll (es.map LayoutEntry.bounds) ∧
      ∀ e, e ∈ es ↔ e ∈ entriesIn (withRow s packageViews f box.view).entries box.view ∧
        Anchored start p.entries e.view := by
  have hrow := redrawn_withRow (s := s) h.running packageViews box.view
  refine ⟨(entriesIn (withRow s packageViews f box.view).entries box.view).filter fun e =>
    e.view ∉ packageViews || e.view ∈ f.anchored, ?_, ?_⟩
  · rw [Packages.mergedBounds?_fixedIn (s := s) h.running, fixedIn,
      ← children_redrawn h.running hrow, hrow.running.children_eq, List.filter_map]
    exact Placement.mergedBounds?_map_view fun e he =>
      (mem_entriesIn.1 (List.mem_filter.1 he).1).1
  · intro e
    rw [List.mem_filter]
    apply and_congr_right
    intro he
    obtain ⟨hmem, hc⟩ := mem_entriesIn.1 he
    obtain ⟨e', he', -, hview, hc'⟩ := hrow.mem_of_mem hmem
    rw [← hview, ← h.fixed_iff (mem_entriesIn.2 ⟨he', hc'.trans hc⟩)]
    simp

/-- What is directly inside a package, in its row or not, is there after its turn. -/
theorem entriesIn_eq (h : Turn start p packageViews done f box) (s : PackageSettings) :
    entriesIn (fitPackage s packageViews f box.element).placement.entries box.view
      = entriesIn (withRow s packageViews f box.view).entries box.view := by
  have hrow := (redrawn_withRow (s := s) h.running packageViews box.view).running
  rw [fitPackage_placement s h.running packageViews h.viewOf?_eq]
  exact entriesIn_updateView hrow (not_mem_children_self hrow box.view) _

theorem intact_fitPackage (h : Turn start p packageViews done f box) (s : PackageSettings) :
    Intact start p (fitPackage s packageViews f box.element).placement := by
  have hintact := h.intact_withRow s
  refine ⟨h.intact.redrawn.trans (redrawn_fitPackage h.running _ _), fun view hother => ?_⟩
  rw [fitPackage_placement s h.running packageViews h.viewOf?_eq]
  refine (Running.view?_updateView_of_ne _ ?_ _).trans (hintact.still view hother)
  rintro rfl
  -- The box shows a package.
  obtain ⟨e, he, helement, hview, -⟩ := h.intact.redrawn.mem_of_mem h.mem
  exact hother e he hview (helement ▸ h.kind_eq)

/-- A package becomes anchored if something anchored is inside it. -/
theorem isSome_fixedIn (h : Turn start p packageViews done f box) :
    (f.placement.mergedBounds? (fixedIn packageViews f box.view)).isSome
      ↔ Anchored start p.entries box.view := by
  obtain ⟨es, hes, hmem⟩ := h.mergedBounds?_fixedIn {}
  rw [hes, Option.isSome_iff_ne_none, Ne, Bounds.mergeAll_eq_none, List.map_eq_nil_iff,
    anchored_iff h.intact.redrawn h.mem h.kind_eq]
  have hrow := redrawn_withRow (s := {}) h.running packageViews box.view
  constructor
  · intro hne
    obtain ⟨e, he⟩ := List.exists_mem_of_ne_nil es hne
    obtain ⟨hin, hanchored⟩ := (hmem e).1 he
    obtain ⟨hin, hc⟩ := mem_entriesIn.1 hin
    obtain ⟨e', he', -, hview, hc'⟩ := hrow.mem_of_mem hin
    exact ⟨e', mem_entriesIn.2 ⟨he', hc'.trans hc⟩, hview ▸ hanchored⟩
  · intro hexists hnil
    subst hnil
    obtain ⟨e, he, hanchored⟩ := hexists
    obtain ⟨he, hc⟩ := mem_entriesIn.1 he
    obtain ⟨r, hr⟩ := hrow.exists_reshape he
    exact List.not_mem_nil ((hmem _).2 ⟨mem_entriesIn.2 ⟨hr, hc⟩, hanchored⟩)

/-- After its turn a package is one of those that have been fitted. -/
theorem progress (h : Turn start p packageViews done f box) (s : PackageSettings) :
    Progress start p packageViews (done ++ [box.element])
      (fitPackage s packageViews f box.element) := by
  have hturn := redrawn_fitPackage (s := s) h.running packageViews box.element
  have hanchored : (fitPackage s packageViews f box.element).anchored = f.anchored ++
      if (f.placement.mergedBounds? (fixedIn packageViews f box.view)).isSome then [box.view]
      else [] := by
    rw [fitPackage_eq s packageViews f h.viewOf?_eq]
  refine ⟨h.intact_fitPackage s, ?_, ?_, ?_⟩
  · intro e he
    obtain ⟨e', he', helement, hview, -⟩ := hturn.mem_of_mem he
    rw [← helement, ← hview]
    exact h.packageViews_iff e' he'
  · intro v hv
    rw [hanchored, List.mem_append] at hv
    rcases hv with hv | hv
    · exact h.anchored_of_mem v hv
    · split at hv
      · next hsome =>
          obtain rfl := List.mem_singleton.1 hv
          exact h.isSome_fixedIn.1 hsome
      · cases hv
  · intro e he hdone hin
    obtain ⟨e', he', helement, hview, -⟩ := hturn.mem_of_mem he
    rw [← helement, List.mem_append] at hdone
    rw [← hview] at hin ⊢
    rw [hanchored, List.mem_append]
    rcases hdone with hdone | hself
    · exact .inl (h.mem_of_anchored e' he' hdone hin)
    · obtain rfl := h.running.eq_of_element_eq he' h.mem (List.mem_singleton.1 hself)
      rw [if_pos (h.isSome_fixedIn.2 hin)]
      exact .inr (List.mem_singleton_self _)

end Turn

end Packages

end UmlText
