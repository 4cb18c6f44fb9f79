import UmlText.Layout.Packages
import UmlText.Proofs.Layout.Moving

/-!
# UmlText.Proofs.Layout.Fitting

**Every package box is exact.** `Fits` says that the box of a package is the bounds of what is
directly inside it with the insets around, or of the least size if nothing is. A package fits once
it is its turn (`settled_fitPackage_self`). From then on it is `Rigid`: it stays in place or moves
together with what is directly inside it, until the package directly around it has its turn and
after that (`rigid_fitPackage`, `rigid_moveFloating`). Packages are fitted deepest first, so all
that is decided when a package has its turn holds at the end.
-/

namespace UmlText

universe u

open BackedStore (workspace)
open ModelStore (owningPackage?)

variable {σ : Type u} [ModelStore σ] [ViewStore σ] [BackedStore σ]

namespace Packages

open Placement (Running Redrawn entriesIn mem_entriesIn entries_updateView boundsOf?_eq)
open Placement.Running (Carries)

/-! ### Rows -/

omit [ModelStore σ] [BackedStore σ] in
/-- Whatever survives moving one of the views survives laying them out in a row. -/
theorem layOutRow_induct {motive : Placement σ → Prop} {views : List ViewId}
    (step : ∀ q, ∀ v ∈ views, ∀ dx dy, motive q → motive (q.translate v dx dy))
    {p : Placement σ} (hp : motive p) (start : Point) (spacing : Int) :
    motive (layOutRow p views start spacing).2 := by
  have hrow : ∀ (vs : List ViewId) (state : Placement σ × Int), (∀ v ∈ vs, v ∈ views) →
      motive state.1 → motive (vs.foldl (layOutNext start.y spacing) state).1 := by
    intro vs
    induction vs with
    | nil => exact fun _ _ hstate => hstate
    | cons v rest ih =>
        intro state hvs hstate
        refine ih _ (fun u hu => hvs u (List.mem_cons_of_mem _ hu)) ?_
        simp only [layOutNext]
        split
        · exact hstate
        · exact step _ v (hvs v List.mem_cons_self) _ _ hstate
  exact hrow views (p, start.x) (fun v hv => hv) hp

variable {start : Workspace} {p q : Placement σ} {s : PackageSettings}

theorem redrawn_layOutRow (h : Running start p) (views : List ViewId) (origin : Point)
    (spacing : Int) : Redrawn start p (layOutRow p views origin spacing).2 :=
  layOutRow_induct (fun _ v _ dx dy hq => hq.trans (hq.running.redrawn_translate v dx dy))
    (.refl h) origin spacing

/-- What is beside the views of a row in the same container stays where it is. -/
theorem mem_layOutRow (h : Running start p) {views : List ViewId} {e : LayoutEntry}
    (he : e ∈ p.entries)
    (hviews : ∀ v ∈ views, ∃ u ∈ p.entries, u.view = v ∧ u.container = e.container)
    (hout : e.view ∉ views) (origin : Point) (spacing : Int) :
    e ∈ (layOutRow p views origin spacing).2.entries := by
  have hrow : Redrawn start p (layOutRow p views origin spacing).2 ∧
      e ∈ (layOutRow p views origin spacing).2.entries := by
    refine layOutRow_induct (motive := fun q => Redrawn start p q ∧ e ∈ q.entries) ?_
      ⟨.refl h, he⟩ _ _
    intro q v hv dx dy hsofar
    obtain ⟨hq, hmem⟩ := hsofar
    refine ⟨hq.trans (hq.running.redrawn_translate v dx dy), ?_⟩
    obtain ⟨u, hu, rfl, hc⟩ := hviews v hv
    obtain ⟨r, hr⟩ := hq.exists_reshape hu
    have hne : e.view ≠ u.view := fun heq => hout (heq ▸ hv)
    rw [hq.running.entries_translate]
    exact List.mem_map.2 ⟨e, hmem, if_neg (hq.running.not_carries_sibling hr hmem hc hne)⟩
  exact hrow.2

/-! ### Exact boxes -/

/-- The box around what is directly inside a package, or the least one if there is nothing. -/
def boxFor (s : PackageSettings) : Option Bounds → Bounds
  | some content => content.pad (insets s)
  | none => Point.toBounds ⟨0, 0⟩ ⟨s.minWidth, s.minHeight⟩

/-- The box of a package is exactly around the entries directly inside it, with the padding on every
side and the header on top; it has the least size if there are none. -/
def Fits (s : PackageSettings) (entries : List LayoutEntry) (box : LayoutEntry) : Prop :=
  match Bounds.mergeAll ((entriesIn entries box.view).map LayoutEntry.bounds) with
  | some content => box.bounds = content.pad (insets s)
  | none => box.size = ⟨s.minWidth, s.minHeight⟩

omit [ModelStore σ] [ViewStore σ] [BackedStore σ] in
/-- An exact box has the least size and nothing directly inside it, or the insets around all that
is. -/
theorem Fits.cases {entries : List LayoutEntry} {box : LayoutEntry} (h : Fits s entries box) :
    (entriesIn entries box.view = [] ∧ box.size = ⟨s.minWidth, s.minHeight⟩) ∨
      ∃ content,
        Bounds.mergeAll ((entriesIn entries box.view).map LayoutEntry.bounds) = some content ∧
          box.bounds = content.pad (insets s) := by
  unfold Fits at h
  cases hcontent : Bounds.mergeAll ((entriesIn entries box.view).map LayoutEntry.bounds) with
  | none =>
      rw [hcontent] at h
      exact .inl ⟨List.map_eq_nil_iff.1 (Bounds.mergeAll_eq_none.1 hcontent), h⟩
  | some content =>
      rw [hcontent] at h
      exact .inr ⟨content, rfl, h⟩

omit [ModelStore σ] [ViewStore σ] [BackedStore σ] in
/-- With something directly inside it, an exact box is the insets around all of that. -/
theorem Fits.exists_content {entries : List LayoutEntry} {e box : LayoutEntry}
    (h : Fits s entries box) (he : e ∈ entriesIn entries box.view) :
    ∃ content,
      Bounds.mergeAll ((entriesIn entries box.view).map LayoutEntry.bounds) = some content ∧
        box.bounds = content.pad (insets s) := by
  rcases h.cases with ⟨hempty, -⟩ | hcontent
  · exact absurd (hempty ▸ he) List.not_mem_nil
  · exact hcontent

/-- A package still fits if it has moved with all that is inside it. -/
theorem Fits.shift {entries entries' : List LayoutEntry} {box : LayoutEntry}
    (h : Fits s entries box) {dx dy : Int}
    (hinside : (entriesIn entries' box.view).map LayoutEntry.bounds
      = ((entriesIn entries box.view).map LayoutEntry.bounds).map (·.shift dx dy)) :
    Fits s entries' (box.reshape (·.shift dx dy)) := by
  simp only [Fits, LayoutEntry.view_reshape, hinside, Bounds.mergeAll_map_shift] at h ⊢
  cases hcontent : Bounds.mergeAll ((entriesIn entries box.view).map LayoutEntry.bounds) with
  | none =>
      rw [hcontent] at h
      simpa using h
  | some content =>
      rw [hcontent] at h
      simp only [Option.map_some, LayoutEntry.bounds_reshape, h, Bounds.shift_pad]

omit [ModelStore σ] [ViewStore σ] [BackedStore σ] in
/-- Entries that stay where they belong are inside the same views as before. -/
theorem entriesIn_map (entries : List LayoutEntry) {f : LayoutEntry → LayoutEntry}
    (hf : ∀ e, (f e).container = e.container) (container : ViewId) :
    entriesIn (entries.map f) container = (entriesIn entries container).map f := by
  rw [entriesIn, entriesIn, List.filter_map]
  congr 1
  exact List.filter_congr fun e _ => by rw [Function.comp_apply, hf]

/-! ### Staying together -/

theorem mem_children (h : Running start p) {container v : ViewId} :
    v ∈ p.children container ↔ ∃ e ∈ p.entries, e.container = some container ∧ e.view = v := by
  simp only [h.children_eq, List.mem_map, mem_entriesIn, and_assoc]

/-- Redrawn views are still inside the same views. -/
theorem children_redrawn (h : Running start p) {q : Placement σ} (hq : Redrawn start p q)
    (container : ViewId) : q.children container = p.children container := by
  obtain ⟨r, hr⟩ := hq.entries_eq
  rw [hq.running.children_eq, h.children_eq, hr,
    entriesIn_map _ (f := fun e => e.reshape (r e.view)) fun e => rfl, List.map_map]
  rfl

/-- A view and what is directly inside it have been moved together, if at all. -/
def Rigid (p q : Placement σ) (view : ViewId) : Prop :=
  ∃ dx dy, ∀ e ∈ p.entries, e.view = view ∨ e.container = some view →
    e.reshape (·.shift dx dy) ∈ q.entries

omit [ModelStore σ] [BackedStore σ] in
theorem Rigid.of_mem {q : Placement σ} {view : ViewId}
    (h : ∀ e ∈ p.entries, e.view = view ∨ e.container = some view → e ∈ q.entries) :
    Rigid p q view :=
  ⟨0, 0, fun e he hview => by simpa using h e he hview⟩

omit [ModelStore σ] [BackedStore σ] in
theorem Rigid.refl (p : Placement σ) (view : ViewId) : Rigid p p view :=
  .of_mem fun _ he _ => he

omit [ModelStore σ] [BackedStore σ] in
theorem Rigid.trans {q q' : Placement σ} {view : ViewId} (h : Rigid p q view)
    (h' : Rigid q q' view) : Rigid p q' view := by
  obtain ⟨dx, dy, hmoved⟩ := h
  obtain ⟨dx', dy', hmoved'⟩ := h'
  refine ⟨dx + dx', dy + dy', ?_⟩
  intro e he hview
  have hmem := hmoved' _ (hmoved e he hview) hview
  rw [LayoutEntry.reshape_reshape] at hmem
  simpa only [Bounds.shift_shift] using hmem

/-- Moving a view keeps every other one together with what is directly inside it, except the one
directly around it. -/
theorem rigid_translate (h : Running start p) {v view : ViewId} (hout : v ∉ p.children view)
    (dx dy : Int) : Rigid p (p.translate v dx dy) view := by
  have hinside : ∀ e ∈ p.entries, e.view = view ∨ e.container = some view →
      (Carries p v e.view ↔ Carries p v view) := by
    intro e he hin
    rcases hin with hview | hc
    · rw [hview]
    · rw [h.carries_iff he fun heq => hout ((mem_children h).2 ⟨e, he, hc, heq⟩), hc]
      simp
  have hmem : ∀ e ∈ p.entries,
      (if Carries p v e.view then e.reshape (·.shift dx dy) else e)
        ∈ (p.translate v dx dy).entries := by
    intro e he
    rw [h.entries_translate]
    exact List.mem_map_of_mem he
  by_cases hcarried : Carries p v view
  · refine ⟨dx, dy, ?_⟩
    intro e he hview
    have := hmem e he
    rwa [if_pos ((hinside e he hview).2 hcarried)] at this
  · refine .of_mem ?_
    intro e he hview
    have := hmem e he
    rwa [if_neg fun hc => hcarried ((hinside e he hview).1 hc)] at this

/-- Giving a view other bounds touches neither another view nor what is directly inside that, except
the one directly around it. -/
theorem rigid_updateView (h : Running start p) {v view : ViewId} (hne : v ≠ view)
    (hout : v ∉ p.children view) (r : Bounds → Bounds) :
    Rigid p (p.updateView v (·.reshape r)) view := by
  refine .of_mem ?_
  intro e he hview
  rw [entries_updateView]
  refine List.mem_map.2 ⟨e, he, if_neg ?_⟩
  intro heq
  subst heq
  rcases hview with hview | hc
  · exact hne hview
  · exact hout ((mem_children h).2 ⟨e, he, hc, rfl⟩)

/-- Moving views into a row keeps every view together with what is directly inside it, if none of
them is. -/
theorem rigid_layOutRow (h : Running start p) {views : List ViewId} {view : ViewId}
    (hout : ∀ v ∈ views, v ∉ p.children view) (origin : Point) (spacing : Int) :
    Rigid p (layOutRow p views origin spacing).2 view := by
  have hrow : Redrawn start p (layOutRow p views origin spacing).2 ∧
      Rigid p (layOutRow p views origin spacing).2 view := by
    refine layOutRow_induct (motive := fun q => Redrawn start p q ∧ Rigid p q view) ?_
      ⟨.refl h, .refl p view⟩ _ _
    intro q v hv dx dy hsofar
    obtain ⟨hq, hrigid⟩ := hsofar
    have hvout := hout v hv
    rw [← children_redrawn h hq] at hvout
    exact ⟨hq.trans (hq.running.redrawn_translate v dx dy),
      hrigid.trans (rigid_translate hq.running hvout dx dy)⟩
  exact hrow.2

/-! ### Boxes stay exact -/

/-- The package with this view fits. -/
def Settled (s : PackageSettings) (p : Placement σ) (view : ViewId) : Prop :=
  ∀ box ∈ p.entries, box.view = view → Fits s p.entries box

/-- What is directly inside a rigid view moves as one. -/
theorem Rigid.entriesIn_eq (hq : Redrawn start p q) {view : ViewId} {dx dy : Int}
    (h : ∀ e ∈ p.entries, e.view = view ∨ e.container = some view →
      e.reshape (·.shift dx dy) ∈ q.entries) :
    entriesIn q.entries view = (entriesIn p.entries view).map (·.reshape (·.shift dx dy)) := by
  obtain ⟨r, hr⟩ := hq.entries_eq
  rw [hr, entriesIn_map _ (f := fun e => e.reshape (r e.view)) fun e => rfl]
  apply List.map_congr_left
  intro e he
  obtain ⟨he, hc⟩ := mem_entriesIn.1 he
  refine hq.running.eq_of_view_eq ?_ (h e he (.inr hc)) rfl
  rw [hr]
  exact List.mem_map_of_mem he

/-- A package that fits does so as long as it stays together with what is directly inside it. -/
theorem Settled.rigid {view : ViewId} (h : Settled s p view) (hq : Redrawn start p q)
    (hrigid : Rigid p q view) : Settled s q view := by
  obtain ⟨dx, dy, hmoved⟩ := hrigid
  intro box' hbox' hview
  obtain ⟨box, hbox, -, hsame, -⟩ := hq.mem_of_mem hbox'
  obtain rfl := hq.running.eq_of_view_eq (hmoved box hbox (.inl (hsame.trans hview))) hbox' hsame
  have hview : box.view = view := hview
  refine (h box hbox hview).shift ?_
  rw [hview, Rigid.entriesIn_eq hq hmoved, List.map_map, List.map_map]
  exact List.map_congr_left fun e _ => e.bounds_reshape _

/-- The entries directly inside a view do not change with a view that is not one of them. -/
theorem entriesIn_updateView (h : Running start p) {v view : ViewId} (hout : v ∉ p.children view)
    (r : Bounds → Bounds) :
    entriesIn (p.updateView v (·.reshape r)).entries view = entriesIn p.entries view := by
  rw [entries_updateView, entriesIn_map _ fun e => by split <;> rfl]
  refine (List.map_congr_left fun e he => if_neg fun hview => ?_).trans (List.map_id _)
  obtain ⟨he, hc⟩ := mem_entriesIn.1 he
  exact hout ((mem_children h).2 ⟨e, he, hc, hview⟩)

/-- A view is not directly inside itself. -/
theorem not_mem_children_self (h : Running start p) (view : ViewId) :
    view ∉ p.children view := by
  intro hmem
  obtain ⟨e, he, hc, hview⟩ := (mem_children h).1 hmem
  have hlt := h.container_lt e he view hc
  rw [hview] at hlt
  exact Nat.lt_irrefl _ hlt

/-- A package fits once it has the box around what is directly inside it. -/
theorem settled_updateView_self (h : Running start p) {view : ViewId} {b : Bounds}
    (hb : b = boxFor s (Bounds.mergeAll ((entriesIn p.entries view).map LayoutEntry.bounds))) :
    Settled s (p.updateView view (·.reshape fun _ => b)) view := by
  intro box' hbox' hview
  rw [Fits, hview, entriesIn_updateView h (not_mem_children_self h view)]
  rw [entries_updateView] at hbox'
  obtain ⟨box, hbox, rfl⟩ := List.mem_map.1 hbox'
  have hself : box.view = view := by
    rw [← hview]
    split <;> rfl
  rw [if_pos hself]
  cases hcontent : Bounds.mergeAll ((entriesIn p.entries view).map LayoutEntry.bounds) with
  | none => simp only [LayoutEntry.size_reshape, hb, hcontent, boxFor, Point.toSize_toBounds]
  | some content => simp only [LayoutEntry.bounds_reshape, hb, hcontent, boxFor]

/-! ### Fitting one package -/

/-- The views directly inside a view that a package is fitted around. -/
def fixedIn (packageViews : List ViewId) (f : Fitting σ) (view : ViewId) : List ViewId :=
  (f.placement.children view).filter fun child => child ∉ packageViews || child ∈ f.anchored

/-- The views directly inside a view that are moved beside the fixed ones. -/
def floatingIn (packageViews : List ViewId) (f : Fitting σ) (view : ViewId) : List ViewId :=
  (f.placement.children view).filter fun child => !(child ∉ packageViews || child ∈ f.anchored)

/-- Where the row of floating views begins: beside what is fixed. -/
def rowOrigin (s : PackageSettings) : Option Bounds → Point
  | some content => ⟨content.maxX + s.spacing, content.minY⟩
  | none => ⟨0, 0⟩

/-- The run in which the floating views of a package have been moved. -/
def withRow (s : PackageSettings) (packageViews : List ViewId) (f : Fitting σ)
    (view : ViewId) : Placement σ :=
  (layOutRow f.placement (floatingIn packageViews f view)
    (rowOrigin s (f.placement.mergedBounds? (fixedIn packageViews f view))) s.spacing).2

omit [ModelStore σ] [BackedStore σ] in
/-- Fitting a package moves its floating children and then gives it the box around all children. It
is anchored if any of them is fixed. -/
theorem fitPackage_eq (s : PackageSettings) (packageViews : List ViewId) (f : Fitting σ)
    {package : ElementId} {view : ViewId} (hview : f.placement.viewOf? package = some view) :
    fitPackage s packageViews f package =
      { placement := (withRow s packageViews f view).updateView view (·.reshape fun _ =>
          boxFor s (Bounds.merge? (f.placement.mergedBounds? (fixedIn packageViews f view))
            ((withRow s packageViews f view).mergedBounds? (floatingIn packageViews f view))))
        anchored := f.anchored ++
          if (f.placement.mergedBounds? (fixedIn packageViews f view)).isSome then [view]
          else [] } := by
  obtain ⟨content?, hcontent⟩ : ∃ content?,
      f.placement.mergedBounds? (fixedIn packageViews f view) = content? := ⟨_, rfl⟩
  simp only [fitPackage, hview, List.partition_eq_filter_filter, withRow, hcontent]
  simp only [fixedIn] at hcontent
  simp only [hcontent]
  cases content? with
  | none =>
      rw [Option.isSome_none, if_neg Bool.false_ne_true, List.append_nil]
      rfl
  | some content =>
      rw [Option.isSome_some, if_pos rfl, Bounds.merge?_some]
      rfl

section FitPackage

variable {f : Fitting σ}

theorem redrawn_withRow (h : Running start f.placement) (packageViews : List ViewId)
    (view : ViewId) : Redrawn start f.placement (withRow s packageViews f view) :=
  redrawn_layOutRow h _ _ _

/-- The fixed views of a package stay where they are when the floating ones are moved. -/
theorem boundsOf?_withRow (h : Running start f.placement) {packageViews : List ViewId}
    {view v : ViewId} (hv : v ∈ fixedIn packageViews f view) :
    (withRow s packageViews f view).boundsOf? v = f.placement.boundsOf? v := by
  obtain ⟨hchild, hfixed⟩ := List.mem_filter.1 hv
  obtain ⟨e, he, hc, rfl⟩ := (mem_children h).1 hchild
  have hstays : e ∈ (withRow s packageViews f view).entries := by
    refine mem_layOutRow h he ?_ ?_ _ _
    · intro u hu
      obtain ⟨u', hu', hc', hview⟩ := (mem_children h).1 (List.mem_of_mem_filter hu)
      exact ⟨u', hu', hview, hc'.trans hc.symm⟩
    · intro hfloating
      have hfloats := (List.mem_filter.1 hfloating).2
      rw [hfixed] at hfloats
      cases hfloats
  rw [boundsOf?_eq hstays, boundsOf?_eq he]

/-- The bounds of the fixed views are the same once the floating ones have been moved. -/
theorem mergedBounds?_fixedIn (h : Running start f.placement) (packageViews : List ViewId)
    (view : ViewId) :
    f.placement.mergedBounds? (fixedIn packageViews f view)
      = (withRow s packageViews f view).mergedBounds? (fixedIn packageViews f view) := by
  rw [Placement.mergedBounds?, Placement.mergedBounds?]
  congr 1
  exact List.filterMap_congr fun v hv => (boundsOf?_withRow h hv).symm

/-- What a package is fitted around is all that is directly inside it, where it is now. -/
theorem mergedBounds?_withRow (h : Running start f.placement) (packageViews : List ViewId)
    (view : ViewId) :
    Bounds.merge? (f.placement.mergedBounds? (fixedIn packageViews f view))
        ((withRow s packageViews f view).mergedBounds? (floatingIn packageViews f view))
      = Bounds.mergeAll ((entriesIn (withRow s packageViews f view).entries view).map
          LayoutEntry.bounds) := by
  have hrow := redrawn_withRow (s := s) h packageViews view
  rw [mergedBounds?_fixedIn (s := s) h packageViews view, ← Placement.mergedBounds?_append]
  refine (Placement.mergedBounds?_perm _ (List.filter_append_perm _ _)).trans ?_
  rw [← children_redrawn h hrow, hrow.running.children_eq]
  exact Placement.mergedBounds?_map_view fun e he => (mem_entriesIn.1 he).1

theorem redrawn_fitPackage (h : Running start f.placement) (packageViews : List ViewId)
    (package : ElementId) :
    Redrawn start f.placement (fitPackage s packageViews f package).placement := by
  cases hview : f.placement.viewOf? package with
  | none =>
      simp only [fitPackage, hview]
      exact .refl h
  | some view =>
      rw [fitPackage_eq s packageViews f hview]
      have hrow := redrawn_withRow (s := s) h packageViews view
      exact hrow.trans (hrow.running.redrawn_updateView view _)

/-- A package gets the box around all that is directly inside it. -/
theorem fitPackage_placement (s : PackageSettings) (h : Running start f.placement)
    (packageViews : List ViewId) {package : ElementId} {view : ViewId}
    (hview : f.placement.viewOf? package = some view) :
    (fitPackage s packageViews f package).placement
      = (withRow s packageViews f view).updateView view (·.reshape fun _ => boxFor s
          (Bounds.mergeAll ((entriesIn (withRow s packageViews f view).entries view).map
            LayoutEntry.bounds))) := by
  rw [fitPackage_eq s packageViews f hview, mergedBounds?_withRow h]

/-- A package fits once it has been its turn. -/
theorem settled_fitPackage_self (h : Running start f.placement) (packageViews : List ViewId)
    {package : ElementId} {view : ViewId} (hview : f.placement.viewOf? package = some view) :
    Settled s (fitPackage s packageViews f package).placement view := by
  rw [fitPackage_placement s h packageViews hview]
  exact settled_updateView_self (redrawn_withRow h packageViews view).running rfl

/-- The turn of a package keeps every other one together with what is directly inside it, except
the one directly around it. -/
theorem rigid_fitPackage (h : Running start f.placement) (packageViews : List ViewId)
    {package : ElementId} {view view' : ViewId}
    (hview : f.placement.viewOf? package = some view) (hne : view ≠ view')
    (hout : view ∉ f.placement.children view') :
    Rigid f.placement (fitPackage s packageViews f package).placement view' := by
  have hrow := redrawn_withRow (s := s) h packageViews view
  rw [fitPackage_eq s packageViews f hview]
  refine Rigid.trans ?_ (rigid_updateView hrow.running hne (by rwa [children_redrawn h hrow]) _)
  refine rigid_layOutRow h ?_ _ _
  intro v hv hmem
  obtain ⟨u, hu, huc, rfl⟩ := (mem_children h).1 (List.mem_of_mem_filter hv)
  obtain ⟨e, he, hec, heq⟩ := (mem_children h).1 hmem
  obtain rfl := h.eq_of_view_eq he hu heq
  exact hne (Option.some.inj (huc.symm.trans hec))

end FitPackage

/-! ### Fitting all packages -/

/-- The view of an element is directly inside the view of a package only if the package owns it. -/
theorem owner_of_mem_children (h : Running start p) {element package : ElementId}
    {v view : ViewId} (hv : p.viewOf? element = some v) (hview : p.viewOf? package = some view)
    (hmem : v ∈ p.children view) : owningPackage? start element = some package := by
  obtain ⟨e, he, hc, rfl⟩ := (mem_children h).1 hmem
  obtain ⟨q, hq, rfl, howner⟩ := h.container_mem he hc
  have heq : ∀ e' ∈ p.entries, ∀ x, p.viewOf? x = some e'.view → e'.element = x := by
    intro e' he' x hx
    have hmem := h.viewOf?_eq_some.1 hx
    rw [← h.map_entries] at hmem
    obtain ⟨e'', he'', hpair⟩ := List.mem_map.1 hmem
    obtain ⟨rfl, hsame⟩ := Prod.mk.inj hpair
    rw [h.eq_of_view_eq he' he'' hsame.symm]
  rw [← heq e he element hv, howner, heq q hq package hview]

/-- A package stays together with what is directly inside it while others have their turn, if it
owns none of them. -/
theorem rigid_foldl_fitPackage {f : Fitting σ} (h : Running start f.placement)
    (packageViews : List ViewId) {packages : List ElementId} {package : ElementId}
    (howned : ∀ a ∈ packages, a ≠ package ∧ owningPackage? start a ≠ some package)
    {view : ViewId} (hview : f.placement.viewOf? package = some view) :
    Rigid f.placement (packages.foldl (fitPackage s packageViews) f).placement view := by
  induction packages generalizing f with
  | nil => exact .refl _ view
  | cons a rest ih =>
      obtain ⟨hne, howner⟩ := howned a List.mem_cons_self
      have hstep := redrawn_fitPackage (s := s) h packageViews a
      have hrest := ih hstep.running (fun b hb => howned b (List.mem_cons_of_mem _ hb)) (by
        rw [Placement.viewOf?, hstep.views_eq]
        exact hview)
      refine Rigid.trans ?_ hrest
      cases ha : f.placement.viewOf? a with
      | none =>
          simp only [fitPackage, ha]
          exact .refl _ view
      | some v =>
          refine rigid_fitPackage h packageViews ha ?_ ?_
          · intro heq
            subst heq
            exact hne (h.viewOf?_inj ha hview)
          · intro hmem
            exact howner (owner_of_mem_children h ha hview hmem)

theorem redrawn_foldl_fitPackage {f : Fitting σ} (h : Running start f.placement)
    (packageViews : List ViewId) (packages : List ElementId) :
    Redrawn start f.placement (packages.foldl (fitPackage s packageViews) f).placement := by
  induction packages generalizing f with
  | nil => exact .refl h
  | cons a rest ih =>
      have hstep := redrawn_fitPackage (s := s) h packageViews a
      exact hstep.trans (ih hstep.running)

/-! ### Moving the floating packages -/

/-- The packages that are moved into the row below everything else. -/
def topFloating (packageViews : List ViewId) (f : Fitting σ) : List ViewId :=
  packageViews.filter fun view => view ∉ f.anchored && isTopLevel f.placement view

/-- Everything else that is in no container. -/
def topFixed (packageViews : List ViewId) (f : Fitting σ) : List ViewId :=
  f.placement.views.values.filter fun view =>
    view ∉ topFloating packageViews f && isTopLevel f.placement view

/-- Where the row of floating packages begins: below everything else. -/
def topOrigin (s : PackageSettings) (origin : Point) (packageViews : List ViewId)
    (f : Fitting σ) : Point :=
  ⟨origin.x, (f.placement.mergedBounds? (topFixed packageViews f)).elim origin.y
    fun bounds => bounds.maxY + s.spacing⟩

omit [ModelStore σ] [BackedStore σ] in
/-- The floating packages are laid out in a row, be it an empty one. -/
theorem moveFloating_eq (s : PackageSettings) (origin : Point) (packageViews : List ViewId)
    (f : Fitting σ) : moveFloating s origin packageViews f
      = (layOutRow f.placement (topFloating packageViews f) (topOrigin s origin packageViews f)
          s.spacing).2 := by
  simp only [moveFloating]
  split
  · next hempty =>
      have hnone : topFloating packageViews f = [] := List.isEmpty_iff.1 hempty
      rw [hnone]
      rfl
  · rfl

theorem redrawn_moveFloating {f : Fitting σ} (h : Running start f.placement) (origin : Point)
    (packageViews : List ViewId) :
    Redrawn start f.placement (moveFloating s origin packageViews f) := by
  rw [moveFloating_eq]
  exact redrawn_layOutRow h _ _ _

/-- A view of the run is at the top level if it is in no container. -/
theorem isTopLevel_iff {e : LayoutEntry} (he : e ∈ p.entries) :
    isTopLevel p e.view ↔ e.container = none := by
  obtain ⟨v, -, hv, heq⟩ := Placement.mem_entries.1 he
  have hcontainer : e.container = v.container := by rw [heq]; rfl
  simp [isTopLevel, hv, hcontainer]

/-- A package that is in no other is directly inside none, so every view stays together with what is
directly inside it. -/
theorem rigid_moveFloating {f : Fitting σ} (h : Running start f.placement) (origin : Point)
    (packageViews : List ViewId) (view : ViewId) :
    Rigid f.placement (moveFloating s origin packageViews f) view := by
  rw [moveFloating_eq]
  refine rigid_layOutRow h ?_ _ _
  intro v hv hmem
  obtain ⟨e, he, hc, rfl⟩ := (mem_children h).1 hmem
  have htop := (List.mem_filter.1 hv).2
  rw [Bool.and_eq_true, isTopLevel_iff he, hc] at htop
  cases htop.2

theorem redrawn_fit (h : Running start p) (packages : List ElementId) (origin : Point)
    (s : PackageSettings) : Redrawn start p (fit p packages origin s) := by
  have hfold := redrawn_foldl_fitPackage (s := s) (f := { placement := p }) h
    (packages.filterMap p.viewOf?) packages
  exact hfold.trans (redrawn_moveFloating hfold.running origin _)

/-- **From the turn of a package on** it stays together with what is directly inside it, if none of
the packages fitted later is inside it. -/
theorem rigid_fit (h : Running start p) {done rest : List ElementId} {package : ElementId}
    (hnodup : (done ++ package :: rest).Nodup)
    (hdeepest : (done ++ package :: rest).Pairwise fun a b => owningPackage? start b ≠ some a)
    (origin : Point) {view : ViewId} (hview : p.viewOf? package = some view)
    {f : Fitting σ} (hf : f = done.foldl
      (fitPackage s ((done ++ package :: rest).filterMap p.viewOf?)) { placement := p }) :
    Redrawn start p f.placement ∧
      Redrawn start
        (fitPackage s ((done ++ package :: rest).filterMap p.viewOf?) f package).placement
        (fit p (done ++ package :: rest) origin s) ∧
      Rigid (fitPackage s ((done ++ package :: rest).filterMap p.viewOf?) f package).placement
        (fit p (done ++ package :: rest) origin s) view := by
  obtain ⟨packageViews, hviews⟩ :
      ∃ packageViews, (done ++ package :: rest).filterMap p.viewOf? = packageViews := ⟨_, rfl⟩
  simp only [fit, hviews, List.foldl_append, List.foldl_cons] at hf ⊢
  rw [← hf]
  have hbefore : Redrawn start p f.placement :=
    hf ▸ redrawn_foldl_fitPackage (f := { placement := p }) h packageViews done
  have hturn := redrawn_fitPackage (s := s) hbefore.running packageViews package
  have hafter := redrawn_foldl_fitPackage (s := s) hturn.running packageViews rest
  have hlater : ∀ a ∈ rest, a ≠ package ∧ owningPackage? start a ≠ some package := by
    intro a ha
    refine ⟨?_, (List.pairwise_cons.1 (List.pairwise_append.1 hdeepest).2.1).1 a ha⟩
    intro heq
    subst heq
    exact (List.nodup_cons.1 (List.nodup_append.1 hnodup).2.1).1 ha
  have hview' : (fitPackage s packageViews f package).placement.viewOf? package = some view := by
    rw [Placement.viewOf?, hturn.views_eq, hbefore.views_eq]
    exact hview
  exact ⟨hbefore, hafter.trans (redrawn_moveFloating hafter.running origin packageViews),
    (rigid_foldl_fitPackage hturn.running packageViews hlater hview').trans
      (rigid_moveFloating hafter.running origin packageViews view)⟩

/-- **Exact boxes.** Once all packages have been fitted, none before one that it owns, the box of
each of them is exactly around what is directly inside it. -/
theorem settled_fit (h : Running start p) {packages : List ElementId} (hnodup : packages.Nodup)
    (hdeepest : packages.Pairwise fun a b => owningPackage? start b ≠ some a)
    (origin : Point) {package : ElementId} (hmem : package ∈ packages) {view : ViewId}
    (hview : p.viewOf? package = some view) : Settled s (fit p packages origin s) view := by
  obtain ⟨done, rest, rfl⟩ := List.append_of_mem hmem
  obtain ⟨hbefore, hafter, hrigid⟩ := rigid_fit (s := s) h hnodup hdeepest origin hview rfl
  refine Settled.rigid (settled_fitPackage_self hbefore.running _ ?_) hafter hrigid
  rw [Placement.viewOf?, hbefore.views_eq]
  exact hview

end Packages

end UmlText
