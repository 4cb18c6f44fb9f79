import Mathlib.Logic.Relation
import UmlText.Proofs.Layout.Keeping

/-!
# UmlText.Proofs.Layout.Translating

**Moving a view is a rigid motion of one subtree.** To move a view with all that is inside it, a
loop takes the last of the pending views, moves it, and makes what is directly inside it pending in
turn (`Walks`). The loop does not remember what it has moved. It ends all the same, and moves
nothing twice, because the views of a run form a forest: a container is numbered before what is inside
it (`Grounded`), so what is pending lies in separate subtrees. That is how views come to be: an
element is placed in a view the run already has (`Reached.grounded`).
-/

namespace UmlText

universe u

open BackedStore (workspace)

namespace Placement

section Walks

variable {σ : Type u} [ViewStore σ]

/-- The first view is directly inside the second. -/
def DirectlyIn (p : Placement σ) (view container : ViewId) : Prop :=
  p.containerOf? view = some container

/-- The first view is inside the second, as far as the run knows: the chain of its containers leads
there. -/
def ChainsTo (p : Placement σ) (view container : ViewId) : Prop :=
  Relation.TransGen p.DirectlyIn view container

/-- The loop that moves views. The last of the pending views stands first; `moved` lists the views
as they are moved. -/
inductive Walks (dx dy : Int) :
    Placement σ → List ViewId → List ViewId → Placement σ → Prop where
  | done (p : Placement σ) : Walks dx dy p [] [] p
  | next {p q : Placement σ} {view : ViewId} {pending moved : List ViewId}
      (h : Walks dx dy (p.updateView view (·.shift dx dy))
        (((p.updateView view (·.shift dx dy)).children view).reverse ++ pending) moved q) :
      Walks dx dy p (view :: pending) (view :: moved) q

/-- The order in which the loop comes to the views, which is told by what is inside what. -/
inductive Tour (children : ViewId → List ViewId) : List ViewId → List ViewId → Prop where
  | done : Tour children [] []
  | next {view : ViewId} {pending moved : List ViewId}
      (h : Tour children ((children view).reverse ++ pending) moved) :
      Tour children (view :: pending) (view :: moved)

/-- A view is directly inside one other at most. -/
theorem rightUnique_directlyIn (p : Placement σ) : Relator.RightUnique p.DirectlyIn :=
  fun _ _ _ hb hc => Option.some.inj (hb.symm.trans hc)

theorem mem_children_iff {p : Placement σ} {view container : ViewId} :
    view ∈ p.children container ↔ view ∈ p.views.values ∧ p.DirectlyIn view container := by
  rw [children, List.mem_filter, decide_eq_true_eq]
  rfl

end Walks

section Bounds

variable {σ : Type u} [ModelStore σ] [ViewStore σ] [BackedStore σ]

/-- An edit that keeps the containers of views keeps what is inside what. -/
theorem containerOf?_updateView (p : Placement σ) (view : ViewId) {f : View → View}
    (hid : ∀ v, (f v).id = v.id) (hcontainer : ∀ v, (f v).container = v.container) (v : ViewId) :
    (p.updateView view f).containerOf? v = p.containerOf? v := by
  simp only [containerOf?, updateView, BackedStore.view?_eq, BackedStore.workspace_updateView]
  rw [Workspace.view?_updateView _ _ _ hid]
  cases (workspace p.store).view? v with
  | none => rfl
  | some found =>
      rw [Option.map_some, Option.bind_some, Option.bind_some]
      split
      · exact hcontainer found
      · rfl

theorem containerOf?_shift (p : Placement σ) (view : ViewId) (dx dy : Int) (v : ViewId) :
    (p.updateView view (·.shift dx dy)).containerOf? v = p.containerOf? v :=
  containerOf?_updateView p view (f := (·.shift dx dy)) (fun _ => rfl) (fun _ => rfl) v

end Bounds

section Grounded

variable {σ : Type u} [ModelStore σ] [ViewStore σ] [BackedStore σ] {p : Placement σ}

/-- A run whose views form a forest, each numbered after the one around it. -/
structure Grounded (p : Placement σ) : Prop where
  /-- The counter is ahead of every view of the store. -/
  view_lt : ∀ v ∈ (workspace p.store).views, v.id.index < (workspace p.store).nextView
  /-- The store knows the views of the run. -/
  known : ∀ view ∈ p.views.values, ∃ v, (workspace p.store).view? view = some v
  /-- They are numbered as they were placed. -/
  increasing : p.views.values.Pairwise fun view view' => view.index < view'.index
  /-- The view around one of the run is one of the run, and was made before. -/
  container : ∀ view ∈ p.views.values, ∀ c, p.DirectlyIn view c →
    c ∈ p.views.values ∧ c.index < view.index

namespace Grounded

variable {view container : ViewId}

theorem value_lt (h : Grounded p) (hview : view ∈ p.views.values) :
    view.index < (workspace p.store).nextView := by
  obtain ⟨v, hv⟩ := h.known view hview
  rw [← id_of_view? hv]
  exact h.view_lt v (List.mem_of_find?_eq_some hv)

theorem nodup_values (h : Grounded p) : p.views.values.Nodup :=
  Running.nodup_of_increasing h.increasing

theorem lt_of_chainsTo (h : Grounded p) (hview : view ∈ p.views.values)
    (hchain : p.ChainsTo view container) :
    container ∈ p.views.values ∧ container.index < view.index := by
  induction hchain with
  | single hc => exact h.container _ hview _ hc
  | tail _ hc ih =>
      obtain ⟨hmem, hlt⟩ := h.container _ ih.1 _ hc
      exact ⟨hmem, Nat.lt_trans hlt ih.2⟩

/-- What is inside a view is directly inside it, or inside something that is. -/
theorem chainsTo_iff (h : Grounded p) (hview : view ∈ p.views.values) :
    p.ChainsTo view container ↔
      ∃ c ∈ p.children container, view = c ∨ p.ChainsTo view c := by
  constructor
  · intro hchain
    obtain ⟨c, hreach, hc⟩ := Relation.TransGen.tail'_iff.1 hchain
    rcases Relation.reflTransGen_iff_eq_or_transGen.1 hreach with rfl | hinside
    · exact ⟨c, mem_children_iff.2 ⟨hview, hc⟩, .inl rfl⟩
    · exact ⟨c, mem_children_iff.2 ⟨(h.lt_of_chainsTo hview hinside).1, hc⟩, .inr hinside⟩
  · rintro ⟨c, hc, rfl | hinside⟩
    · exact .single (mem_children_iff.1 hc).2
    · exact hinside.tail (mem_children_iff.1 hc).2

/-- Nothing is inside two views that are side by side. -/
theorem eq_of_chainsTo (h : Grounded p) {a b : ViewId} (ha : a ∈ p.children container)
    (hb : b ∈ p.children container) (hview : view = a ∨ p.ChainsTo view a)
    (hview' : view = b ∨ p.ChainsTo view b) : a = b := by
  -- One of the two would be inside the other, hence the container inside itself.
  have hno : ∀ {a b : ViewId}, a ∈ p.children container → b ∈ p.children container →
      ¬ p.ChainsTo a b := by
    intro a b ha hb hchain
    obtain ⟨c, hc, hreach⟩ := Relation.TransGen.head'_iff.1 hchain
    obtain rfl := p.rightUnique_directlyIn hc (mem_children_iff.1 ha).2
    obtain ⟨hbmem, hbin⟩ := mem_children_iff.1 hb
    obtain ⟨hcmem, hlt⟩ := h.container b hbmem c hbin
    rcases Relation.reflTransGen_iff_eq_or_transGen.1 hreach with rfl | hinside
    · exact Nat.lt_irrefl _ hlt
    · exact Nat.lt_asymm hlt (h.lt_of_chainsTo hcmem hinside).2
  have hreach : Relation.ReflTransGen p.DirectlyIn view a :=
    Relation.reflTransGen_iff_eq_or_transGen.2 (hview.imp_left Eq.symm)
  have hreach' : Relation.ReflTransGen p.DirectlyIn view b :=
    Relation.reflTransGen_iff_eq_or_transGen.2 (hview'.imp_left Eq.symm)
  rcases hreach.total_of_right_unique p.rightUnique_directlyIn hreach' with hab | hba
  · rcases Relation.reflTransGen_iff_eq_or_transGen.1 hab with rfl | hchain
    · rfl
    · exact absurd hchain (hno ha hb)
  · rcases Relation.reflTransGen_iff_eq_or_transGen.1 hba with rfl | hchain
    · rfl
    · exact absurd hchain (hno hb ha)

/-! ### The subtree of a view -/

/-- The views of a subtree, as the loop comes to them. -/
structure Subtree (p : Placement σ) (view : ViewId) (part : List ViewId) : Prop where
  nodup : part.Nodup
  mem_iff : ∀ v, v ∈ part ↔ v = view ∨ v ∈ p.views.values ∧ p.ChainsTo v view
  /-- Once the loop has come to the view, it is done with the subtree before anything else. -/
  tour : ∀ pending moved, Tour p.children pending moved →
    Tour p.children (view :: pending) (part ++ moved)

/-- The subtrees of views that are side by side are visited one after the other. -/
theorem exists_subtrees (h : Grounded p) {views : List ViewId} (hnodup : views.Nodup)
    (hviews : ∀ c ∈ views, c ∈ p.children container)
    (each : ∀ c ∈ views, ∃ part, Subtree p c part) :
    ∃ parts : List ViewId, parts.Nodup ∧
      (∀ v, v ∈ parts ↔ ∃ c ∈ views, v = c ∨ v ∈ p.views.values ∧ p.ChainsTo v c) ∧
      ∀ pending moved, Tour p.children pending moved →
        Tour p.children (views ++ pending) (parts ++ moved) := by
  induction views with
  | nil => exact ⟨[], List.nodup_nil, by simp, fun _ _ htour => htour⟩
  | cons c rest ih =>
      obtain ⟨hc, hrest⟩ := List.nodup_cons.1 hnodup
      obtain ⟨part, hpart⟩ := each c List.mem_cons_self
      obtain ⟨parts, hparts, hmem, htour⟩ := ih hrest
        (fun c' hc' => hviews c' (List.mem_cons_of_mem _ hc'))
        fun c' hc' => each c' (List.mem_cons_of_mem _ hc')
      refine ⟨part ++ parts, ?_, fun v => ?_, fun pending moved hpending => ?_⟩
      · refine List.nodup_append'.2 ⟨hpart.nodup, hparts, fun v hv hv' => ?_⟩
        obtain ⟨c', hc', hin'⟩ := (hmem v).1 hv'
        have heq : c = c' := h.eq_of_chainsTo (hviews c List.mem_cons_self)
          (hviews c' (List.mem_cons_of_mem _ hc')) (((hpart.mem_iff v).1 hv).imp_right And.right)
          (hin'.imp_right And.right)
        exact hc (heq ▸ hc')
      · rw [List.mem_append, hpart.mem_iff, hmem]
        simp only [List.mem_cons, exists_eq_or_imp]
      · rw [List.append_assoc, List.cons_append]
        exact hpart.tour _ _ (htour _ _ hpending)

/-- **The loop moves the subtree of a view and ends.** -/
theorem exists_subtree (h : Grounded p) (view : ViewId) : ∃ part, Subtree p view part := by
  -- What is inside has a larger number, but all numbers are below the counter.
  obtain ⟨n, hn⟩ : ∃ n, (workspace p.store).nextView - view.index = n := ⟨_, rfl⟩
  induction n using Nat.strongRecOn generalizing view with
  | ind n ih =>
      have hsub : (p.children view).Sublist p.views.values := List.filter_sublist
      have heach : ∀ c ∈ (p.children view).reverse, ∃ part, Subtree p c part := by
        intro c hc
        obtain ⟨hmem, hin⟩ := mem_children_iff.1 (List.mem_reverse.1 hc)
        have hlt := (h.container c hmem view hin).2
        have hend := h.value_lt hmem
        exact ih _ (by omega) c rfl
      obtain ⟨parts, hparts, hmem, htour⟩ := h.exists_subtrees
        (List.nodup_reverse.2 (h.nodup_values.sublist hsub))
        (fun c hc => List.mem_reverse.1 hc) heach
      have hinside : ∀ v, v ∈ parts ↔ v ∈ p.views.values ∧ p.ChainsTo v view := by
        intro v
        rw [hmem]
        constructor
        · rintro ⟨c, hc, rfl | ⟨hv, hchain⟩⟩
          · obtain ⟨hv, hin⟩ := mem_children_iff.1 (List.mem_reverse.1 hc)
            exact ⟨hv, .single hin⟩
          · exact ⟨hv, (h.chainsTo_iff hv).2 ⟨c, List.mem_reverse.1 hc, .inr hchain⟩⟩
        · rintro ⟨hv, hchain⟩
          obtain ⟨c, hc, hin⟩ := (h.chainsTo_iff hv).1 hchain
          exact ⟨c, List.mem_reverse.2 hc, hin.imp_right fun hchain => ⟨hv, hchain⟩⟩
      refine ⟨view :: parts, List.nodup_cons.2 ⟨fun hself => ?_, hparts⟩, fun v => ?_, ?_⟩
      · obtain ⟨hv, hchain⟩ := (hinside view).1 hself
        exact Nat.lt_irrefl _ (h.lt_of_chainsTo hv hchain).2
      · rw [List.mem_cons, hinside]
      · intro pending moved hpending
        exact .next (htour pending moved hpending)

/-- One pass over the views of a run finds the same subtree. -/
theorem mem_inside_iff (h : Grounded p) {v : ViewId} :
    v ∈ p.inside view ↔ v ∈ p.views.values ∧ p.ChainsTo v view := by
  have hlt : ∀ v ∈ p.views.values, ∀ c, p.containerOf? v = some c → c.index < v.index :=
    fun v hv c hc => (h.container v hv c hc).2
  have hstep : ∀ {v}, v ∈ p.views.values → (v ∈ p.inside view ↔
      ∃ c, p.containerOf? v = some c ∧ (c = view ∨ c ∈ p.inside view)) :=
    fun hv => Running.mem_insideOf h.increasing hlt view hv
  have hvalues : ∀ {v}, v ∈ p.inside view → v ∈ p.views.values :=
    fun hv => (Running.sublist_insideOf p.containerOf? p.views.values view).mem hv
  constructor
  · intro hv
    obtain ⟨n, hn⟩ : ∃ n, v.index = n := ⟨_, rfl⟩
    induction n using Nat.strongRecOn generalizing v with
    | ind n ih =>
        obtain ⟨c, hc, hc'⟩ := (hstep (hvalues hv)).1 hv
        refine ⟨hvalues hv, ?_⟩
        rcases hc' with rfl | hin
        · exact .single hc
        · exact .head hc (ih c.index (hn ▸ hlt v (hvalues hv) c hc) hin rfl).2
  · rintro ⟨hv, hchain⟩
    induction hchain using Relation.TransGen.head_induction_on with
    | single hc => exact (hstep hv).2 ⟨view, hc, .inl rfl⟩
    | head hc _ ih => exact (hstep hv).2 ⟨_, hc, .inr (ih (h.container _ hv _ hc).1)⟩

/-! ### What a run does -/

/-- Other bounds leave a forest what it is. -/
theorem updateView (h : Grounded p) (view : ViewId) {f : View → View}
    (hid : ∀ v, (f v).id = v.id) (hcontainer : ∀ v, (f v).container = v.container) :
    Grounded (p.updateView view f) := by
  have hw : workspace (p.updateView view f).store = (workspace p.store).updateView view f :=
    BackedStore.workspace_updateView ..
  refine ⟨by rw [hw]; exact Workspace.view_lt_updateView h.view_lt view hid, ?_, h.increasing, ?_⟩
  · intro u hu
    obtain ⟨v, hv⟩ := h.known u hu
    rw [hw, Workspace.view?_updateView _ _ _ hid, hv]
    exact ⟨_, rfl⟩
  · intro u hu c hc
    rw [DirectlyIn, containerOf?_updateView p view hid hcontainer] at hc
    exact h.container u hu c hc

theorem foldl_shift (h : Grounded p) (views : List ViewId) (dx dy : Int) :
    Grounded (views.foldl (fun p v => p.updateView v (·.shift dx dy)) p) := by
  induction views generalizing p with
  | nil => exact h
  | cons v rest ih => exact ih (h.updateView v (fun _ => rfl) fun _ => rfl)

theorem translate (h : Grounded p) (view : ViewId) (dx dy : Int) :
    Grounded (p.translate view dx dy) := by
  rw [Placement.translate]
  split
  · exact h
  · exact h.foldl_shift _ dx dy

/-- A forest is a matter of the workspace and of the views of the run. -/
theorem congr (h : Grounded p) {q : Placement σ} (hviews : q.views = p.views)
    (hw : workspace q.store = workspace p.store) : Grounded q := by
  refine ⟨by rw [hw]; exact h.view_lt, by rw [hviews, hw]; exact h.known,
    by rw [hviews]; exact h.increasing, ?_⟩
  intro v hv c hc
  rw [DirectlyIn, containerOf?, BackedStore.view?_eq, hw, ← BackedStore.view?_eq] at hc
  rw [hviews] at hv ⊢
  exact h.container v hv c hc

/-- A view that is not yet one of the run is the last one, inside one of the others at most. -/
theorem withView (h : Grounded p) {element : ElementId} (hnew : element ∉ p.views.keys)
    {new : View} (hid : new.id = ⟨(workspace p.store).nextView⟩)
    (hcontainer : new.container = p.containerFor? element) {store : σ}
    (hw : workspace store = (workspace p.store).withView new) :
    Grounded { p with store, views := p.views.insert element new.id } := by
  have hnewView : (workspace store).view? new.id = some new := by
    rw [hw, hid]
    exact Workspace.view?_withView_self h.view_lt hid
  have hold : ∀ {v : ViewId} {u : View}, (workspace p.store).view? v = some u →
      (workspace store).view? v = some u := by
    intro v u hu
    rw [hw]
    exact Workspace.view?_withView hu
  have hvalues := OrderedMap.values_insert_of_not_mem hnew new.id
  have hvalue : ∀ {v}, v ∈ (p.views.insert element new.id).values
      ↔ v ∈ p.views.values ∨ v = new.id := by
    intro v
    rw [hvalues, List.mem_append, List.mem_singleton]
  refine ⟨by rw [hw]; exact Workspace.view_lt_withView h.view_lt hid, ?_, ?_, ?_⟩
  · intro v hv
    rcases hvalue.1 hv with hv | rfl
    · obtain ⟨u, hu⟩ := h.known v hv
      exact ⟨u, hold hu⟩
    · exact ⟨new, hnewView⟩
  · rw [hvalues, List.pairwise_append]
    refine ⟨h.increasing, List.pairwise_singleton _ _, fun v hv v' hv' => ?_⟩
    obtain rfl := List.mem_singleton.1 hv'
    exact hid ▸ h.value_lt hv
  · intro v hv c hc
    rw [DirectlyIn, containerOf?, BackedStore.view?_eq] at hc
    rcases hvalue.1 hv with hv | rfl
    · obtain ⟨u, hu⟩ := h.known v hv
      have hc' : p.DirectlyIn v c := by
        rw [DirectlyIn, containerOf?, BackedStore.view?_eq, hu, ← hc, hold hu]
      obtain ⟨hmem, hlt⟩ := h.container v hv c hc'
      exact ⟨hvalue.2 (.inl hmem), hlt⟩
    · -- The view is in the one that the owning package has got in this run.
      rw [hnewView, Option.bind_some, hcontainer] at hc
      have hmem := mem_of_containerFor? hc
      exact ⟨hvalue.2 (.inl hmem), hid ▸ h.value_lt hmem⟩

theorem place (h : Grounded p) {element : ElementId} (hnew : element ∉ p.views.keys)
    (position : Point) (width : Option Int) :
    Grounded (p.place element position width).2 := by
  rcases place_cases p h.view_lt element position width with
    ⟨store, hw, hp⟩ | ⟨model, store, -, hw, hp⟩ <;> rw [hp]
  · exact h.congr rfl hw
  · exact h.withView hnew rfl rfl hw

end Grounded

end Grounded

/-! ### Moving a view -/

section Shifted

variable {p : Placement Workspace} {view : ViewId} {moved : List ViewId}

/-- The run in which some views of the store have moved, and nothing else has changed. -/
def shifted (p : Placement Workspace) (moved : List ViewId) (dx dy : Int) : Placement Workspace :=
  { p with
    store := { p.store with
      views := p.store.views.map fun v =>
        if v.id ∈ moved then { v with position := ⟨v.position.x + dx, v.position.y + dy⟩ }
        else v } }

theorem shifted_congr {moved' : List ViewId} (h : ∀ v, v ∈ moved ↔ v ∈ moved') (dx dy : Int) :
    p.shifted moved dx dy = p.shifted moved' dx dy := by
  simp only [shifted, h]

theorem shifted_zero : p.shifted moved 0 0 = p := by
  simp [shifted]

/-- Two motions of the same views are one by the sum. -/
theorem shifted_shifted (dx dy dx' dy' : Int) :
    (p.shifted moved dx dy).shifted moved dx' dy' = p.shifted moved (dx + dx') (dy + dy') := by
  simp only [shifted, List.map_map]
  congr 2
  refine List.map_congr_left fun v _ => ?_
  by_cases hv : v.id ∈ moved
  · simp [hv, Int.add_assoc]
  · simp [hv]

/-- Views that are moved one by one, each once, have all moved by the distance. -/
theorem foldl_shift_eq (hnodup : moved.Nodup) (dx dy : Int) :
    moved.foldl (fun p v => p.updateView v (·.shift dx dy)) p = p.shifted moved dx dy := by
  induction moved generalizing p with
  | nil => simp [shifted]
  | cons view rest ih =>
      obtain ⟨hview, hrest⟩ := List.nodup_cons.1 hnodup
      have hstep : p.updateView view (·.shift dx dy) = p.shifted [view] dx dy := by
        simp only [shifted, List.mem_singleton]
        rfl
      rw [List.foldl_cons, ih hrest, hstep]
      simp only [shifted, List.map_map]
      congr 2
      refine List.map_congr_left fun v _ => ?_
      by_cases hv : v.id = view
      · simp [hv, hview]
      · simp [hv]

/-- Moving views does not change in which order the loop comes to them. -/
theorem walks_of_tour {pending : List ViewId} (h : Tour p.children pending moved) (dx dy : Int) :
    Walks dx dy p pending moved (moved.foldl (fun p v => p.updateView v (·.shift dx dy)) p) := by
  obtain ⟨children, hchildren⟩ : ∃ children, p.children = children := ⟨_, rfl⟩
  rw [hchildren] at h
  induction h generalizing p with
  | done => exact .done p
  | @next view pending moved h ih =>
      have hstep : (p.updateView view (·.shift dx dy)).children = children := by
        funext container
        simp only [← hchildren, Placement.children, containerOf?_shift]
        rfl
      refine .next ?_
      rw [hstep]
      exact ih hstep

theorem directlyIn_translate (p : Placement Workspace) (view : ViewId) (dx dy : Int) :
    (p.translate view dx dy).DirectlyIn = p.DirectlyIn := by
  have hfold : ∀ (views : List ViewId) (p : Placement Workspace) (v : ViewId),
      (views.foldl (fun p u => p.updateView u (·.shift dx dy)) p).containerOf? v
        = p.containerOf? v := by
    intro views
    induction views with
    | nil => exact fun _ _ => rfl
    | cons u rest ih =>
        exact fun p v => (ih _ v).trans (containerOf?_shift p u dx dy v)
  funext v c
  rw [DirectlyIn, DirectlyIn, Placement.translate]
  split
  · rfl
  · rw [hfold]

/-- **A view moves with its subtree.** -/
theorem Grounded.translate_eq (h : Grounded p) (hpart : Grounded.Subtree p view moved)
    (dx dy : Int) : p.translate view dx dy = p.shifted moved dx dy := by
  rw [Placement.translate]
  split
  · next hzero => rw [hzero.1, hzero.2, shifted_zero]
  · have hnodup : (view :: p.inside view).Nodup := by
      refine List.nodup_cons.2 ⟨fun hself => ?_, ?_⟩
      · obtain ⟨hmem, hchain⟩ := h.mem_inside_iff.1 hself
        exact Nat.lt_irrefl _ (h.lt_of_chainsTo hmem hchain).2
      · exact h.nodup_values.sublist (Running.sublist_insideOf ..)
    rw [foldl_shift_eq hnodup]
    refine shifted_congr (fun v => ?_) dx dy
    rw [List.mem_cons, h.mem_inside_iff, hpart.mem_iff]

end Shifted

/-- A layout run on a workspace, as far as views are concerned: elements are placed, each once,
views are moved and are given other bounds. -/
inductive Reached : Placement Workspace → Prop where
  | start {w : Workspace} (h : w.Reachable) (diagram : DiagramId) : Reached { store := w, diagram }
  | place {p : Placement Workspace} (h : Reached p) {element : ElementId}
      (hnew : element ∉ p.views.keys) (position : Point) (width : Option Int) :
      Reached (p.place element position width).2
  | translate {p : Placement Workspace} (h : Reached p) (view : ViewId) (dx dy : Int) :
      Reached (p.translate view dx dy)
  | setBounds {p : Placement Workspace} (h : Reached p) (view : ViewId) (b : Bounds) :
      Reached (p.updateView view (·.setBounds b))

namespace Reached

variable {p q : Placement Workspace}

/-- **The views of a run form a forest.** -/
theorem grounded (h : Reached p) : Grounded p := by
  induction h with
  | start h diagram =>
      exact ⟨h.numbered.view_lt, fun _ hv => absurd hv List.not_mem_nil, List.Pairwise.nil,
        fun _ hv => absurd hv List.not_mem_nil⟩
  | place _ hnew position width ih => exact ih.place hnew position width
  | translate _ view dx dy ih => exact ih.translate view dx dy
  | setBounds _ view b ih => exact ih.updateView view (fun _ => rfl) fun _ => rfl

/-! ### Layouts -/

/-- A strategy places each element once. -/
theorem tries {start : Workspace} {es : List ElementId} (h : Reached p)
    (hawaiting : Awaiting start p es) (t : Tries p es q) : Reached q := by
  induction t with
  | done p => exact h
  | next position width _ ih =>
      exact ih (h.place hawaiting.not_mem_keys position width) (hawaiting.place position width)

theorem layOutRow (h : Reached p) (views : List ViewId) (corner : Point) (spacing : Int) :
    Reached (Packages.layOutRow p views corner spacing).2 :=
  Packages.layOutRow_induct (fun _ v _ dx dy hq => hq.translate v dx dy) h corner spacing

/-- Packages are fitted by moving views and drawing boxes. -/
theorem foldl_fitPackage {f : Packages.Fitting Workspace} (h : Reached f.placement)
    (s : PackageSettings) (packageViews : List ViewId) (packages : List ElementId) :
    Reached (packages.foldl (Packages.fitPackage s packageViews) f).placement := by
  induction packages generalizing f with
  | nil => exact h
  | cons package rest ih =>
      refine ih ?_
      cases hview : f.placement.viewOf? package with
      | none =>
          simp only [Packages.fitPackage, hview]
          exact h
      | some view =>
          rw [Packages.fitPackage_eq s packageViews f hview]
          exact (h.layOutRow _ _ _).setBounds view _

/-- **The views of a layout are only ever placed, moved and given other bounds.** -/
theorem placeAll {w : Workspace} (h : w.Reachable) (diagram : DiagramId) (parsed : Parsed)
    (s : LayoutSettings) : Reached (placeAll w diagram parsed s) := by
  have hnodup : parsed.uniqueElements.Nodup := nodup_eraseDups _
  have hopened : Packages.Opened w diagram parsed.uniqueElements (openedFor w diagram parsed)
      (packagesFor w diagram parsed) := Packages.opened_openViews h.numbered diagram hnodup
  have hplaced : Reached (openedFor w diagram parsed) :=
    tries (.start h diagram) (Packages.awaiting_outerFirst h.numbered diagram hnodup)
      (Packages.tries_openViews _ _)
  obtain ⟨es, htries, hawaiting, -⟩ :=
    hopened.tries_strategy (Strategy.ofDiagram parsed.diagramKind) s
  rw [placeAll_eq_fit, Packages.fit, Packages.moveFloating_eq]
  exact ((hplaced.tries hawaiting htries).foldl_fitPackage ..).layOutRow ..

end Reached

/-- What moving a view by a distance does to a run. -/
structure MovesSubtree (p : Placement Workspace) (view : ViewId) (dx dy : Int)
    (moved : List ViewId) : Prop where
  /-- The loop ends, and has then moved these views, -/
  walks : Walks dx dy p [view] moved (p.translate view dx dy)
  /-- each of them once: -/
  nodup : moved.Nodup
  /-- the view itself, and the views of the run inside it. -/
  mem_iff : ∀ v, v ∈ moved ↔ v = view ∨ v ∈ p.views.values ∧ p.ChainsTo v view
  /-- They have moved by the distance, and nothing else has changed. -/
  translate_eq : p.translate view dx dy = p.shifted moved dx dy
  /-- Moving the view again adds up. -/
  translate_translate : ∀ dx' dy',
    (p.translate view dx dy).translate view dx' dy' = p.translate view (dx + dx') (dy + dy')

/-- **Moving a view is a rigid motion of its subtree.** In every run that places elements on a
workspace, for every view and every distance: the loop ends; it moves the view and those views of
the run whose chain of containers leads to it, each once and by the distance; it leaves all others
and everything else alone; and two motions of a view are one by the sum. -/
theorem translate_subtree {p : Placement Workspace} (h : Reached p) (view : ViewId) (dx dy : Int) :
    ∃ moved, MovesSubtree p view dx dy moved := by
  have hgrounded := h.grounded
  obtain ⟨moved, hpart⟩ := hgrounded.exists_subtree view
  have hmoved : ∀ dx dy, p.translate view dx dy = p.shifted moved dx dy :=
    hgrounded.translate_eq hpart
  have htour : Tour p.children [view] moved := by
    simpa using hpart.tour [] [] .done
  refine ⟨moved, {
    walks := ?_
    nodup := hpart.nodup
    mem_iff := hpart.mem_iff
    translate_eq := hmoved dx dy
    translate_translate := fun dx' dy' => ?_ }⟩
  · rw [hmoved, ← foldl_shift_eq hpart.nodup]
    exact walks_of_tour htour dx dy
  · -- The view has the same subtree after it was moved.
    have hagain := hgrounded.translate view dx dy
    obtain ⟨moved', hpart'⟩ := hagain.exists_subtree view
    have hvalues : (p.translate view dx dy).views = p.views := by rw [hmoved]; rfl
    have hsame : ∀ v, v ∈ moved' ↔ v ∈ moved := by
      intro v
      rw [hpart'.mem_iff, hpart.mem_iff, ChainsTo, directlyIn_translate, hvalues]
      rfl
    rw [hagain.translate_eq hpart', hmoved, hmoved, shifted_congr hsame, shifted_shifted]

/-- A class in a package of a package, beside an empty one, and a class in none. -/
def nestedText : String :=
  "package P \x7b\npackage Q \x7b\nclass A\n\x7d\npackage E \x7b\n\x7d\n\x7d\nclass B"

/-- Moving the outer package moves all but the other class, each view once. -/
theorem translate_subtree_nestedText :
    ∃ (parsed : Parsed) (w : Workspace) (p : Placement Workspace) (moved : List ViewId),
      parse ((Workspace.new "Model").after (.createDiagram .classDiagram Workspace.root))
        Workspace.root nestedText = (parsed, w) ∧
      p = placeAll w ⟨0⟩ parsed {} ∧ Reached p ∧
      MovesSubtree p ⟨0⟩ 5 (-7) moved ∧
      p.entries.map (fun e => (e.view, e.container, e.bounds))
        = [(⟨0⟩, none, ⟨40, 500, 510, 740⟩), (⟨1⟩, some ⟨0⟩, ⟨70, 560, 230, 695⟩),
          (⟨2⟩, some ⟨0⟩, ⟨280, 560, 480, 710⟩), (⟨3⟩, none, ⟨100, 100, 200, 145⟩),
          (⟨4⟩, some ⟨1⟩, ⟨100, 620, 200, 665⟩)] ∧
      (p.translate ⟨0⟩ 5 (-7)).entries.map (fun e => (e.view, e.bounds))
        = [(⟨0⟩, ⟨45, 493, 515, 733⟩), (⟨1⟩, ⟨75, 553, 235, 688⟩), (⟨2⟩, ⟨285, 553, 485, 703⟩),
          (⟨3⟩, ⟨100, 100, 200, 145⟩), (⟨4⟩, ⟨105, 613, 205, 658⟩)] := by
  obtain ⟨parsed, w, hparse⟩ : ∃ parsed w,
      parse ((Workspace.new "Model").after (.createDiagram .classDiagram Workspace.root))
        Workspace.root nestedText = (parsed, w) := ⟨_, _, rfl⟩
  have hreachable : w.Reachable :=
    (declares_parse (.step (.new "Model") (.createDiagram .classDiagram Workspace.root)) hparse).1
  have hreached : Reached (placeAll w ⟨0⟩ parsed {}) := .placeAll hreachable ⟨0⟩ parsed {}
  obtain ⟨moved, hmoved⟩ := translate_subtree hreached ⟨0⟩ 5 (-7)
  refine ⟨parsed, w, _, moved, hparse, rfl, hreached, hmoved, ?_, ?_⟩
  · obtain ⟨rfl, rfl⟩ := Prod.mk.inj hparse
    simp only [UmlText.placeAll, Packages.openViews_eq_insertionSort, Strategy.arrange,
      Grid.arrange, Grid.groups_eq_insertionSort]
    decide +kernel
  · obtain ⟨rfl, rfl⟩ := Prod.mk.inj hparse
    simp only [UmlText.placeAll, Packages.openViews_eq_insertionSort, Strategy.arrange,
      Grid.arrange, Grid.groups_eq_insertionSort]
    decide +kernel

end Placement

end UmlText
