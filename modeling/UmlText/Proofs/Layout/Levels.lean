import UmlText.Proofs.Layout.Containment

/-!
# UmlText.Proofs.Layout.Levels

**How deep an entry is inside another.** `Within n e box` counts the containers on the way up from
an entry to a box around it. Two entries of which neither is around the other are inside two
different entries of the same container (`exists_siblings`). The key of a group on the grid lists
the packages around it, so it tells how deep an entry is and which boxes it is inside of (`Keyed`).
-/

namespace UmlText

universe u

open BackedStore (workspace)
open ModelStore (owningPackage?)
open Placement (Running entriesIn mem_entriesIn)

variable {σ : Type u} [ModelStore σ] [ViewStore σ] [BackedStore σ]

/-- An entry is `n` levels inside a box: that many containers up from it is the box. -/
inductive Within (entries : List LayoutEntry) : Nat → LayoutEntry → LayoutEntry → Prop
  | self {e : LayoutEntry} (he : e ∈ entries) : Within entries 0 e e
  | up {n : Nat} {e box outer : LayoutEntry} (he : e ∈ entries)
      (hcontainer : e.container = some box.view) (h : Within entries n box outer) :
      Within entries (n + 1) e outer

namespace Within

variable {entries : List LayoutEntry} {n m : Nat} {e box outer : LayoutEntry}

omit [ModelStore σ] [ViewStore σ] [BackedStore σ] in
theorem mem_left (h : Within entries n e box) : e ∈ entries := by
  cases h <;> assumption

omit [ModelStore σ] [ViewStore σ] [BackedStore σ] in
theorem mem_right (h : Within entries n e box) : box ∈ entries := by
  induction h with
  | self he => exact he
  | up _ _ _ ih => exact ih

omit [ModelStore σ] [ViewStore σ] [BackedStore σ] in
theorem trans (h : Within entries n e box) (h' : Within entries m box outer) :
    Within entries (n + m) e outer := by
  induction h with
  | self _ => simpa using h'
  | up he hcontainer _ ih =>
      rw [Nat.add_right_comm]
      exact .up he hcontainer (ih h')

omit [ModelStore σ] [ViewStore σ] [BackedStore σ] in
/-- One level further out. -/
theorem out (h : Within entries n e box) (houter : outer ∈ entries)
    (hcontainer : box.container = some outer.view) : Within entries (n + 1) e outer :=
  h.trans (.up h.mem_right hcontainer (.self houter))

omit [ModelStore σ] [ViewStore σ] [BackedStore σ] in
/-- What is deeper inside a box is inside something directly inside it. -/
theorem exists_child (h : Within entries (n + 1) e outer) :
    ∃ child, Within entries n e child ∧ child.container = some outer.view := by
  induction n generalizing e with
  | zero =>
      cases h with
      | up he hcontainer h =>
          cases h with
          | self hbox => exact ⟨e, .self he, hcontainer⟩
  | succ n ih =>
      cases h with
      | up he hcontainer h =>
          obtain ⟨child, hchild, hc⟩ := ih h
          exact ⟨child, .up he hcontainer hchild, hc⟩

omit [ModelStore σ] [ViewStore σ] [BackedStore σ] in
/-- To be inside a box is to be at least one level inside it. -/
theorem inside_iff : Inside entries e box ↔ ∃ n, Within entries (n + 1) e box := by
  constructor
  · intro h
    induction h with
    | direct he hbox hcontainer => exact ⟨0, .up he hcontainer (.self hbox)⟩
    | step he hcontainer _ ih =>
        obtain ⟨n, hn⟩ := ih
        exact ⟨n + 1, .up he hcontainer hn⟩
  · intro hexists
    obtain ⟨n, h⟩ := hexists
    induction n generalizing e with
    | zero =>
        cases h with
        | up he hcontainer h =>
            cases h with
            | self hbox => exact .direct he hbox hcontainer
    | succ n ih =>
        cases h with
        | up he hcontainer h => exact .step he hcontainer (ih h)

omit [ModelStore σ] [ViewStore σ] [BackedStore σ] in
/-- Where boxes are around what is directly inside them, they are around all levels. -/
theorem contains (hdirect : ∀ e ∈ entries, ∀ box ∈ entries, e.container = some box.view →
    box.bounds.contains e.bounds) (h : Within entries n e box) :
    box.bounds.contains e.bounds := by
  induction h with
  | self _ => exact Bounds.contains_refl _
  | up he hcontainer hrest ih =>
      exact Bounds.contains_trans ih (hdirect _ he _ hrest.mem_left hcontainer)

variable {start : Workspace} {p : Placement σ}

/-- Only packages have something inside. -/
theorem kind_eq (hrunning : Running start p) (h : Within p.entries (n + 1) e box) :
    start.kind? box.element = some .package := by
  obtain ⟨child, hchild, hc⟩ := h.exists_child
  obtain ⟨q, hq, hview, howner⟩ := hrunning.container_mem hchild.mem_right hc
  rw [← hrunning.eq_of_view_eq hq h.mem_right hview]
  exact kind?_of_owningPackage? howner

end Within

namespace Placement.Running

variable {start : Workspace} {p : Placement σ}

/-- What holds of an entry as soon as it holds of everything directly inside it, holds of all. -/
theorem inward_induct (h : Running start p) {motive : LayoutEntry → Prop}
    (step : ∀ x ∈ p.entries, (∀ c ∈ entriesIn p.entries x.view, motive c) → motive x)
    {x : LayoutEntry} (hx : x ∈ p.entries) : motive x := by
  have hlt : ∀ e ∈ p.entries, e.view.index < (workspace p.store).nextView := fun e he =>
    h.value_lt (by rw [← h.map_view]; exact List.mem_map_of_mem he)
  -- What is inside has a larger number, but all numbers are below the counter.
  obtain ⟨n, hn⟩ : ∃ n, (workspace p.store).nextView - x.view.index = n := ⟨_, rfl⟩
  induction n using Nat.strongRecOn generalizing x with
  | ind n ih =>
      refine step x hx ?_
      intro c hc
      obtain ⟨hc, hcontainer⟩ := mem_entriesIn.1 hc
      have hbefore := h.container_lt c hc _ hcontainer
      have hend := hlt c hc
      exact ih _ (by omega) hc rfl

/-- What holds of an entry as soon as it holds of its container, holds of all. -/
theorem outward_induct (h : Running start p) {motive : LayoutEntry → Prop}
    (step : ∀ x ∈ p.entries, (∀ box ∈ p.entries, x.container = some box.view → motive box) →
      motive x)
    {x : LayoutEntry} (hx : x ∈ p.entries) : motive x := by
  obtain ⟨n, hn⟩ : ∃ n, x.view.index = n := ⟨_, rfl⟩
  induction n using Nat.strongRecOn generalizing x with
  | ind n ih =>
      refine step x hx fun box hbox hcontainer => ih box.view.index ?_ hbox rfl
      exact hn ▸ h.container_lt x hx _ hcontainer

/-- Every entry is inside one that is in no container. -/
theorem exists_outermost (h : Running start p) {x : LayoutEntry} (hx : x ∈ p.entries) :
    ∃ n top, Within p.entries n x top ∧ top.container = none := by
  refine h.outward_induct (motive := fun x => ∃ n top, Within p.entries n x top ∧
    top.container = none) ?_ hx
  intro x hx ih
  cases hc : x.container with
  | none => exact ⟨0, x, .self hx, hc⟩
  | some c =>
      obtain ⟨box, hbox, rfl, -⟩ := h.container_mem hx hc
      obtain ⟨n, top, hwithin, htop⟩ := ih box hbox hc
      exact ⟨n + 1, top, .up hx hc hwithin, htop⟩

/-- From an entry that is not around `x`, go up as long as that stays so. -/
theorem exists_turn (h : Running start p) {x y : LayoutEntry} (hy : y ∈ p.entries)
    (hnot : ∀ n, ¬ Within p.entries n x y) :
    ∃ n turn, Within p.entries n y turn ∧ (∀ m, ¬ Within p.entries m x turn) ∧
      ∀ box ∈ p.entries, turn.container = some box.view → ∃ m, Within p.entries m x box := by
  refine h.outward_induct (motive := fun y => (∀ n, ¬ Within p.entries n x y) →
    ∃ n turn, Within p.entries n y turn ∧ (∀ m, ¬ Within p.entries m x turn) ∧
      ∀ box ∈ p.entries, turn.container = some box.view → ∃ m, Within p.entries m x box)
    ?_ hy hnot
  intro y hy ih hnot
  by_cases hnext : ∀ box ∈ p.entries, y.container = some box.view → ∃ m, Within p.entries m x box
  · exact ⟨0, y, .self hy, hnot, hnext⟩
  · simp only [not_forall] at hnext
    obtain ⟨box, hbox, hc, hout⟩ := hnext
    obtain ⟨n, turn, hwithin, hturn, hcontainer⟩ := ih box hbox hc fun m hm => hout ⟨m, hm⟩
    exact ⟨n + 1, turn, .up hy hc hwithin, hturn, hcontainer⟩

/-- **Two entries of which neither is around the other** are inside two different entries that are
side by side. -/
theorem exists_siblings (h : Running start p) {x y : LayoutEntry} (hx : x ∈ p.entries)
    (hy : y ∈ p.entries) (hxy : ∀ n, ¬ Within p.entries n x y)
    (hyx : ∀ n, ¬ Within p.entries n y x) :
    ∃ m n x' y', Within p.entries m x x' ∧ Within p.entries n y y' ∧
      x'.container = y'.container ∧ x' ≠ y' := by
  obtain ⟨n, y', hwithin, hout, hcontainer⟩ := h.exists_turn hy hxy
  cases hc : y'.container with
  | none =>
      obtain ⟨m, x', hwithin', htop⟩ := h.exists_outermost hx
      refine ⟨m, n, x', y', hwithin', hwithin, htop.trans hc.symm, ?_⟩
      intro heq
      subst heq
      exact hout m hwithin'
  | some c =>
      obtain ⟨box, hbox, rfl, -⟩ := h.container_mem hwithin.mem_right hc
      obtain ⟨m, hm⟩ := hcontainer box hbox hc
      cases m with
      | zero =>
          -- The box would be `x` itself, with `y` inside.
          cases hm with
          | self _ => exact absurd (hwithin.out hbox hc) (hyx _)
      | succ m =>
          obtain ⟨x', hwithin', hc'⟩ := hm.exists_child
          refine ⟨m, n, x', y', hwithin', hwithin, hc'.trans hc.symm, ?_⟩
          intro heq
          subst heq
          exact hout m hwithin'

end Placement.Running

/-! ### Keys -/

/-- Keys that list the ranks of the packages around an entry, outermost first. -/
structure Keyed (start : Workspace) (rank : ElementId → Nat) (key : ElementId → List Nat)
    (entries : List LayoutEntry) : Prop where
  outermost : ∀ e ∈ entries, e.container = none → key e.element = []
  inner : ∀ e ∈ entries, ∀ box ∈ entries, e.container = some box.view →
    key e.element = key box.element ++ [rank box.element]
  rank_inj : ∀ a ∈ entries, start.kind? a.element = some .package → ∀ b ∈ entries,
    rank a.element = rank b.element → a = b

namespace Keyed

variable {start : Workspace} {rank : ElementId → Nat} {key : ElementId → List Nat}
  {p : Placement σ} {n : Nat} {e box : LayoutEntry}

omit [ModelStore σ] [BackedStore σ] in
theorem key_eq (h : Keyed start rank key p.entries) (hwithin : Within p.entries (n + 1) e box) :
    ∃ inner, key e.element = key box.element ++ rank box.element :: inner ∧ inner.length = n := by
  induction n generalizing e with
  | zero =>
      cases hwithin with
      | up he hcontainer hself =>
          cases hself with
          | self hbox => exact ⟨[], h.inner _ he _ hbox hcontainer, rfl⟩
  | succ n ih =>
      cases hwithin with
      | @up _ _ mid _ he hcontainer hrest =>
          obtain ⟨inner, hkey, hlength⟩ := ih hrest
          refine ⟨inner ++ [rank mid.element], ?_, by simp [hlength]⟩
          rw [h.inner _ he _ hrest.mem_left hcontainer, hkey]
          simp

omit [ModelStore σ] [BackedStore σ] in
/-- The key tells the level. -/
theorem length_eq (h : Keyed start rank key p.entries) (hwithin : Within p.entries n e box) :
    (key e.element).length = (key box.element).length + n := by
  cases n with
  | zero => cases hwithin; rfl
  | succ n =>
      obtain ⟨inner, hkey, hlength⟩ := h.key_eq hwithin
      simp only [hkey, List.length_append, List.length_cons, hlength]

/-- An entry is inside the boxes that its key lists. -/
theorem within (h : Keyed start rank key p.entries) (hrunning : Running start p)
    (he : e ∈ p.entries) (hbox : box ∈ p.entries) {inner : List Nat}
    (hkey : key e.element = key box.element ++ rank box.element :: inner) :
    ∃ n, Within p.entries (n + 1) e box := by
  induction inner using List.reverseRecOn generalizing e with
  | nil =>
      cases hc : e.container with
      | none => simp [h.outermost e he hc] at hkey
      | some c =>
          obtain ⟨mid, hmid, rfl, howner⟩ := hrunning.container_mem he hc
          rw [h.inner e he mid hmid hc] at hkey
          obtain rfl := h.rank_inj mid hmid (kind?_of_owningPackage? howner) box hbox
            (List.singleton_inj.1 (List.append_inj_right' hkey rfl))
          exact ⟨0, .up he hc (.self hmid)⟩
  | append_singleton inner last ih =>
      cases hc : e.container with
      | none => simp [h.outermost e he hc] at hkey
      | some c =>
          obtain ⟨mid, hmid, rfl, -⟩ := hrunning.container_mem he hc
          rw [h.inner e he mid hmid hc, ← List.cons_append, ← List.append_assoc] at hkey
          obtain ⟨n, hwithin⟩ := ih hmid (List.append_inj_left' hkey rfl)
          exact ⟨n + 1, .up he hc hwithin⟩

end Keyed

namespace Grid

/-- **The keys of the groups** list the packages around an element, if its view was made after
theirs. -/
theorem keyed_groupKey {start : Workspace} {p q : Placement σ} (hp : Running start p)
    (hq : Running start q) {roots : List ElementId}
    (hviews : ∀ package, start.kind? package = some .package →
      (q.viewOf? package).isSome = (p.viewOf? package).isSome)
    (hroots : ∀ e ∈ q.entries, start.kind? e.element = some .package → e.element ∈ roots) :
    Keyed start roots.idxOf (groupKey p roots) q.entries := by
  refine ⟨?_, ?_, ?_⟩
  · intro e he hc
    rw [hq.container_eq e he] at hc
    rw [groupKey, enclosingPackages, hp.owningPackage?_eq]
    cases howner : owningPackage? start e.element with
    | none => rfl
    | some package =>
        rw [howner, Option.bind_some] at hc
        have hview := hviews package (kind?_of_owningPackage? howner)
        rw [hc] at hview
        simp only [← hview, Option.isSome_none, Bool.false_eq_true, if_false, List.map_nil]
  · intro e he box hbox hc
    obtain ⟨package, hpackage, hview, howner⟩ := hq.container_mem he hc
    obtain rfl := hq.eq_of_view_eq hpackage hbox hview
    have hsome := hviews package.element (kind?_of_owningPackage? howner)
    rw [hq.viewOf?_element hpackage] at hsome
    have hlt := hq.numbered.owner_lt howner
    rw [groupKey, enclosingPackages, hp.owningPackage?_eq, howner]
    simp only [← hsome, Option.isSome_some, if_true, if_pos hlt, List.map_append, List.map_cons,
      List.map_nil, groupKey]
  · intro a ha hkind b hb hrank
    exact hq.eq_of_element_eq ha hb (List.idxOf_inj (hroots a ha hkind) |>.1 hrank)

end Grid

end UmlText
