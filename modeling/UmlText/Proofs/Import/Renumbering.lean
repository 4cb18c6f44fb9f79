import Mathlib.Data.List.Basic
import UmlText.Import

/-!
# UmlText.Proofs.Import.Renumbering

**Other numbers.** A renumbering gives every element, view and diagram another number, and no two of
them the same. Data that refers to elements, views and diagrams is renumbered throughout; everything
else in it stays. Tables and lists are looked up, ordered and cleared of duplicates in the same way
under other numbers, because a renumbering is injective.
-/

namespace UmlText

universe u v

/-- Other numbers for what a store numbers. -/
structure Renumbering where
  element : ElementId → ElementId
  view : ViewId → ViewId
  diagram : DiagramId → DiagramId
  element_injective : element.Injective
  view_injective : view.Injective
  diagram_injective : diagram.Injective

/-! ### Data under other numbers -/

section Renumber

variable (ρ : Renumbering)

/-- A relationship between elements under other numbers. -/
def Relationship.renumber (r : Relationship) : Relationship :=
  { r with
    end1 := { r.end1 with reference := ρ.element r.end1.reference }
    end2 := { r.end2 with reference := ρ.element r.end2.reference } }

def Body.renumber (b : Body) : Body := b.mapRelationship (·.renumber ρ)

/-- An element under another number, with its parent and what it owns. -/
def Element.renumber (e : Element) : Element :=
  { e with
    id := ρ.element e.id
    parent := e.parent.map ρ.element
    owned := e.owned.map ρ.element
    body := e.body.renumber ρ }

/-- A view under another number, of an element and in a container under others. -/
def View.renumber (v : View) : View :=
  { v with
    id := ρ.view v.id
    diagram := ρ.diagram v.diagram
    model := ρ.element v.model
    container := v.container.map ρ.view }

def RelationshipView.renumber (v : RelationshipView) : RelationshipView :=
  { id := ρ.view v.id
    diagram := ρ.diagram v.diagram
    model := ρ.element v.model
    tail := ρ.view v.tail
    head := ρ.view v.head }

def NewView.renumber (r : NewView) : NewView :=
  { r with
    model := ρ.element r.model
    diagram := ρ.diagram r.diagram
    container := r.container.map ρ.view }

def NewRelationship.renumber (r : NewRelationship) : NewRelationship :=
  { r with
    diagram := ρ.diagram r.diagram
    source := ρ.element r.source
    target := ρ.element r.target
    sourceView := ρ.view r.sourceView
    targetView := ρ.view r.targetView }

def Blueprint.renumber (b : Blueprint) : Blueprint :=
  { b with source := ρ.element b.source, target := ρ.element b.target }

def LayoutEntry.renumber (e : LayoutEntry) : LayoutEntry :=
  { e with
    element := ρ.element e.element
    view := ρ.view e.view
    container := e.container.map ρ.view }

/-- A report with all of its numbers replaced. -/
def LayoutReport.renumber (r : LayoutReport) : LayoutReport :=
  { r with
    diagram := r.diagram.map ρ.diagram
    entries := r.entries.map (·.renumber ρ)
    relationships := r.relationships.map (·.renumber ρ)
    skippedElements := r.skippedElements.map ρ.element }

/-- A table with its keys and values replaced. -/
def OrderedMap.map {κ κ' : Type u} {ν ν' : Type v} (m : OrderedMap κ ν) (f : κ → κ') (g : ν → ν') :
    OrderedMap κ' ν' :=
  ⟨m.entries.map fun x => (f x.1, g x.2)⟩

/-- What was read, with the names as they are. -/
def Parsed.renumber (p : Parsed) : Parsed :=
  { p with
    aliases := p.aliases.map id ρ.element
    blueprints := p.blueprints.map (·.renumber ρ) }

/-- What an import gives, with all of its numbers replaced. -/
def ImportOutcome.renumber (o : ImportOutcome) : ImportOutcome :=
  { diagram := o.diagram.map ρ.diagram
    rootParent := ρ.element o.rootParent
    parsed := o.parsed.renumber ρ
    layout := o.layout.renumber ρ }

/-! ### What does not depend on numbers -/

@[simp]
theorem Body.kind?_renumber (b : Body) : (b.renumber ρ).kind? = b.kind? := by
  cases b <;> rfl

@[simp]
theorem Body.memberCount_renumber (b : Body) : (b.renumber ρ).memberCount = b.memberCount := by
  cases b <;> rfl

/-- What has a kind refers to no elements. -/
theorem Body.renumber_of_kind? {b : Body} (h : b.kind?.isSome) : b.renumber ρ = b := by
  cases b <;> first | rfl | cases h

@[simp]
theorem Element.kind?_renumber (e : Element) : (e.renumber ρ).kind? = e.kind? :=
  e.body.kind?_renumber ρ

@[simp]
theorem Element.memberCount_renumber (e : Element) : (e.renumber ρ).memberCount = e.memberCount :=
  e.body.memberCount_renumber ρ

end Renumber

/-! ### Lists -/

section Lists

variable {α : Type u} {β : Type v} {f : α → β}

/-- What a test keeps of a list under `f` is what another test keeps of the list, if the first says
of `f a` what the second says of `a`. -/
theorem filter_map_of {p : β → Bool} {q : α → Bool} {l : List α} (h : ∀ a ∈ l, p (f a) = q a) :
    (l.map f).filter p = (l.filter q).map f := by
  rw [List.filter_map]
  exact congrArg (List.map f) (List.filter_congr h)

variable [DecidableEq α] [DecidableEq β]

/-- Duplicates are the same under an injective function. -/
theorem eraseDups_map (hf : f.Injective) (l : List α) :
    (l.map f).eraseDups = l.eraseDups.map f := by
  -- The recursion is on what is left of the tail without its head, so the induction is on the length.
  induction hn : l.length using Nat.strongRecOn generalizing l with
  | ind n ih =>
      cases l with
      | nil => rfl
      | cons a rest =>
          have hfilter : (rest.map f).filter (fun b => !b == f a)
              = (rest.filter fun b => !b == a).map f :=
            filter_map_of fun b _ => by simp [hf.eq_iff]
          rw [List.map_cons, List.eraseDups_cons, List.eraseDups_cons, List.map_cons, hfilter,
            ih _ _ _ rfl]
          rw [← hn, List.length_cons]
          exact Nat.lt_succ_of_le (List.length_filter_le _ _)

/-- Places are the same under an injective function. -/
theorem idxOf_map (hf : f.Injective) (l : List α) (a : α) : (l.map f).idxOf (f a) = l.idxOf a := by
  induction l with
  | nil => rfl
  | cons b rest ih =>
      have hbeq : (f b == f a) = (b == a) := by
        rw [Bool.eq_iff_iff]
        simp only [beq_iff_eq, hf.eq_iff]
      rw [List.map_cons, List.idxOf_cons, List.idxOf_cons, ih, hbeq]

end Lists

/-- A loop that keeps an invariant does under `m` what it does without. -/
theorem foldl_map_of_invariant {α α' : Type u} {β β' : Type v} {f : β → α → β} {g : β' → α' → β'}
    {m : β → β'} {n : α → α'} {p : β → Prop} {q : α → Prop}
    (step : ∀ b a, p b → q a → p (f b a) ∧ g (m b) (n a) = m (f b a)) {l : List α}
    (hl : ∀ a ∈ l, q a) {b : β} (hb : p b) :
    p (l.foldl f b) ∧ (l.map n).foldl g (m b) = m (l.foldl f b) := by
  induction l generalizing b with
  | nil => exact ⟨hb, rfl⟩
  | cons a rest ih =>
      obtain ⟨hnext, heq⟩ := step b a hb (hl a List.mem_cons_self)
      rw [List.map_cons, List.foldl_cons, List.foldl_cons, heq]
      exact ih (fun a' ha' => hl a' (List.mem_cons_of_mem _ ha')) hnext

/-! ### Tables -/

namespace OrderedMap

variable {κ κ' : Type u} {ν ν' : Type v} [DecidableEq κ] [DecidableEq κ'] {f : κ → κ'} {g : ν → ν'}

omit [DecidableEq κ] [DecidableEq κ'] in
@[simp]
theorem values_map (m : OrderedMap κ ν) : (m.map f g).values = m.values.map g := by
  simp [values, map]

/-- A table is looked up under other keys, if none of its keys is taken for another. -/
theorem get?_map_of {m : OrderedMap κ ν} {k : κ} (hf : ∀ k' ∈ m.keys, f k' = f k → k' = k) :
    (m.map f g).get? (f k) = (m.get? k).map g := by
  obtain ⟨l⟩ := m
  simp only [keys] at hf
  simp only [map, get?]
  induction l with
  | nil => rfl
  | cons x rest ih =>
      obtain ⟨k', v⟩ := x
      obtain ⟨hhead, hrest⟩ := List.forall_mem_cons.1 hf
      by_cases hk : k' = k
      · simp [findEntry, hk]
      -- The heads differ here, and so they do under `f`.
      · simp only [List.map_cons, findEntry, if_neg hk, if_neg fun heq => hk (hhead heq), ih hrest]

theorem get?_map (hf : f.Injective) (m : OrderedMap κ ν) (k : κ) :
    (m.map f g).get? (f k) = (m.get? k).map g :=
  get?_map_of fun _ _ heq => hf heq

theorem alter_map_of {m : OrderedMap κ ν} {k : κ} (hf : ∀ k' ∈ m.keys, f k' = f k → k' = k)
    {a : Option ν → ν} {a' : Option ν' → ν'} (ha : ∀ v, a' (v.map g) = g (a v)) :
    (m.map f g).alter (f k) a' = (m.alter k a).map f g := by
  obtain ⟨l⟩ := m
  simp only [keys] at hf
  simp only [map, alter, mk.injEq]
  induction l with
  | nil => simp [alterEntries, ← ha none]
  | cons x rest ih =>
      obtain ⟨k', v⟩ := x
      obtain ⟨hhead, hrest⟩ := List.forall_mem_cons.1 hf
      by_cases hk : k' = k
      · simp [alterEntries, hk, ← ha (some v)]
      · simp only [List.map_cons, alterEntries, if_neg hk, if_neg fun heq => hk (hhead heq),
          ih hrest]

theorem alter_map (hf : f.Injective) (m : OrderedMap κ ν) (k : κ) {a : Option ν → ν}
    {a' : Option ν' → ν'} (ha : ∀ v, a' (v.map g) = g (a v)) :
    (m.map f g).alter (f k) a' = (m.alter k a).map f g :=
  alter_map_of (fun _ _ heq => hf heq) ha

theorem insert_map_of {m : OrderedMap κ ν} {k : κ} (hf : ∀ k' ∈ m.keys, f k' = f k → k' = k)
    (v : ν) : (m.map f g).insert (f k) (g v) = (m.insert k v).map f g :=
  alter_map_of hf fun _ => rfl

theorem insert_map (hf : f.Injective) (m : OrderedMap κ ν) (k : κ) (v : ν) :
    (m.map f g).insert (f k) (g v) = (m.insert k v).map f g :=
  insert_map_of (fun _ _ heq => hf heq) v

/-- An entry of a table after an insertion was there before, or is the new one. -/
theorem mem_entries_insert {m : OrderedMap κ ν} {k : κ} {v : ν} {x : κ × ν}
    (h : x ∈ (m.insert k v).entries) : x = (k, v) ∨ x ∈ m.entries := by
  obtain ⟨l⟩ := m
  simp only [insert, alter] at h ⊢
  induction l with
  | nil => exact .inl (List.mem_singleton.1 h)
  | cons e rest ih =>
      obtain ⟨k', w⟩ := e
      rw [alterEntries] at h
      split at h
      · next hk =>
          rcases List.mem_cons.1 h with rfl | h
          · exact .inl (by rw [hk])
          · exact .inr (List.mem_cons_of_mem _ h)
      · rcases List.mem_cons.1 h with rfl | h
        · exact .inr List.mem_cons_self
        · exact (ih h).imp_right (List.mem_cons_of_mem _)

end OrderedMap

/-- The elements a text declared are declared in the same order under other numbers. -/
theorem Parsed.uniqueElements_renumber (p : Parsed) (ρ : Renumbering) :
    (p.renumber ρ).uniqueElements = p.uniqueElements.map ρ.element := by
  simp only [uniqueElements, renumber, OrderedMap.values_map]
  exact eraseDups_map ρ.element_injective _

end UmlText
