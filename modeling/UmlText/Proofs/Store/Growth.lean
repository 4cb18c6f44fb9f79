import Mathlib.Data.List.Infix
import UmlText.Proofs.Store.Reachable

/-!
# UmlText.Proofs.Store.Growth

**A workspace that only grows.** `Grown start parent w` says that `w` is `start` with more in it: new
elements, views and relationship views stand behind the old ones, and of the old ones only `parent`
has changed, which lists new elements at the end of what it owns. There is one lemma for each way in
which a request changes a workspace, and all of them ask for the same: what is touched must be new,
or be the parent that is given one more element.
-/

namespace UmlText

/-! ### Elements with more behind them -/

theorem modify_append_of_lt {α : Type} {l : List α} {i : Nat} (h : i < l.length) (l' : List α)
    (f : α → α) : (l ++ l').modify i f = l.modify i f ++ l' := by
  apply List.ext_getElem?
  intro j
  rcases Nat.lt_or_ge j l.length with hj | hj
  · rw [List.getElem?_modify, List.getElem?_append_left hj,
      List.getElem?_append_left (by rwa [List.length_modify]), List.getElem?_modify]
  · have hne : i ≠ j := by omega
    rw [List.getElem?_modify, List.getElem?_append_right hj,
      List.getElem?_append_right (by rwa [List.length_modify]), List.length_modify]
    simp [hne]

theorem modify_append_of_le {α : Type} {l : List α} {i : Nat} (h : l.length ≤ i) (l' : List α)
    (f : α → α) : (l ++ l').modify i f = l ++ l'.modify (i - l.length) f := by
  apply List.ext_getElem?
  intro j
  rcases Nat.lt_or_ge j l.length with hj | hj
  · have hne : i ≠ j := by omega
    rw [List.getElem?_modify, List.getElem?_append_left hj, List.getElem?_append_left hj]
    simp [hne]
  · have hiff : i - l.length = j - l.length ↔ i = j := by omega
    rw [List.getElem?_modify, List.getElem?_append_right hj, List.getElem?_append_right hj,
      List.getElem?_modify]
    simp only [hiff]

/-- An element that lists more at the end of what it owns. -/
def Element.listing (e : Element) (ids : List ElementId) : Element :=
  { e with owned := e.owned ++ ids }

/-- Elements of which `parent` lists more, with new ones behind them. -/
def extended (elements : List Element) (parent : ElementId) (listed : List ElementId)
    (added : List Element) : List Element :=
  elements.modify parent.index (·.listing listed) ++ added

section Extended

variable {elements : List Element} {parent : ElementId} {listed : List ElementId}
  {added : List Element}

theorem length_extended :
    (extended elements parent listed added).length = elements.length + added.length := by
  rw [extended, List.length_append, List.length_modify]

theorem extended_nil : extended elements parent [] [] = elements := by
  have hid : (fun e : Element => e.listing []) = id := by
    funext e
    simp [Element.listing]
  rw [extended, hid, List.modify_id, List.append_nil]

/-- The parent lists one more. -/
theorem modify_extended_parent (h : parent.index < elements.length) (ids : List ElementId) :
    (extended elements parent listed added).modify parent.index (·.listing ids)
      = extended elements parent (listed ++ ids) added := by
  rw [extended, modify_append_of_lt (by rwa [List.length_modify]), List.modify_modify_eq]
  simp only [Function.comp_def, Element.listing, List.append_assoc, extended]

/-- One of the new elements is changed. -/
theorem modify_extended_added {i : Nat} (h : elements.length ≤ i) (f : Element → Element) :
    (extended elements parent listed added).modify i f
      = extended elements parent listed (added.modify (i - elements.length) f) := by
  rw [extended, modify_append_of_le (by rwa [List.length_modify]), List.length_modify, extended]

theorem extended_append (more : List Element) :
    extended elements parent listed added ++ more
      = extended elements parent listed (added ++ more) := by
  rw [extended, List.append_assoc, extended]

end Extended

namespace Workspace

theorem isSome_element?_iff {w : Workspace} {id : ElementId} :
    (w.element? id).isSome ↔ id.index < w.elements.length := by
  simp [element?]

/-- The number that an element gets next. -/
def nextElement (w : Workspace) : ElementId := ⟨w.elements.length⟩

/-- The element that is pushed under a parent. -/
def newElement (w : Workspace) (parent : ElementId) (name : String) (body : Body) : Element :=
  { id := w.nextElement, name, parent := some parent, body }

/-- A pushed element goes to the end, and its parent lists it. -/
theorem pushElement_eq (w : Workspace) (parent : ElementId) (name : String) (body : Body) :
    w.pushElement parent name body = (w.nextElement, { w with
      elements := (w.elements ++ [w.newElement parent name body]).modify parent.index
        (·.listing [w.nextElement]) }) := rfl

/-- An element of which nothing is known yet. -/
def IsNew (start : Workspace) (id : ElementId) : Prop :=
  start.elements.length ≤ id.index

/-- A workspace with everything that `start` holds, and more behind it. -/
structure Grown (start : Workspace) (parent : ElementId) (w : Workspace) : Prop where
  /-- Of the old elements only `parent` has changed: it lists new ones at its end. -/
  elements_eq : ∃ listed added, w.elements = extended start.elements parent listed added ∧
    ∀ id ∈ listed, start.IsNew id ∧ (w.element? id).isSome
  diagrams_eq : ∃ added, w.diagrams = start.diagrams ++ added ∧ added.length ≤ 1
  views_prefix : start.views <+: w.views
  relationshipViews_prefix : start.relationshipViews <+: w.relationshipViews
  selection_eq : w.selection = start.selection

/-- A grown workspace while it is still growing: its host was not asked to redraw, and the counter
for views has not gone back. -/
structure Growing (start : Workspace) (parent : ElementId) (w : Workspace) : Prop
    extends Grown start parent w where
  nextView_le : start.nextView ≤ w.nextView
  repaints_eq : w.repaints = start.repaints

namespace Growing

variable {start w : Workspace} {parent : ElementId}

theorem refl (start : Workspace) (parent : ElementId) : Growing start parent start where
  elements_eq := ⟨[], [], extended_nil.symm, by simp⟩
  diagrams_eq := ⟨[], by simp, Nat.zero_le 1⟩
  views_prefix := List.prefix_refl _
  relationshipViews_prefix := List.prefix_refl _
  selection_eq := rfl
  nextView_le := Nat.le_refl _
  repaints_eq := rfl

theorem length_le (h : Growing start parent w) :
    start.elements.length ≤ w.elements.length := by
  obtain ⟨listed, added, helements, -⟩ := h.elements_eq
  rw [helements, length_extended]
  exact Nat.le_add_right _ _

/-- Elements that are changed behind the old ones. -/
theorem withElements (h : Growing start parent w) {elements : List Element}
    (helements : ∃ listed added, elements = extended start.elements parent listed added ∧
      ∀ id ∈ listed, start.IsNew id ∧ id.index < elements.length) :
    Growing start parent { w with elements } := by
  obtain ⟨listed, added, heq, hlisted⟩ := helements
  have hlisted : ∀ id ∈ listed, start.IsNew id ∧
      (({ w with elements } : Workspace).element? id).isSome :=
    fun id hid => ⟨(hlisted id hid).1, isSome_element?_iff.2 (hlisted id hid).2⟩
  exact { h with elements_eq := ⟨listed, added, heq, hlisted⟩ }

/-- A new element below the parent, or below one that is new itself. -/
theorem pushElement (h : Growing start parent w) {owner : ElementId}
    (howner : owner = parent ∨ start.IsNew owner) (name : String) (body : Body) :
    Growing start parent (w.pushElement owner name body).2 := by
  have hle := h.length_le
  obtain ⟨listed, added, helements, hlisted⟩ := h.elements_eq
  rw [pushElement_eq]
  have hlisted : ∀ id ∈ listed ++ [w.nextElement], start.IsNew id ∧
      id.index < ((w.elements ++ [w.newElement owner name body]).modify owner.index
        (·.listing [w.nextElement])).length := by
    intro id hid
    rw [List.length_modify, List.length_append, List.length_singleton]
    rcases List.mem_append.1 hid with hid | hid
    · have hlt := isSome_element?_iff.1 (hlisted id hid).2
      exact ⟨(hlisted id hid).1, Nat.lt_succ_of_lt hlt⟩
    · obtain rfl := List.mem_singleton.1 hid
      exact ⟨hle, Nat.lt_succ_self _⟩
  refine h.withElements ?_
  -- The owner is an old element only if it is the parent.
  by_cases hold : owner.index < start.elements.length
  · obtain rfl : owner = parent := howner.resolve_right (Nat.not_le_of_lt hold)
    refine ⟨listed ++ [w.nextElement], added ++ [w.newElement owner name body], ?_, hlisted⟩
    rw [helements, extended_append, modify_extended_parent hold]
  · refine ⟨listed, (added ++ [w.newElement owner name body]).modify
      (owner.index - start.elements.length) (·.listing [w.nextElement]), ?_,
      fun id hid => hlisted id (List.mem_append_left _ hid)⟩
    rw [helements, extended_append, modify_extended_added (Nat.not_lt.1 hold)]

/-- A new element may be edited. -/
theorem updateElement (h : Growing start parent w) {id : ElementId} (hid : start.IsNew id)
    (f : Element → Element) : Growing start parent (w.updateElement id f) := by
  obtain ⟨listed, added, helements, hlisted⟩ := h.elements_eq
  refine h.withElements ⟨listed, added.modify (id.index - start.elements.length) f, ?_, ?_⟩
  · rw [helements, modify_extended_added hid]
  · intro j hj
    rw [List.length_modify]
    exact ⟨(hlisted j hj).1, isSome_element?_iff.1 (hlisted j hj).2⟩

/-- One diagram may be created, and any may be made current. -/
theorem withDiagram (start : Workspace) (parent : ElementId) (diagram : Diagram)
    (current : Option DiagramId) :
    Growing start parent { start with diagrams := start.diagrams ++ [diagram], current } :=
  { refl start parent with diagrams_eq := ⟨[diagram], rfl, Nat.le_refl 1⟩ }

theorem withCurrent (h : Growing start parent w) (current : Option DiagramId) :
    Growing start parent { w with current } :=
  { h with }

theorem withView (h : Growing start parent w) (v : View) :
    Growing start parent (w.withView v) :=
  { h with
    views_prefix := h.views_prefix.trans (List.prefix_append _ _)
    nextView_le := Nat.le_succ_of_le h.nextView_le }

/-- A view that the counter of `start` had not reached may be edited. -/
theorem updateView (h : Growing start parent w) (hstart : start.Numbered) {id : ViewId}
    (hid : start.nextView ≤ id.index) (f : View → View) :
    Growing start parent (w.updateView id f) := by
  obtain ⟨added, hviews⟩ := h.views_prefix
  have hold : start.views.map (fun v => if v.id = id then f v else v) = start.views := by
    refine (List.map_congr_left fun v hv => if_neg fun heq => ?_).trans (List.map_id _)
    have hlt := hstart.view_lt v hv
    rw [heq] at hlt
    omega
  have hprefix : start.views <+: (w.updateView id f).views := by
    refine ⟨added.map fun v => if v.id = id then f v else v, ?_⟩
    rw [Workspace.updateView, ← hviews, List.map_append, hold]
  exact { h with views_prefix := hprefix }

/-- A relationship whose source is new. -/
theorem withRelationship (h : Growing start parent w) {request : NewRelationship}
    (hsource : start.IsNew request.source) :
    Growing start parent (w.withRelationship request) := by
  have hpushed := h.pushElement (.inr hsource) "" (.relationship
    { kind := request.kind, end1 := ⟨request.source, {}⟩, end2 := ⟨request.target, {}⟩ })
  exact { hpushed with
    relationshipViews_prefix := h.relationshipViews_prefix.trans (List.prefix_append _ _)
    nextView_le := Nat.le_succ_of_le h.nextView_le }

end Growing

/-- Asking the host to redraw adds nothing. -/
theorem Grown.repaint {start w : Workspace} {parent : ElementId} (h : Grown start parent w) :
    Grown start parent w.repaint :=
  { h with }

end Workspace

end UmlText
