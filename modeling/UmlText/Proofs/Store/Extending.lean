import UmlText.Proofs.Store.Accepting
import UmlText.Proofs.Store.Growth

/-!
# UmlText.Proofs.Store.Extending

**Workspaces with more elements.** `extend` puts new elements behind the old ones and lists some of
them as the last that one old element owns. Creating an element is an extension by that element, and
extensions compose: for the same owner, and for an owner that is itself new.
-/

namespace UmlText

universe u

open BackedStore (workspace)

namespace Workspace

/-- A workspace in which `parent` lists more elements, with new ones behind the old ones. -/
def extend (w : Workspace) (parent : ElementId) (listed : List ElementId) (added : List Element) :
    Workspace :=
  { w with elements := extended w.elements parent listed added }

variable {w : Workspace} {parent : ElementId}

theorem extend_nil (w : Workspace) (parent : ElementId) : w.extend parent [] [] = w := by
  rw [extend, extended_nil]

theorem length_extend (w : Workspace) (parent : ElementId) (listed : List ElementId)
    (added : List Element) :
    (w.extend parent listed added).elements.length = w.elements.length + added.length :=
  length_extended

/-- One more element. -/
theorem length_extend_new (w : Workspace) (parent : ElementId) (e : Element) :
    (w.extend parent [w.nextElement] [e]).elements.length = w.elements.length + 1 :=
  length_extend w parent [w.nextElement] [e]

/-- A new element is one more behind the old ones, and one more that its parent lists. -/
theorem pushElement_eq_extend (h : parent.index < w.elements.length) (name : String) (body : Body) :
    (w.pushElement parent name body).2
      = w.extend parent [w.nextElement] [w.newElement parent name body] := by
  rw [pushElement_eq, modify_append_of_lt h]
  rfl

/-- More for the same parent. -/
theorem extend_extend (h : parent.index < w.elements.length) (listed listed' : List ElementId)
    (added added' : List Element) :
    (w.extend parent listed added).extend parent listed' added'
      = w.extend parent (listed ++ listed') (added ++ added') := by
  simp only [extend]
  rw [extended, modify_extended_parent h, extended_append]

theorem modify_extended_new {elements : List Element} {listed : List ElementId} (e : Element)
    (f : Element → Element) :
    (extended elements parent listed [e]).modify elements.length f
      = extended elements parent listed [f e] := by
  rw [modify_extended_added (Nat.le_refl _), Nat.sub_self]
  rfl

theorem index_nextElement (w : Workspace) : w.nextElement.index = w.elements.length := rfl

/-- More for an element that is the only new one. -/
theorem extend_extend_new (w : Workspace) (parent : ElementId) (e : Element)
    (listed : List ElementId) (added : List Element) :
    (w.extend parent [w.nextElement] [e]).extend w.nextElement listed added
      = w.extend parent [w.nextElement] (e.listing listed :: added) := by
  simp only [extend]
  rw [extended, index_nextElement, modify_extended_new, extended_append]
  rfl

/-- An edit of the only new element. -/
theorem updateElement_extend (w : Workspace) (parent : ElementId) (e : Element)
    (f : Element → Element) :
    (w.extend parent [w.nextElement] [e]).updateElement w.nextElement f
      = w.extend parent [w.nextElement] [f e] := by
  simp only [extend, updateElement]
  rw [index_nextElement, modify_extended_new]

theorem element?_extend_new (w : Workspace) (parent : ElementId) (e : Element) :
    (w.extend parent [w.nextElement] [e]).element? w.nextElement = some e := by
  simp only [extend, element?, nextElement, extended]
  rw [List.getElem?_append_right (by rw [List.length_modify]), List.length_modify]
  simp

/-- What can own elements still can when there are more. -/
theorem CanOwn.extend {id : ElementId} (h : w.CanOwn id) (listed : List ElementId)
    (added : List Element) : (w.extend parent listed added).CanOwn id := by
  have hlt := h.index_lt
  obtain ⟨owner, howner, hbody⟩ := h
  have helement : (w.extend parent listed added).element? id
      = some (if parent.index = id.index then owner.listing listed else owner) := by
    rw [element?] at howner
    simp only [Workspace.extend, element?, extended]
    rw [List.getElem?_append_left (by rwa [List.length_modify]), List.getElem?_modify, howner]
    rfl
  refine ⟨_, helement, ?_⟩
  split <;> exact hbody

end Workspace

/-- An element that is created extends the store by itself. -/
theorem RefusesNothing.createElement_extend {σ : Type u} [ModelStore σ] [ViewStore σ]
    [BackedStore σ] {s : σ} (h : RefusesNothing s) {parent : ElementId}
    (hparent : (workspace s).CanOwn parent) (kind : ElementKind) (name : String)
    (isAbstract : Bool) :
    ∃ store, ModelStore.createElement s { kind, parent, name, isAbstract }
        = (.ok (workspace s).nextElement, store) ∧
      RefusesNothing store ∧
      workspace store = (workspace s).extend parent [(workspace s).nextElement]
        [(workspace s).newElement parent name (.empty kind isAbstract)] := by
  obtain ⟨store, hcreate, haccepts, hcreated⟩ :=
    h.createElement_eq (show (workspace s).CanOwn (NewElement.mk kind parent name isAbstract).parent
      from hparent)
  exact ⟨store, hcreate, haccepts,
    hcreated.trans (Workspace.pushElement_eq_extend hparent.index_lt name _)⟩

end UmlText
