import UmlText.Proofs.Store.Ownership

/-!
# UmlText.Proofs.Store.Contents

What a workspace holds, apart from who owns what: the names and bodies of its elements in the order
of their numbers. A new element adds its own at the end, and an edit changes one place.
-/

namespace UmlText.Workspace

/-- The names and bodies of the elements. -/
def contents (w : Workspace) : List (String × Body) :=
  w.elements.map fun e => (e.name, e.body)

@[simp]
theorem length_contents (w : Workspace) : w.contents.length = w.elements.length :=
  List.length_map _

/-- An element is known if there is something at its number. -/
theorem element?_of_contents (w : Workspace) (id : ElementId) {content : String × Body}
    (h : w.contents[id.index]? = some content) :
    ∃ e, w.element? id = some e ∧ (e.name, e.body) = content := by
  rw [contents, List.getElem?_map] at h
  exact Option.map_eq_some_iff.1 h

theorem kind?_of_contents (w : Workspace) (id : ElementId) {content : String × Body}
    (h : w.contents[id.index]? = some content) : w.kind? id = content.2.kind? := by
  obtain ⟨e, he, rfl⟩ := element?_of_contents w id h
  rw [kind?, he, Option.bind_some, Element.kind?]

/-- An edit of an element is an edit of its name and body. -/
theorem contents_updateElement (w : Workspace) (id : ElementId) {f : Element → Element}
    {g : String × Body → String × Body}
    (hf : ∀ e, ((f e).name, (f e).body) = g (e.name, e.body)) :
    (w.updateElement id f).contents = w.contents.modify id.index g := by
  apply List.ext_getElem?
  intro i
  simp only [contents, updateElement, List.getElem?_map, List.getElem?_modify]
  cases w.elements[i]? with
  | none => rfl
  | some e => by_cases hi : id.index = i <;> simp [hi, hf]

theorem contents_pushElement (w : Workspace) (parent : ElementId) (name : String) (body : Body) :
    (w.pushElement parent name body).2.contents = w.contents ++ [(name, body)] := by
  let element : Element := { id := ⟨w.elements.length⟩, name, parent := some parent, body }
  have howned := contents_updateElement { w with elements := w.elements ++ [element] } parent
    (f := fun e => { e with owned := e.owned ++ [⟨w.elements.length⟩] }) (g := id) fun _ => rfl
  have hid : ∀ (l : List (String × Body)) (i : Nat), l.modify i id = l := by
    intro l i
    apply List.ext_getElem?
    intro j
    rw [List.getElem?_modify]
    split <;> simp
  rw [hid] at howned
  exact howned.trans (by simp [contents, element])

/-- The last element is edited at the number that it was given. -/
theorem modify_length {α : Type} (l : List α) (x : α) (f : α → α) :
    (l ++ [x]).modify l.length f = l ++ [f x] := by
  rw [List.modify_eq_take_drop]
  simp

/-- A member that the last element can have is given to it. -/
theorem addMember_last {w : Workspace} {contents : List (String × Body)} {name : String}
    {body body' : Body} {member : Member} (h : w.contents = contents ++ [(name, body)])
    (hbody : body.withMember? member = some body') :
    ∃ w', w.addMember ⟨contents.length⟩ member = (.ok (), w') ∧
      w'.contents = contents ++ [(name, body')] ∧ w'.diagrams = w.diagrams ∧
      ∀ id, w'.parent? id = w.parent? id := by
  obtain ⟨e, he, hcontent⟩ := element?_of_contents w ⟨contents.length⟩
    (show w.contents[contents.length]? = some (name, body) by simp [h])
  obtain ⟨rfl, rfl⟩ := Prod.mk.inj hcontent
  refine ⟨_, addMember_granted he hbody, ?_, rfl, parent?_updateElement fun e' he' => ?_⟩
  · rw [contents_updateElement w ⟨contents.length⟩ (g := fun content => (content.1, body'))
      fun _ => rfl, h]
    exact modify_length _ _ _
  · obtain rfl := Option.some.inj (he.symm.trans he')
    exact Element.keeps_withMember hbody

end UmlText.Workspace
