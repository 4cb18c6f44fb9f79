import UmlText.Proofs.Import.Renumbering
import UmlText.Proofs.Store.Growth
import UmlText.Proofs.Store.Ownership

/-!
# UmlText.Proofs.Store.Grafting

**Doing to any workspace what was done to a new one.** A workspace `w` that grew out of a new one is
grafted onto another one, `base`: its elements are hung below an element of `base` that stands in for
the project of `w`, and everything in it is numbered on from where `base` ends. Every request that
`w` grants is granted by the graft under other numbers, and has the same effect: sending it to the
graft is the same as grafting what it makes of `w`.
-/

namespace UmlText.Workspace

/-- What a new workspace has become: its project is still a project, and numbers grow. -/
structure Sprout (w : Workspace) : Prop where
  root_body : (w.element? root).map Element.body = some .project
  numbered : w.Numbered

/-- A workspace that others can be grafted onto: `ρ` numbers on from where it ends, and the element
that stands in for the project can own elements. -/
structure Ground (base : Workspace) (ρ : Renumbering) : Prop where
  numbered : base.Numbered
  element_succ : ∀ i, ρ.element ⟨i + 1⟩ = ⟨base.elements.length + i⟩
  view_eq : ∀ i, ρ.view ⟨i⟩ = ⟨base.nextView + i⟩
  parent_node : ∃ e, base.element? (ρ.element root) = some e ∧ e.body.relationship? = none

/-- The workspace `base` with what `w` has that a new one has not. -/
def graft (base : Workspace) (ρ : Renumbering) (w : Workspace) : Workspace :=
  { base with
    elements := extended base.elements (ρ.element root) ((w.owned root).map ρ.element)
      (w.elements.tail.map (·.renumber ρ))
    views := base.views ++ w.views.map (·.renumber ρ)
    relationshipViews := base.relationshipViews ++ w.relationshipViews.map (·.renumber ρ)
    nextView := base.nextView + w.nextView
    repaints := base.repaints + w.repaints }

theorem nodeSize_renumber (ρ : Renumbering) (e : Element) :
    nodeSize (e.renumber ρ) = nodeSize e := by
  simp only [nodeSize, Element.kind?_renumber, Element.memberCount_renumber]

namespace Sprout

variable {w : Workspace}

theorem root_lt (h : w.Sprout) : root.index < w.elements.length := by
  obtain ⟨e, he, -⟩ := Option.map_eq_some_iff.1 h.root_body
  exact lt_of_element? he

/-- The project has no kind. -/
theorem ne_root (h : w.Sprout) {id : ElementId} (hkind : (w.kind? id).isSome) : id ≠ root := by
  rintro rfl
  obtain ⟨e, he, hbody⟩ := Option.map_eq_some_iff.1 h.root_body
  rw [kind?, he, Option.bind_some, Element.kind?, hbody] at hkind
  cases hkind

theorem pushElement (h : w.Sprout) {parent : ElementId} (hparent : parent.index < w.elements.length)
    (name : String) (body : Body) : (w.pushElement parent name body).2.Sprout where
  root_body := by
    rw [element?_pushElement, if_neg (Nat.ne_of_lt h.root_lt), Option.map_map, ← h.root_body]
    congr 1
    funext e
    by_cases hp : parent = root <;> simp [hp]
  numbered := by
    obtain ⟨owner, howner⟩ := Option.isSome_iff_exists.1 (isSome_element?_iff.2 hparent)
    exact h.numbered.pushElement howner name body

theorem updateElement (h : w.Sprout) {id : ElementId} (hid : id ≠ root) {f : Element → Element}
    (hf : ∀ e, (f e).parent = e.parent) : (w.updateElement id f).Sprout where
  root_body := by
    rw [element?_updateElement]
    simpa [hid] using h.root_body
  numbered := h.numbered.updateElement id hf

theorem withView (h : w.Sprout) {v : View} (hv : v.id = ⟨w.nextView⟩) : (w.withView v).Sprout :=
  ⟨h.root_body, h.numbered.withView hv⟩

theorem updateView (h : w.Sprout) (id : ViewId) {f : View → View} (hf : ∀ v, (f v).id = v.id) :
    (w.updateView id f).Sprout :=
  ⟨h.root_body, h.numbered.updateView id hf⟩

theorem withRelationship (h : w.Sprout) {request : NewRelationship}
    (hfault : w.relationshipFault? request = none) : (w.withRelationship request).Sprout where
  root_body :=
    (h.pushElement (lt_of_kind? (relationshipFault?_eq_none.1 hfault).2.1) "" _).root_body
  numbered := h.numbered.withRelationship hfault

end Sprout

/-- What elements are declared in: the project or a package. -/
def Holds (w : Workspace) (id : ElementId) : Prop :=
  id = root ∨ w.kind? id = some .package

/-- Every element but the project is declared in something. -/
def Nested (w : Workspace) : Prop :=
  ∀ id, id ≠ root → (w.element? id).isSome → ∃ parent, w.parent? id = some parent ∧ w.Holds parent

theorem Holds.mono {w w' : Workspace}
    (hkind : ∀ id, (w.kind? id).isSome → w'.kind? id = w.kind? id) {id : ElementId}
    (h : w.Holds id) : w'.Holds id :=
  h.imp_right fun hpackage => (hkind id (by rw [hpackage]; rfl)).trans hpackage

/-- What elements are declared in can own them. -/
theorem Sprout.owner_of_holds {w : Workspace} (h : w.Sprout) {id : ElementId} (hid : w.Holds id) :
    ∃ owner, w.element? id = some owner ∧ owner.body.relationship? = none := by
  rcases hid with rfl | hpackage
  · obtain ⟨e, he, hbody⟩ := Option.map_eq_some_iff.1 h.root_body
    exact ⟨e, he, by rw [hbody]; rfl⟩
  · obtain ⟨e, he, hkind⟩ := Option.bind_eq_some_iff.1 hpackage
    exact ⟨e, he, Body.relationship?_of_kind? (by rw [← Element.kind?, hkind]; rfl)⟩

theorem Nested.pushElement {w : Workspace} (h : w.Nested) {parent : ElementId}
    (hparent : w.Holds parent) (hlt : parent.index < w.elements.length) (name : String)
    (body : Body) : (w.pushElement parent name body).2.Nested := by
  intro id hid hknown
  rw [parent?_pushElement]
  split
  · exact ⟨parent, rfl, hparent.mono fun _ => kind?_pushElement⟩
  · next hold =>
      obtain ⟨e, he⟩ := Option.isSome_iff_exists.1 hknown
      rcases pushElement_cases hlt he with ⟨hnew, -⟩ | ⟨old, hknown, -⟩
      · exact absurd hnew hold
      · obtain ⟨p, hp, hholds⟩ := h id hid (by rw [hknown]; rfl)
        exact ⟨p, hp, hholds.mono fun _ => kind?_pushElement⟩

theorem Nested.updateElement {w : Workspace} (h : w.Nested) {id : ElementId}
    {f : Element → Element} (hf : ∀ e, w.element? id = some e → e.Keeps (f e)) :
    (w.updateElement id f).Nested := by
  intro j hj hknown
  rw [isSome_element?_updateElement] at hknown
  rw [parent?_updateElement hf]
  obtain ⟨p, hp, hholds⟩ := h j hj hknown
  exact ⟨p, hp, hholds.mono fun i _ =>
    kind?_updateElement w id i fun e he => (hf e he).kind?_eq⟩

theorem exists_succ_of_ne_root {id : ElementId} (h : id ≠ root) : ∃ i, id = ⟨i + 1⟩ := by
  obtain ⟨_ | i⟩ := id
  · exact absurd rfl h
  · exact ⟨i, rfl⟩

/-! ### Lists with one place changed -/

theorem tail_modify {α : Type} (l : List α) (i : Nat) (f : α → α) :
    (l.modify (i + 1) f).tail = l.tail.modify i f := by
  cases l with
  | nil => simp
  | cons a rest => simp

theorem map_modify {α β : Type} {m : α → β} {f : α → α} {g : β → β} (h : ∀ a, m (f a) = g (m a))
    (l : List α) (i : Nat) : (l.modify i f).map m = (l.map m).modify i g := by
  apply List.ext_getElem?
  intro j
  simp only [List.getElem?_map, List.getElem?_modify]
  cases l[j]? with
  | none => rfl
  | some a => by_cases hi : i = j <;> simp [hi, h]

section Graft

variable {base w : Workspace} {ρ : Renumbering}

/-! ### Elements -/

theorem Ground.parent_lt (h : base.Ground ρ) :
    (ρ.element root).index < base.elements.length := by
  obtain ⟨e, he, -⟩ := h.parent_node
  exact lt_of_element? he

/-- An element of the graft other than the parent. -/
theorem element?_graft (h : base.Ground ρ) {id : ElementId} (hid : id ≠ root) :
    (base.graft ρ w).element? (ρ.element id) = (w.element? id).map (·.renumber ρ) := by
  obtain ⟨i, rfl⟩ := exists_succ_of_ne_root hid
  rw [h.element_succ, element?, element?, graft, extended,
    List.getElem?_append_right (by rw [List.length_modify]; exact Nat.le_add_right _ _),
    List.length_modify, Nat.add_sub_cancel_left, List.getElem?_map, List.getElem?_tail]

/-- The parent lists the elements that the project lists. -/
theorem element?_graft_root (h : base.Ground ρ) :
    (base.graft ρ w).element? (ρ.element root)
      = (base.element? (ρ.element root)).map (·.listing ((w.owned root).map ρ.element)) := by
  rw [element?, element?, graft, extended, List.getElem?_append_left (by
    rw [List.length_modify]; exact h.parent_lt), List.getElem?_modify]
  simp

theorem kind?_graft (h : base.Ground ρ) {id : ElementId} (hid : id ≠ root) :
    (base.graft ρ w).kind? (ρ.element id) = w.kind? id := by
  rw [kind?, kind?, element?_graft h hid]
  cases w.element? id with
  | none => rfl
  | some e => exact e.kind?_renumber ρ

/-- The parent has the kind that it has. -/
theorem kind?_graft_root (h : base.Ground ρ) :
    (base.graft ρ w).kind? (ρ.element root) = base.kind? (ρ.element root) := by
  rw [kind?, kind?, element?_graft_root h]
  cases base.element? (ρ.element root) <;> rfl

theorem nameOf_graft (h : base.Ground ρ) {id : ElementId} (hid : id ≠ root) :
    ModelStore.nameOf (base.graft ρ w) (ρ.element id) = ModelStore.nameOf w id := by
  have hfound : ModelStore.element? (base.graft ρ w) (ρ.element id) = _ := element?_graft h hid
  rw [ModelStore.nameOf, ModelStore.nameOf, hfound, Option.map_map]
  rfl

theorem parent?_graft (h : base.Ground ρ) {id : ElementId} (hid : id ≠ root) :
    (base.graft ρ w).parent? (ρ.element id) = (w.parent? id).map ρ.element := by
  rw [parent?, parent?, element?_graft h hid]
  cases w.element? id <;> rfl

theorem owningPackage?_eq (w : Workspace) (id : ElementId) :
    ModelStore.owningPackage? w id
      = (w.parent? id).filter fun parent => w.kind? parent = some .package := by
  have howning : ModelStore.owningPackage? w id = (w.parent? id).bind fun parent =>
      if w.kind? parent = some .package then some parent else none := by
    rw [parent?, Option.bind_assoc]
    rfl
  rw [howning]
  cases w.parent? id with
  | none => rfl
  | some parent => simp only [Option.bind_some, Option.filter, decide_eq_true_eq]

/-- A package that owns an element of `w` owns it in the graft. -/
theorem owningPackage?_graft_some (h : base.Ground ρ) (hw : w.Sprout) {id package : ElementId}
    (hid : id ≠ root) (howner : ModelStore.owningPackage? w id = some package) :
    ModelStore.owningPackage? (base.graft ρ w) (ρ.element id) = some (ρ.element package) := by
  rw [owningPackage?_eq] at howner ⊢
  obtain ⟨hparent, hkind⟩ := Option.filter_eq_some_iff.1 howner
  have hkind := of_decide_eq_true hkind
  have hpackage := hw.ne_root (by rw [hkind]; rfl)
  rw [parent?_graft h hid, hparent, Option.map_some]
  exact Option.filter_eq_some_iff.2 ⟨rfl, by rw [kind?_graft h hpackage, hkind]; rfl⟩

/-- Where no package owns an element of `w`, the parent may do so in the graft. -/
theorem owningPackage?_graft_none (h : base.Ground ρ) {id : ElementId} (hid : id ≠ root)
    (howner : ModelStore.owningPackage? w id = none) :
    ModelStore.owningPackage? (base.graft ρ w) (ρ.element id)
      = if w.parent? id = some root ∧ base.kind? (ρ.element root) = some .package then
          some (ρ.element root)
        else none := by
  rw [owningPackage?_eq] at howner ⊢
  rw [parent?_graft h hid]
  cases hparent : w.parent? id with
  | none => rfl
  | some parent =>
      rw [hparent] at howner
      rw [Option.map_some]
      by_cases hroot : parent = root
      · subst hroot
        simp only [Option.filter, kind?_graft_root h, decide_eq_true_eq, true_and]
      · have hkind : w.kind? parent ≠ some .package := by simpa [Option.filter] using howner
        simp [Option.filter, kind?_graft h hroot, hkind, hroot]

/-- Elements keep their order; the parent was there before them. -/
theorem Ground.index_lt (h : base.Ground ρ) {a b : ElementId} (hlt : a.index < b.index) :
    (ρ.element a).index < (ρ.element b).index := by
  obtain ⟨j, rfl⟩ : ∃ j, b = ⟨j + 1⟩ := exists_succ_of_ne_root fun hb => by
    rw [hb] at hlt
    exact Nat.not_lt_zero _ hlt
  rw [h.element_succ]
  by_cases ha : a = root
  · rw [ha]
    exact Nat.lt_of_lt_of_le h.parent_lt (Nat.le_add_right _ _)
  · obtain ⟨i, rfl⟩ := exists_succ_of_ne_root ha
    rw [h.element_succ]
    exact Nat.add_lt_add_left (Nat.lt_of_succ_lt_succ hlt) _

theorem numbered_graft (h : base.Ground ρ) (hw : w.Sprout) : (base.graft ρ w).Numbered where
  parent_lt := by
    intro id e parent he hparent
    rcases Nat.lt_or_ge id.index base.elements.length with hold | hnew
    · -- An element of `base`, of which only the parent may have changed.
      rw [element?, graft, extended, List.getElem?_append_left (by rwa [List.length_modify]),
        List.getElem?_modify] at he
      obtain ⟨old, hfound, rfl⟩ := Option.map_eq_some_iff.1 he
      refine h.numbered.parent_lt id old parent hfound ?_
      split at hparent <;> exact hparent
    · obtain ⟨i, hi⟩ := Nat.exists_eq_add_of_le hnew
      obtain rfl : id = ρ.element ⟨i + 1⟩ := by rw [h.element_succ, ← hi]
      rw [element?_graft h (by simp [root])] at he
      obtain ⟨old, hfound, rfl⟩ := Option.map_eq_some_iff.1 he
      obtain ⟨p, hp, rfl⟩ := Option.map_eq_some_iff.1 hparent
      exact h.index_lt (hw.numbered.parent_lt _ old p hfound hp)
  view_lt := by
    intro v hv
    rcases List.mem_append.1 hv with hv | hv
    · exact Nat.lt_of_lt_of_le (h.numbered.view_lt v hv) (Nat.le_add_right _ _)
    · obtain ⟨u, hu, rfl⟩ := List.mem_map.1 hv
      have hid : (u.renumber ρ).id = ⟨base.nextView + u.id.index⟩ := h.view_eq u.id.index
      rw [hid]
      exact Nat.add_lt_add_left (hw.numbered.view_lt u hu) _

/-- The number that an element of the graft gets next. -/
theorem nextElement_graft (h : base.Ground ρ) (hw : w.Sprout) :
    (base.graft ρ w).nextElement = ρ.element w.nextElement := by
  obtain ⟨n, hn⟩ : ∃ n, w.elements.length = n + 1 :=
    ⟨_, (Nat.succ_pred (Nat.ne_of_gt hw.root_lt)).symm⟩
  rw [nextElement, nextElement, graft, length_extended, hn, h.element_succ]
  simp [hn]

theorem newElement_graft (h : base.Ground ρ) (hw : w.Sprout) (parent : ElementId) (name : String)
    (body : Body) :
    (base.graft ρ w).newElement (ρ.element parent) name (body.renumber ρ)
      = (w.newElement parent name body).renumber ρ := by
  rw [newElement, nextElement_graft h hw]
  rfl

/-- **A new element** of `w`, listed by its parent, is one of the graft, listed by the parent of
that. -/
theorem pushElement_graft (h : base.Ground ρ) (hw : w.Sprout) {parent : ElementId}
    (hparent : parent.index < w.elements.length) (name : String) (body : Body) :
    (base.graft ρ w).pushElement (ρ.element parent) name (body.renumber ρ)
      = (ρ.element w.nextElement, base.graft ρ (w.pushElement parent name body).2) := by
  have howned : (w.pushElement parent name body).2.owned root
      = if parent = root then w.owned root ++ [w.nextElement] else w.owned root :=
    owned_pushElement hparent root
  have hne : w.elements ≠ [] := List.ne_nil_of_length_pos hw.root_lt
  rw [pushElement_eq, nextElement_graft h hw, newElement_graft h hw]
  refine congrArg (fun elements => (ρ.element w.nextElement, { base.graft ρ w with elements })) ?_
  rw [howned, pushElement_eq]
  simp only [graft, extended_append]
  by_cases hroot : parent = root
  · -- The parent of the graft lists one more.
    subst hroot
    have htail : ((w.elements ++ [w.newElement root name body]).modify root.index
        (·.listing [w.nextElement])).tail = w.elements.tail ++ [w.newElement root name body] := by
      obtain ⟨e, rest, hcons⟩ := List.exists_cons_of_ne_nil hne
      simp [hcons, root]
    rw [modify_extended_parent h.parent_lt, if_pos rfl, htail]
    simp only [List.map_append, List.map_cons, List.map_nil, nextElement]
  · -- An element that was grafted lists one more.
    obtain ⟨i, rfl⟩ := exists_succ_of_ne_root hroot
    have htail : ((w.elements ++ [w.newElement ⟨i + 1⟩ name body]).modify (i + 1)
        (·.listing [w.nextElement])).tail.map (·.renumber ρ)
          = (w.elements.tail.map (·.renumber ρ)
              ++ [(w.newElement ⟨i + 1⟩ name body).renumber ρ]).modify i
                (·.listing [ρ.element w.nextElement]) := by
      rw [tail_modify, map_modify (g := (·.listing [ρ.element w.nextElement])) fun e => by
        simp [Element.listing, Element.renumber], List.tail_append_of_ne_nil hne, List.map_append]
      rfl
    rw [h.element_succ, modify_extended_added (Nat.le_add_right _ _), Nat.add_sub_cancel_left,
      if_neg hroot, htail]

/-- An edit of an element other than the project. -/
theorem updateElement_graft (h : base.Ground ρ) {id : ElementId} (hid : id ≠ root)
    {f f' : Element → Element} (hf : ∀ e : Element, (f e).renumber ρ = f' (e.renumber ρ)) :
    (base.graft ρ w).updateElement (ρ.element id) f' = base.graft ρ (w.updateElement id f) := by
  -- The project is another element, so it lists what it has listed.
  have howned : (w.updateElement id f).owned root = w.owned root := by
    rw [owned, owned, element?_updateElement]
    cases w.element? root with
    | none => rfl
    | some e => simp [hid]
  refine congrArg (fun elements => { base.graft ρ w with elements }) ?_
  rw [howned]
  obtain ⟨i, rfl⟩ := exists_succ_of_ne_root hid
  simp only [graft, updateElement]
  rw [h.element_succ, modify_extended_added (Nat.le_add_right _ _), Nat.add_sub_cancel_left,
    tail_modify, map_modify hf]

/-! ### Requests for elements and members -/

/-- What can own elements in `w` can do so in the graft. -/
theorem owner_graft (h : base.Ground ρ) {parent : ElementId} {owner : Element}
    (howner : w.element? parent = some owner) (hbody : owner.body.relationship? = none) :
    ∃ owner', (base.graft ρ w).element? (ρ.element parent) = some owner' ∧
      owner'.body.relationship? = none := by
  by_cases hparent : parent = root
  · obtain ⟨e, he, hnode⟩ := h.parent_node
    refine ⟨e.listing ((w.owned root).map ρ.element), ?_, hnode⟩
    rw [hparent, element?_graft_root h, he, Option.map_some]
  · refine ⟨owner.renumber ρ, ?_, ?_⟩
    · rw [element?_graft h hparent, howner, Option.map_some]
    · simp only [Element.renumber, Body.renumber]
      cases hb : owner.body <;> first | rfl | (rw [hb] at hbody; cases hbody)

/-- An element that `w` creates is created by the graft. -/
theorem createElement_graft (h : base.Ground ρ) (hw : w.Sprout) {request : NewElement}
    {owner : Element} (howner : w.element? request.parent = some owner)
    (hbody : owner.body.relationship? = none) :
    (base.graft ρ w).createElement { request with parent := ρ.element request.parent }
      = (.ok (ρ.element w.nextElement),
          base.graft ρ (w.pushElement request.parent request.name
            (.empty request.kind request.isAbstract)).2) := by
  obtain ⟨owner', howner', hbody'⟩ := owner_graft h howner hbody
  have hempty : (Body.empty request.kind request.isAbstract).renumber ρ
      = Body.empty request.kind request.isAbstract :=
    Body.renumber_of_kind? ρ (by rw [Body.kind?_empty]; rfl)
  have hpush := pushElement_graft h hw (lt_of_element? howner) request.name
    (.empty request.kind request.isAbstract)
  rw [hempty] at hpush
  rw [createElement_granted howner' hbody', hpush, ← nextElement_graft h hw]
  rfl

/-- A member that `w` adds is added by the graft. -/
theorem addMember_graft (h : base.Ground ρ) {id : ElementId} (hid : id ≠ root) {member : Member}
    {element : Element} {body : Body} (helement : w.element? id = some element)
    (hbody : element.body.withMember? member = some body) :
    (base.graft ρ w).addMember (ρ.element id) member
      = (.ok (), base.graft ρ (w.updateElement id fun e => { e with body })) := by
  have hkind := Body.kind?_of_withMember? hbody
  -- What can have members refers to no elements, so its body is the same in the graft.
  have hsame : (element.renumber ρ).body = element.body := Body.renumber_of_kind? ρ hkind
  have hfound : (base.graft ρ w).element? (ρ.element id) = some (element.renumber ρ) := by
    rw [element?_graft h hid, helement, Option.map_some]
  rw [addMember_granted hfound (hsame ▸ hbody),
    updateElement_graft (f := fun e => { e with body }) h hid fun e => ?_]
  have hkept : body.renumber ρ = body :=
    Body.renumber_of_kind? ρ (Body.kind?_withMember? hbody ▸ hkind)
  simp only [Element.renumber, hkept]

/-! ### Views -/

/-- No view of `base` has a number that a view of the graft has. -/
theorem Ground.ne_view (h : base.Ground ρ) {v : View} (hv : v ∈ base.views) (id : ViewId) :
    v.id ≠ ρ.view id := by
  intro heq
  have hlt := h.numbered.view_lt v hv
  rw [heq, h.view_eq] at hlt
  exact absurd hlt (Nat.not_lt.2 (Nat.le_add_right _ _))

theorem view?_graft (h : base.Ground ρ) (id : ViewId) :
    (base.graft ρ w).view? (ρ.view id) = (w.view? id).map (·.renumber ρ) := by
  have hold : base.views.find? (fun v => v.id = ρ.view id) = none :=
    List.find?_eq_none.2 fun v hv heq => h.ne_view hv id (of_decide_eq_true heq)
  have hsame : (fun v : View => decide (v.id = ρ.view id)) ∘ View.renumber ρ
      = fun v : View => decide (v.id = id) := by
    funext v
    simp only [Function.comp_apply, View.renumber, ρ.view_injective.eq_iff]
  rw [view?, view?, graft, List.find?_append, hold, Option.none_or, List.find?_map, hsame]

theorem shows_graft (h : base.Ground ρ) (v : ViewId) (model : ElementId) :
    (base.graft ρ w).shows (ρ.view v) (ρ.element model) = w.shows v model := by
  rw [shows, shows, view?_graft h, Option.any_map]
  simp only [View.renumber, ρ.element_injective.eq_iff]

theorem acceptsContainer_graft (h : base.Ground ρ) (diagram : DiagramId) (container : ViewId) :
    (base.graft ρ w).acceptsContainer (ρ.diagram diagram) (ρ.view container)
      = w.acceptsContainer diagram container := by
  rw [acceptsContainer, acceptsContainer, view?_graft h, Option.any_map]
  simp only [View.renumber, ρ.diagram_injective.eq_iff]

/-- An edit of a view. -/
theorem updateView_graft (h : base.Ground ρ) (id : ViewId) {f f' : View → View}
    (hf : ∀ v : View, (f v).renumber ρ = f' (v.renumber ρ)) :
    (base.graft ρ w).updateView (ρ.view id) f' = base.graft ρ (w.updateView id f) := by
  -- The views of `base` have other numbers, so the edit is of a view that was grafted.
  have hold : base.views.map (fun v => if v.id = ρ.view id then f' v else v) = base.views :=
    (List.map_congr_left fun v hv => if_neg (h.ne_view hv id)).trans (List.map_id _)
  have hnew : (fun v : View => if v.id = ρ.view id then f' v else v) ∘ (·.renumber ρ)
      = (·.renumber ρ) ∘ fun v => if v.id = id then f v else v := by
    funext v
    have hid : (v.renumber ρ).id = ρ.view v.id := rfl
    simp only [Function.comp_apply, hid, ρ.view_injective.eq_iff]
    split
    · exact (hf v).symm
    · rfl
  refine congrArg (fun views => { base.graft ρ w with views }) ?_
  simp only [graft, updateView, List.map_append, List.map_map, hold, hnew]

/-- A view is granted by the graft if it is granted by `w`. -/
theorem GrantsView.graft (h : base.Ground ρ) {request : NewView} {element : Element}
    (hgrants : w.GrantsView request element) (hmodel : request.model ≠ root)
    (hdiagram : (base.diagram? (ρ.diagram request.diagram)).isSome) :
    (base.graft ρ w).GrantsView (request.renumber ρ) (element.renumber ρ) where
  diagram := hdiagram
  model := by
    rw [NewView.renumber, element?_graft h hmodel, hgrants.model, Option.map_some]
  kind := by
    rw [Element.kind?_renumber]
    exact hgrants.kind
  container := by
    intro c hc
    obtain ⟨old, hold, rfl⟩ := Option.map_eq_some_iff.1 hc
    exact (acceptsContainer_graft h _ old).trans (hgrants.container old hold)

/-- And only then. -/
theorem GrantsView.of_graft (h : base.Ground ρ) {request : NewView} {element' : Element}
    (hgrants : (base.graft ρ w).GrantsView (request.renumber ρ) element')
    (hmodel : request.model ≠ root) (hdiagram : (w.diagram? request.diagram).isSome) :
    ∃ element, w.GrantsView request element := by
  have hfound := hgrants.model
  rw [NewView.renumber, element?_graft h hmodel] at hfound
  obtain ⟨element, helement, rfl⟩ := Option.map_eq_some_iff.1 hfound
  refine ⟨element, hdiagram, helement, ?_, fun c hc => ?_⟩
  · have hkind := hgrants.kind
    rwa [Element.kind?_renumber] at hkind
  · have haccepts := hgrants.container (ρ.view c) (Option.map_eq_some_iff.2 ⟨c, hc, rfl⟩)
    rwa [NewView.renumber, acceptsContainer_graft h] at haccepts

theorem withView_graft (h : base.Ground ρ) (request : NewView) (element : Element) :
    (base.graft ρ w).withView ((base.graft ρ w).newView (request.renumber ρ) (element.renumber ρ))
      = base.graft ρ (w.withView (w.newView request element)) := by
  have hview : (base.graft ρ w).newView (request.renumber ρ) (element.renumber ρ)
      = (w.newView request element).renumber ρ := by
    simp only [newView, View.renumber, NewView.renumber, nodeSize_renumber, h.view_eq]
    rfl
  rw [hview]
  simp only [withView, graft, List.map_append, List.append_assoc, List.map_cons, List.map_nil]
  rfl

/-! ### Relationships -/

/-- A relationship between two elements of `w` has the same chance in the graft. -/
theorem relationshipFault?_graft (h : base.Ground ρ) {request : NewRelationship}
    (hsource : request.source ≠ root) (htarget : request.target ≠ root)
    (hdiagram : (w.diagram? request.diagram).isSome)
    (hdiagram' : (base.diagram? (ρ.diagram request.diagram)).isSome) :
    (base.graft ρ w).relationshipFault? (request.renumber ρ) = none
      ↔ w.relationshipFault? request = none := by
  rw [relationshipFault?_eq_none, relationshipFault?_eq_none]
  simp only [NewRelationship.renumber, kind?_graft h hsource, kind?_graft h htarget, shows_graft h]
  exact and_congr_left fun _ => iff_of_true hdiagram' hdiagram

theorem newRelationshipView_graft (h : base.Ground ρ) (hw : w.Sprout) (request : NewRelationship) :
    (base.graft ρ w).newRelationshipView (request.renumber ρ)
      = (w.newRelationshipView request).renumber ρ := by
  have helement := nextElement_graft h hw
  simp only [nextElement] at helement
  simp only [newRelationshipView, RelationshipView.renumber, NewRelationship.renumber, helement,
    h.view_eq]
  rfl

/-- The view of a relationship that is granted. -/
theorem createRelationshipView_graft (h : base.Ground ρ) (hw : w.Sprout)
    {request : NewRelationship} (hsource : request.source ≠ root) (htarget : request.target ≠ root)
    (hdiagram : (w.diagram? request.diagram).isSome)
    (hdiagram' : (base.diagram? (ρ.diagram request.diagram)).isSome) :
    ((base.graft ρ w).createRelationshipView (request.renumber ρ)).1.toOption
      = (w.createRelationshipView request).1.toOption.map (·.renumber ρ) := by
  have hiff := relationshipFault?_graft h hsource htarget hdiagram hdiagram'
  simp only [createRelationshipView]
  cases hfault : w.relationshipFault? request with
  | none =>
      rw [hiff.2 hfault]
      exact congrArg some (newRelationshipView_graft h hw request)
  | some fault =>
      cases hfault' : (base.graft ρ w).relationshipFault? (request.renumber ρ) with
      | none => exact absurd (hiff.1 hfault') (by simp [hfault])
      | some fault' => rfl

theorem withRelationship_graft (h : base.Ground ρ) (hw : w.Sprout) {request : NewRelationship}
    (hsource : (w.kind? request.source).isSome) :
    (base.graft ρ w).withRelationship (request.renumber ρ)
      = base.graft ρ (w.withRelationship request) := by
  have hpush := pushElement_graft h hw (lt_of_kind? hsource) "" (.relationship
    { kind := request.kind, end1 := ⟨request.source, {}⟩, end2 := ⟨request.target, {}⟩ })
  have hview := newRelationshipView_graft h hw request
  rw [withRelationship, hview]
  have hpushed := congrArg Prod.snd hpush
  simp only [Body.renumber, Body.mapRelationship, Relationship.renumber] at hpushed
  simp only [NewRelationship.renumber, hpushed]
  simp only [withRelationship, graft, List.map_append, List.append_assoc, List.map_cons,
    List.map_nil]
  rfl

end Graft

end UmlText.Workspace
