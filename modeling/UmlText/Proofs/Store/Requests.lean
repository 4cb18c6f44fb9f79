import UmlText.Store.Workspace

/-!
# UmlText.Proofs.Store.Requests

What each request does to a workspace: one lemma per request that lists its outcomes, the refusals
first. A refusal leaves the workspace as it was. What follows elsewhere about requests is read off
these lemmas, not off the requests themselves.
-/

namespace UmlText

/-! ### Kinds of bodies -/

theorem Body.kind?_empty (kind : ElementKind) (isAbstract : Bool) :
    (Body.empty kind isAbstract).kind? = some kind := by
  cases kind <;> rfl

/-- A member does not change the kind of its owner. -/
theorem Body.kind?_withMember? {body body' : Body} {member : Member}
    (h : body.withMember? member = some body') : body'.kind? = body.kind? := by
  cases body <;> cases member <;> simp only [Body.withMember?, Option.some.injEq, reduceCtorEq] at h
    <;> (subst h; rfl)

/-- What has a kind is no relationship. -/
theorem Body.relationship?_of_kind? {body : Body} (h : body.kind?.isSome) :
    body.relationship? = none := by
  cases body <;> first | rfl | cases h

/-- Only what has a kind has members. -/
theorem Body.kind?_of_withMember? {body body' : Body} {member : Member}
    (h : body.withMember? member = some body') : body.kind?.isSome := by
  cases body <;> cases member <;> first | rfl | cases h

namespace Workspace

/-! ### Lookup after an edit -/

theorem element?_updateElement (w : Workspace) (id j : ElementId) (f : Element → Element) :
    (w.updateElement id f).element? j
      = (w.element? j).map fun e => if id = j then f e else e := by
  obtain ⟨i⟩ := id
  obtain ⟨j⟩ := j
  simp only [element?, updateElement, List.getElem?_modify, ElementId.mk.injEq]
  cases w.elements[j]? with
  | none => rfl
  | some e => by_cases h : i = j <;> simp [h]

/-- An edit of a view that keeps its number is seen at that view and nowhere else. -/
theorem view?_updateView (w : Workspace) (id j : ViewId) {f : View → View}
    (hf : ∀ v, (f v).id = v.id) :
    (w.updateView id f).view? j = (w.view? j).map fun v => if id = j then f v else v := by
  simp only [view?, updateView]
  induction w.views with
  | nil => rfl
  | cons v rest ih =>
      by_cases hid : v.id = id
      · by_cases hj : v.id = j
        · simp [hid, hf, ← hj]
        · have hj' : id ≠ j := hid ▸ hj
          simp [hid, hf, hj', ih]
      · by_cases hj : v.id = j
        · simp [← hj, hid, Ne.symm hid]
        · simp [hid, hj, ih]

/-- The element just pushed, and those before it with the new one listed under its parent. -/
theorem element?_pushElement (w : Workspace) (parent : ElementId) (name : String) (body : Body)
    (j : ElementId) :
    (w.pushElement parent name body).2.element? j
      = (if j.index = w.elements.length then
            some { id := j, name, parent := some parent, body : Element }
          else w.element? j).map fun e =>
            if parent = j then { e with owned := e.owned ++ [⟨w.elements.length⟩] } else e := by
  obtain ⟨p⟩ := parent
  obtain ⟨j⟩ := j
  simp only [element?, pushElement, List.getElem?_modify, ElementId.mk.injEq]
  rcases Nat.lt_trichotomy j w.elements.length with h | rfl | h
  · rw [List.getElem?_append_left h, if_neg (by omega)]
    cases w.elements[j]? with
    | none => rfl
    | some e => by_cases hp : p = j <;> simp [hp]
  · by_cases hp : p = w.elements.length <;> simp [hp]
  · rw [List.getElem?_eq_none (by simp; omega), if_neg (by omega),
      List.getElem?_eq_none (by omega)]
    rfl

/-- Whatever is read off an element is the same after an edit that leaves it. -/
theorem bind_element?_updateElement {β : Type} {read : Element → Option β} (w : Workspace)
    (id j : ElementId) {f : Element → Element}
    (hf : ∀ e, w.element? id = some e → read (f e) = read e) :
    ((w.updateElement id f).element? j).bind read = (w.element? j).bind read := by
  rw [element?_updateElement]
  cases he : w.element? j with
  | none => rfl
  | some e =>
      by_cases hj : id = j
      · simpa [hj] using hf e (hj ▸ he)
      · simp [hj]

/-- Whatever is read off an element apart from what it owns is the same beside a new element. -/
theorem bind_element?_pushElement {β : Type} {read : Element → Option β}
    (hread : ∀ e owned, read { e with owned } = read e) (w : Workspace) (parent : ElementId)
    (name : String) (body : Body) (j : ElementId) :
    ((w.pushElement parent name body).2.element? j).bind read
      = if j = ⟨w.elements.length⟩ then
          read { id := j, name, parent := some parent, body }
        else (w.element? j).bind read := by
  have howned : ∀ e : Element, read (if parent = j then
      { e with owned := e.owned ++ [⟨w.elements.length⟩] } else e) = read e := by
    intro e
    split
    · exact hread e _
    · rfl
  rw [element?_pushElement, Option.bind_map]
  by_cases hj : j.index = w.elements.length
  · have hid : j = ⟨w.elements.length⟩ := by rw [← hj]
    rw [if_pos hj, if_pos hid]
    exact howned _
  · have hid : j ≠ ⟨w.elements.length⟩ := fun heq => hj (by rw [heq])
    rw [if_neg hj, if_neg hid]
    exact congrArg (w.element? j).bind (funext howned)

/-! ### Kinds of elements -/

theorem kind?_of_element? {w : Workspace} {id : ElementId} {e : Element}
    (h : w.element? id = some e) : w.kind? id = e.kind? := by
  rw [kind?, h, Option.bind_some]

/-- An edit that keeps kinds is seen in no kind. -/
theorem kind?_updateElement (w : Workspace) (id j : ElementId) {f : Element → Element}
    (hf : ∀ e, w.element? id = some e → (f e).kind? = e.kind?) :
    (w.updateElement id f).kind? j = w.kind? j :=
  bind_element?_updateElement w id j hf

/-- A member leaves its owner of the kind that it is. -/
theorem kind?_updateElement_body {w : Workspace} {id : ElementId} {element : Element}
    {member : Member} {body : Body} (helement : w.element? id = some element)
    (hbody : element.body.withMember? member = some body) (j : ElementId) :
    (w.updateElement id fun e => { e with body }).kind? j = w.kind? j := by
  refine kind?_updateElement w id j fun e he => ?_
  obtain rfl := Option.some.inj (helement.symm.trans he)
  exact Body.kind?_withMember? hbody

/-- A pushed element changes no kind but its own. -/
theorem kind?_pushElement_of_ne {w : Workspace} {parent : ElementId} {name : String} {body : Body}
    {j : ElementId} (h : j.index ≠ w.elements.length) :
    (w.pushElement parent name body).2.kind? j = w.kind? j :=
  (bind_element?_pushElement (fun _ _ => rfl) w parent name body j).trans
    (if_neg fun heq => h (by rw [heq]))

/-- It hides no kind. -/
theorem kind?_pushElement {w : Workspace} {parent : ElementId} {name : String} {body : Body}
    {j : ElementId} (h : (w.kind? j).isSome) :
    (w.pushElement parent name body).2.kind? j = w.kind? j := by
  obtain ⟨kind, hkind⟩ := Option.isSome_iff_exists.1 h
  obtain ⟨e, he, -⟩ := Option.bind_eq_some_iff.1 hkind
  exact kind?_pushElement_of_ne (Nat.ne_of_lt (List.getElem?_eq_some_iff.1 he).1)

/-- A pushed element has the kind of its body. -/
theorem kind?_pushElement_self (w : Workspace) (parent : ElementId) (name : String)
    (body : Body) :
    (w.pushElement parent name body).2.kind? ⟨w.elements.length⟩ = body.kind? :=
  (bind_element?_pushElement (fun _ _ => rfl) w parent name body _).trans (if_pos rfl)

/-! ### Elements and members -/

/-- An element is created under any known element but a relationship. -/
theorem createElement_granted {w : Workspace} {request : NewElement} {owner : Element}
    (howner : w.element? request.parent = some owner)
    (hbody : owner.body.relationship? = none) :
    w.createElement request = (.ok ⟨w.elements.length⟩,
      (w.pushElement request.parent request.name
        (.empty request.kind request.isAbstract)).2) := by
  simp only [createElement, howner, hbody]
  rfl

theorem createElement_cases (w : Workspace) (request : NewElement) :
    (∃ error, w.createElement request = (.error error, w)) ∨
      ∃ owner, w.element? request.parent = some owner ∧ owner.body.relationship? = none := by
  cases howner : w.element? request.parent with
  | none => exact .inl ⟨.unknownElement request.parent, by simp only [createElement, howner]⟩
  | some owner =>
      cases hbody : owner.body.relationship? with
      | none => exact .inr ⟨owner, rfl, hbody⟩
      | some r =>
          refine .inl ⟨.invalidOwner request.parent .elements, ?_⟩
          simp only [createElement, howner, hbody]
          rfl

/-- A member is added to a known element that has members of its sort. -/
theorem addMember_granted {w : Workspace} {owner : ElementId} {member : Member}
    {element : Element} {body : Body} (howner : w.element? owner = some element)
    (hbody : element.body.withMember? member = some body) :
    w.addMember owner member = (.ok (), w.updateElement owner fun e => { e with body }) := by
  simp only [addMember, howner, hbody]

theorem addMember_cases (w : Workspace) (owner : ElementId) (member : Member) :
    (∃ error, w.addMember owner member = (.error error, w)) ∨
      ∃ element body, w.element? owner = some element ∧
        element.body.withMember? member = some body := by
  cases howner : w.element? owner with
  | none => exact .inl ⟨.unknownElement owner, by simp only [addMember, howner]⟩
  | some element =>
      cases hbody : element.body.withMember? member with
      | none =>
          exact .inl ⟨.invalidOwner owner (.ofMember member), by
            simp only [addMember, howner, hbody]⟩
      | some body => exact .inr ⟨element, body, rfl, hbody⟩

/-! ### Diagrams -/

/-- A diagram is created for any known element, and becomes the current one. -/
theorem createDiagram_cases (w : Workspace) (kind : DiagramKind) (owner : ElementId) :
    (∃ error, w.createDiagram kind owner = (.error error, w)) ∨
      ∃ element, w.element? owner = some element ∧
        w.createDiagram kind owner = (.ok ⟨w.diagrams.length⟩,
          { w with
            diagrams := w.diagrams ++ [{ id := ⟨w.diagrams.length⟩, kind, owner }]
            current := some ⟨w.diagrams.length⟩ }) := by
  simp only [createDiagram]
  cases w.element? owner with
  | none => exact .inl ⟨_, rfl⟩
  | some element => exact .inr ⟨element, rfl, rfl⟩

theorem setCurrentDiagram_cases (w : Workspace) (id : DiagramId) :
    (∃ error, w.setCurrentDiagram id = (.error error, w)) ∨
      ∃ diagram, w.diagram? id = some diagram ∧
        w.setCurrentDiagram id = (.ok (), { w with current := some id }) := by
  simp only [setCurrentDiagram]
  cases w.diagram? id with
  | none => exact .inl ⟨_, rfl⟩
  | some diagram => exact .inr ⟨diagram, rfl, rfl⟩

/-! ### Views -/

/-- The workspace with one more view, under the number of the counter. -/
def withView (w : Workspace) (v : View) : Workspace :=
  { w with views := w.views ++ [v], nextView := w.nextView + 1 }

/-- A new view does not hide an old one. -/
theorem view?_withView {w : Workspace} {v : View} {id : ViewId} {u : View}
    (h : w.view? id = some u) : (w.withView v).view? id = some u := by
  rw [Workspace.view?] at h
  simp [Workspace.view?, Workspace.withView, List.find?_append, h]

theorem view?_withView_self {w : Workspace} (hlt : ∀ v ∈ w.views, v.id.index < w.nextView)
    {v : View} (hv : v.id = ⟨w.nextView⟩) : (w.withView v).view? ⟨w.nextView⟩ = some v := by
  have hold : w.views.find? (fun u => u.id = ⟨w.nextView⟩) = none := by
    apply List.find?_eq_none.2
    intro u hu hid
    have hu := hlt u hu
    rw [of_decide_eq_true hid] at hu
    exact Nat.lt_irrefl _ hu
  simp [Workspace.view?, Workspace.withView, List.find?_append, hold, hv]

/-- The counter stays ahead of the views with a new one under its number. -/
theorem view_lt_withView {w : Workspace} (hlt : ∀ v ∈ w.views, v.id.index < w.nextView)
    {v : View} (hv : v.id = ⟨w.nextView⟩) :
    ∀ u ∈ (w.withView v).views, u.id.index < (w.withView v).nextView := by
  intro u hu
  rcases List.mem_append.1 hu with hu | hu
  · exact Nat.lt_succ_of_lt (hlt u hu)
  · obtain rfl := List.mem_singleton.1 hu
    simp [Workspace.withView, hv]

/-- So it does when a view is edited. -/
theorem view_lt_updateView {w : Workspace} (hlt : ∀ v ∈ w.views, v.id.index < w.nextView)
    (id : ViewId) {f : View → View} (hf : ∀ v, (f v).id = v.id) :
    ∀ u ∈ (w.updateView id f).views, u.id.index < (w.updateView id f).nextView := by
  intro u hu
  obtain ⟨v, hv, rfl⟩ := List.mem_map.1 hu
  have hid : (if v.id = id then f v else v).id = v.id := by
    split
    · exact hf v
    · rfl
  rw [hid]
  exact hlt v hv

/-- The view that a granted request creates. -/
def newView (w : Workspace) (request : NewView) (element : Element) : View :=
  { id := ⟨w.nextView⟩
    diagram := request.diagram
    model := request.model
    position := request.position
    size := nodeSize element
    container := request.container }

/-- What a request for a view must name: a known diagram, an element with a kind, and as container
nothing or a view of that diagram. -/
structure GrantsView (w : Workspace) (request : NewView) (element : Element) : Prop where
  diagram : (w.diagram? request.diagram).isSome
  model : w.element? request.model = some element
  kind : element.kind?.isSome
  container : ∀ c ∈ request.container, w.acceptsContainer request.diagram c

theorem GrantsView.createView {w : Workspace} {request : NewView} {element : Element}
    (h : w.GrantsView request element) :
    w.createView request = (.ok ⟨w.nextView⟩, w.withView (w.newView request element)) := by
  obtain ⟨diagram, hd⟩ := Option.isSome_iff_exists.1 h.diagram
  have hc : request.container.filter (fun c => !w.acceptsContainer request.diagram c) = none := by
    cases hc : request.container with
    | none => rfl
    | some c => simp [Option.filter, h.container c hc]
  simp only [Workspace.createView, hd, h.model]
  rw [if_neg (by simp [Option.isSome_iff_ne_none.1 h.kind])]
  simp only [hc]
  rfl

/-- A view is created exactly when the request names what it must. -/
theorem createView_cases (w : Workspace) (request : NewView) :
    (∃ error, w.createView request = (.error error, w)) ∨
      ∃ element, w.GrantsView request element := by
  simp only [createView]
  cases hd : w.diagram? request.diagram with
  | none => exact .inl ⟨_, rfl⟩
  | some diagram =>
      cases hm : w.element? request.model with
      | none => exact .inl ⟨_, rfl⟩
      | some element =>
          by_cases hk : element.kind?.isNone
          · exact .inl ⟨_, by simp only [if_pos hk]; rfl⟩
          · cases hc : request.container.filter fun c =>
                !w.acceptsContainer request.diagram c with
            | some c => exact .inl ⟨_, by simp only [if_neg hk]; rfl⟩
            | none =>
                refine .inr ⟨element, by simp [hd], hm,
                  Option.isSome_iff_ne_none.2 (by simpa using hk), ?_⟩
                intro c hcc
                rw [Option.mem_def] at hcc
                simpa [hcc, Option.filter] using hc

/-- The view that a granted request for a relationship creates, under the number of the counter. -/
def newRelationshipView (w : Workspace) (request : NewRelationship) : RelationshipView :=
  { id := ⟨w.nextView⟩
    diagram := request.diagram
    model := ⟨w.elements.length⟩
    tail := request.sourceView
    head := request.targetView }

/-- The workspace with one more relationship element, owned by its source, and its view. -/
def withRelationship (w : Workspace) (request : NewRelationship) : Workspace :=
  { (w.pushElement request.source ""
      (.relationship
        { kind := request.kind
          end1 := ⟨request.source, {}⟩
          end2 := ⟨request.target, {}⟩ })).2 with
    relationshipViews := w.relationshipViews ++ [w.newRelationshipView request]
    nextView := w.nextView + 1 }

theorem createRelationshipView_cases (w : Workspace) (request : NewRelationship) :
    (∃ error, w.createRelationshipView request = (.error error, w)) ∨
      (w.relationshipFault? request = none ∧
        w.createRelationshipView request
          = (.ok (w.newRelationshipView request), w.withRelationship request)) := by
  simp only [createRelationshipView]
  cases h : w.relationshipFault? request with
  | some fault => exact .inl ⟨fault, rfl⟩
  | none => exact .inr ⟨rfl, rfl⟩

/-- A relationship view is created between views of two elements that have a kind. -/
theorem relationshipFault?_eq_none {w : Workspace} {request : NewRelationship} :
    w.relationshipFault? request = none ↔
      (w.diagram? request.diagram).isSome ∧ (w.kind? request.source).isSome ∧
        (w.kind? request.target).isSome ∧ w.shows request.sourceView request.source ∧
          w.shows request.targetView request.target := by
  have hcheck : ∀ (refused : Bool) (error : StoreError) (rest : Option StoreError),
      (if refused then some error else rest) = none ↔ (!refused) = true ∧ rest = none := by
    intro refused error rest
    cases refused <;> simp
  simp only [relationshipFault?, hcheck, Option.not_isNone, Bool.not_not, and_true]

end Workspace

end UmlText
