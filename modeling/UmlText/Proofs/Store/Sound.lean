import UmlText.Proofs.Store.Drawing

/-!
# UmlText.Proofs.Store.Sound

**The invariant of a workspace.** Whatever is asked of a workspace, its elements stay a tree, its
relationships hang below their sources, and its views stand where they may (`Sound.after`, lifted to
every reachable workspace in `Reachable.sound`). A request that is answered with an error leaves
the workspace as it was (`after_of_refusal?`).
-/

namespace UmlText

/-! ### The edits that a host offers -/

namespace ElementEdit

/-- Another name. -/
def rename (name : String) : ElementEdit where
  apply e := e.rename name
  id_apply _ := rfl
  parent_apply _ := rfl
  owned_apply _ := rfl
  kind?_apply _ := rfl
  ends_apply _ := rfl

/-- Another documentation, or none. -/
def document (documentation : Option String) : ElementEdit where
  apply e := e.document documentation
  id_apply _ := rfl
  parent_apply _ := rfl
  owned_apply _ := rfl
  kind?_apply _ := rfl
  ends_apply _ := rfl

/-- One more tag. -/
def addTag (tag : Tag) : ElementEdit where
  apply e := e.addTag tag
  id_apply _ := rfl
  parent_apply _ := rfl
  owned_apply _ := rfl
  kind?_apply _ := rfl
  ends_apply _ := rfl

/-- What is written at the ends of a relationship. Other elements are left alone. -/
def setEnds (end1 end2 : EndSpec) : ElementEdit where
  apply e := e.setEnds end1 end2
  id_apply _ := rfl
  parent_apply _ := rfl
  owned_apply _ := rfl
  kind?_apply e := by
    simp only [Element.kind?, Element.setEnds]
    cases e.body <;> rfl
  ends_apply e := by
    simp only [Element.setEnds]
    cases e.body <;> rfl

end ElementEdit

/-- Another place and size for a view. -/
def ViewEdit.setBounds (b : Bounds) : ViewEdit where
  apply v := v.setBounds b
  id_apply _ := rfl
  diagram_apply _ := rfl
  model_apply _ := rfl
  container_apply _ := rfl

namespace Workspace

/-! ### Requests that are refused -/

/-- The error of an answer, if it is one. -/
def errorOf {α : Type} : Except StoreError α → Option StoreError
  | .ok _ => none
  | .error error => some error

/-- The error that a workspace answers a request with. -/
def refusal? (w : Workspace) : Request → Option StoreError
  | .createElement request => errorOf (w.createElement request).1
  | .addMember owner member => errorOf (w.addMember owner member).1
  | .editElement id _ => if (w.element? id).isSome then none else some (.unknownElement id)
  | .createDiagram kind owner => errorOf (w.createDiagram kind owner).1
  | .openDiagram id => errorOf (w.setCurrentDiagram id).1
  | .createView request => errorOf (w.createView request).1
  | .editView id _ => if (w.view? id).isSome then none else some (.unknownView id)
  | .createRelationshipView request => errorOf (w.createRelationshipView request).1
  | .select _ | .repaint => none

/-- An edit of an element that is not there changes nothing. -/
theorem updateElement_unknown {w : Workspace} {id : ElementId} (h : w.element? id = none)
    (f : Element → Element) : w.updateElement id f = w := by
  have hle : w.elements.length ≤ id.index := List.getElem?_eq_none_iff.1 h
  rw [updateElement, List.modify_eq_self hle]

/-- Nor does an edit of a view that is not there. -/
theorem updateView_unknown {w : Workspace} {id : ViewId} (h : w.view? id = none)
    (f : View → View) : w.updateView id f = w := by
  have hsame : w.views.map (fun v => if v.id = id then f v else v) = w.views := by
    refine (List.map_congr_left fun v hv => if_neg ?_).trans (List.map_id _)
    simpa using List.find?_eq_none.1 h v hv
  rw [updateView, hsame]

/-- **Errors are atomic**: a request that is answered with an error changes nothing. -/
theorem after_of_refusal? {w : Workspace} {request : Request} {error : StoreError}
    (h : w.refusal? request = some error) : w.after request = w := by
  cases request with
  | createElement request =>
      rcases w.createElement_cases request with ⟨_, he⟩ | ⟨owner, howner, hbody⟩
      · rw [after, he]
      · rw [refusal?, createElement_granted howner hbody] at h
        cases h
  | addMember owner member =>
      rcases w.addMember_cases owner member with ⟨_, he⟩ | ⟨element, body, howner, hbody⟩
      · rw [after, he]
      · rw [refusal?, addMember_granted howner hbody] at h
        cases h
  | editElement id edit =>
      rw [refusal?] at h
      split at h
      · cases h
      · next hunknown =>
          exact updateElement_unknown (Option.not_isSome_iff_eq_none.1 hunknown) edit.apply
  | createDiagram kind owner =>
      rcases w.createDiagram_cases kind owner with ⟨_, he⟩ | ⟨element, -, he⟩
      · rw [after, he]
      · rw [refusal?, he] at h
        cases h
  | openDiagram id =>
      rcases w.setCurrentDiagram_cases id with ⟨_, he⟩ | ⟨diagram, -, he⟩
      · rw [after, he]
      · rw [refusal?, he] at h
        cases h
  | createView request =>
      rcases w.createView_cases request with ⟨_, he⟩ | ⟨element, hgrants⟩
      · rw [after, he]
      · rw [refusal?, hgrants.createView] at h
        cases h
  | editView id edit =>
      rw [refusal?] at h
      split at h
      · cases h
      · next hunknown =>
          exact updateView_unknown (Option.not_isSome_iff_eq_none.1 hunknown) edit.apply
  | createRelationshipView request =>
      rcases w.createRelationshipView_cases request with ⟨_, he⟩ | ⟨-, he⟩
      · rw [after, he]
      · rw [refusal?, he] at h
        cases h
  | select elements => cases h
  | repaint => cases h

/-! ### The invariant -/

/-- What the elements, the relationships and the views of a workspace rely on. -/
structure Sound (w : Workspace) : Prop where
  tree : w.Tree
  linked : w.Linked
  drawn : w.Drawn

namespace Sound

variable {w : Workspace}

theorem new (projectName : String) : (Workspace.new projectName).Sound :=
  ⟨.new projectName, .new projectName, .new projectName⟩

theorem createElement (h : w.Sound) (request : NewElement) :
    (w.createElement request).2.Sound := by
  rcases w.createElement_cases request with ⟨error, he⟩ | ⟨owner, howner, hbody⟩
  · rw [he]; exact h
  · rw [createElement_granted howner hbody]
    -- The body of a declared element has a kind, so it is no relationship.
    have hnode : (Body.empty request.kind request.isAbstract).relationship? = none :=
      Body.relationship?_of_kind? (by rw [Body.kind?_empty]; rfl)
    exact ⟨h.tree.pushElement howner _ _,
      h.linked.pushElement howner hbody _ fun r hr => by simp [hnode] at hr,
      h.drawn.pushElement _ _ _⟩

theorem updateElement (h : w.Sound) {id : ElementId} {f : Element → Element}
    (hf : ∀ e, w.element? id = some e → e.Keeps (f e)) : (w.updateElement id f).Sound :=
  ⟨h.tree.updateElement hf, h.linked.updateElement hf, h.drawn.updateElement hf⟩

theorem addMember (h : w.Sound) (owner : ElementId) (member : Member) :
    (w.addMember owner member).2.Sound := by
  rcases w.addMember_cases owner member with ⟨error, he⟩ | ⟨element, body, howner, hbody⟩
  · rw [he]; exact h
  · rw [addMember_granted howner hbody]
    refine h.updateElement fun e he => ?_
    obtain rfl := Option.some.inj (howner.symm.trans he)
    exact Element.keeps_withMember hbody

theorem createDiagram (h : w.Sound) (kind : DiagramKind) (owner : ElementId) :
    (w.createDiagram kind owner).2.Sound := by
  rcases w.createDiagram_cases kind owner with ⟨error, he⟩ | ⟨element, -, he⟩
  · rw [he]; exact h
  · rw [he]
    exact ⟨h.tree.congr rfl, h.linked.congr rfl, h.drawn.withDiagram kind owner⟩

theorem setCurrentDiagram (h : w.Sound) (id : DiagramId) :
    (w.setCurrentDiagram id).2.Sound := by
  rcases w.setCurrentDiagram_cases id with ⟨error, he⟩ | ⟨diagram, hd, he⟩
  · rw [he]; exact h
  · rw [he]
    exact ⟨h.tree.congr rfl, h.linked.congr rfl, h.drawn.withCurrent (by simp [hd])⟩

theorem createView (h : w.Sound) (request : NewView) : (w.createView request).2.Sound := by
  rcases w.createView_cases request with ⟨error, he⟩ | ⟨element, hgrants⟩
  · rw [he]; exact h
  · rw [hgrants.createView]
    exact ⟨h.tree.congr rfl, h.linked.congr rfl, h.drawn.withView hgrants⟩

theorem createRelationshipView (h : w.Sound) (request : NewRelationship) :
    (w.createRelationshipView request).2.Sound := by
  rcases w.createRelationshipView_cases request with ⟨error, he⟩ | ⟨hfault, he⟩
  · rw [he]; exact h
  · rw [he]
    obtain ⟨-, hsource, htarget, -, -⟩ := relationshipFault?_eq_none.1 hfault
    obtain ⟨kind, hkind⟩ := Option.isSome_iff_exists.1 hsource
    obtain ⟨owner, howner, hkind⟩ := Option.bind_eq_some_iff.1 hkind
    have hnode : owner.body.relationship? = none :=
      Body.relationship?_of_kind? (Option.isSome_iff_exists.2 ⟨kind, hkind⟩)
    let r : Relationship :=
      { kind := request.kind, end1 := ⟨request.source, {}⟩, end2 := ⟨request.target, {}⟩ }
    have htree := h.tree.pushElement howner "" (.relationship r)
    have hlinked : (w.pushElement request.source "" (.relationship r)).2.Linked :=
      h.linked.pushElement howner hnode "" (by
        intro r' hr'
        obtain rfl := Option.some.inj hr'
        exact ⟨rfl, hsource, htarget⟩)
    exact ⟨htree.congr rfl, hlinked.congr rfl, h.drawn.withRelationship hfault⟩

/-- **One request**, whether it is granted or not, keeps a workspace sound. -/
theorem after (h : w.Sound) (request : Request) : (w.after request).Sound := by
  cases request with
  | createElement request => exact h.createElement request
  | addMember owner member => exact h.addMember owner member
  | editElement id edit => exact h.updateElement fun e _ => edit.keeps e
  | createDiagram kind owner => exact h.createDiagram kind owner
  | openDiagram id => exact h.setCurrentDiagram id
  | createView request => exact h.createView request
  | editView id edit => exact ⟨h.tree.congr rfl, h.linked.congr rfl, h.drawn.updateView id edit⟩
  | createRelationshipView request => exact h.createRelationshipView request
  | select elements =>
      exact ⟨h.tree.congr rfl, h.linked.congr rfl, h.drawn.withSession elements w.repaints⟩
  | repaint =>
      exact ⟨h.tree.congr rfl, h.linked.congr rfl, h.drawn.withSession w.selection (w.repaints + 1)⟩

end Sound

theorem Reachable.sound {w : Workspace} (h : w.Reachable) : w.Sound := by
  induction h with
  | new projectName => exact .new projectName
  | step _ request ih => exact ih.after request

/-- **Workspace invariant and atomic errors.** After any sequence of requests the elements are a
tree below the project, numbered in the order they were made; relationships are leaves below their
sources; views have distinct numbers below the counter and stand, show and join what they may; and
the current diagram exists. Whatever is asked next, an error leaves all of that untouched. -/
theorem reachable_sound_and_atomic {w : Workspace} (h : w.Reachable) :
    w.Sound ∧ ∀ request error, w.refusal? request = some error → w.after request = w :=
  ⟨h.sound, fun _ _ => after_of_refusal?⟩

/-- A shop that was built, drawn and edited, and a request below its relationship. -/
theorem reachable_sound_and_atomic_shop :
    let history : List Request :=
      [.createElement { kind := .package, parent := root, name := "shop" },
        .createElement { kind := .umlClass, parent := ⟨1⟩, name := "Order" },
        .addMember ⟨2⟩ (.ofAttribute { name := "total" }),
        .createDiagram .classDiagram root,
        .createView { model := ⟨1⟩, diagram := ⟨0⟩, position := ⟨0, 0⟩ },
        .createView { model := ⟨2⟩, diagram := ⟨0⟩, position := ⟨30, 60⟩, container := some ⟨0⟩ },
        .editView ⟨0⟩ (.setBounds ⟨0, 0, 160, 150⟩),
        .createRelationshipView
          { kind := .association, diagram := ⟨0⟩, source := ⟨2⟩, target := ⟨1⟩,
            sourceView := ⟨1⟩, targetView := ⟨0⟩ },
        .editElement ⟨3⟩ (.rename "in"),
        .editElement ⟨3⟩ (.setEnds { multiplicity := some "1" } {}),
        .editElement ⟨1⟩ (.document (some "what is sold")),
        .editElement ⟨2⟩ (.addTag ⟨"AI", "keep"⟩),
        .select [⟨1⟩],
        .repaint]
    let w := history.foldl after (.new "Shop")
    let request : Request := .createElement { kind := .actor, parent := ⟨3⟩, name := "Clerk" }
    w.relationshipViews = [{ id := ⟨2⟩, diagram := ⟨0⟩, model := ⟨3⟩, tail := ⟨1⟩, head := ⟨0⟩ }] ∧
      w.refusal? request = some (.invalidOwner ⟨3⟩ .elements) ∧ w.Reachable ∧ w.Sound ∧
      w.after request = w := by
  intro history w request
  have hrefused : w.refusal? request = some (.invalidOwner ⟨3⟩ .elements) := rfl
  have hreachable : ∀ (requests : List Request) (v : Workspace), v.Reachable →
      (requests.foldl after v).Reachable := by
    intro requests
    induction requests with
    | nil => exact fun v hv => hv
    | cons request rest ih => exact fun v hv => ih _ (hv.step request)
  have hw : w.Reachable := hreachable history _ (.new "Shop")
  obtain ⟨hsound, hatomic⟩ := reachable_sound_and_atomic hw
  exact ⟨rfl, hrefused, hw, hsound, hatomic request _ hrefused⟩

end Workspace

end UmlText
