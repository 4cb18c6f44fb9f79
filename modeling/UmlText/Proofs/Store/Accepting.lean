import UmlText.Proofs.Store.Backed

/-!
# UmlText.Proofs.Store.Accepting

**Stores that refuse nothing.** A backed store refuses nothing if it carries out every request for
an element or a member that its workspace can carry out, now and after any further such requests.
A workspace does, and so does a workspace behind a policy without reasons to refuse.
-/

namespace UmlText

universe u

open BackedStore (workspace)

/-- What can own elements: any known element but a relationship. -/
def Workspace.CanOwn (w : Workspace) (id : ElementId) : Prop :=
  ∃ owner, w.element? id = some owner ∧ owner.body.relationship? = none

theorem Workspace.CanOwn.index_lt {w : Workspace} {id : ElementId} (h : w.CanOwn id) :
    id.index < w.elements.length := by
  obtain ⟨owner, howner, -⟩ := h
  exact (List.getElem?_eq_some_iff.1 howner).1

section

variable {σ : Type u} [ModelStore σ]

/-- The stores that requests for elements and members lead to. -/
inductive Requested (s : σ) : σ → Prop
  | start : Requested s s
  | createElement {t : σ} (h : Requested s t) (request : NewElement) :
      Requested s (ModelStore.createElement t request).2
  | addMember {t : σ} (h : Requested s t) (owner : ElementId) (member : Member) :
      Requested s (ModelStore.addMember t owner member).2

theorem Requested.trans {s t u : σ} (hst : Requested s t) (htu : Requested t u) :
    Requested s u := by
  induction htu with
  | start => exact hst
  | createElement _ request ih => exact ih.createElement request
  | addMember _ owner member ih => exact ih.addMember owner member

end

variable {σ : Type u} [ModelStore σ] [ViewStore σ] [BackedStore σ]

/-- A store that answers every request for an element or a member as its workspace does. -/
structure RefusesNothing (s : σ) : Prop where
  createElement : ∀ t, Requested s t → ∀ request,
    ((ModelStore.createElement t request).1, workspace (ModelStore.createElement t request).2)
      = (workspace t).createElement request
  addMember : ∀ t, Requested s t → ∀ owner member,
    ((ModelStore.addMember t owner member).1, workspace (ModelStore.addMember t owner member).2)
      = (workspace t).addMember owner member

namespace RefusesNothing

variable {s : σ}

theorem of_requested (h : RefusesNothing s) {t : σ} (ht : Requested s t) : RefusesNothing t where
  createElement u hu := h.createElement u (ht.trans hu)
  addMember u hu := h.addMember u (ht.trans hu)

/-- An element is created under whatever can own it. -/
theorem createElement_eq (h : RefusesNothing s) {request : NewElement}
    (hparent : (workspace s).CanOwn request.parent) :
    ∃ store, ModelStore.createElement s request = (.ok ⟨(workspace s).elements.length⟩, store) ∧
      RefusesNothing store ∧
      workspace store = ((workspace s).pushElement request.parent request.name
        (.empty request.kind request.isAbstract)).2 := by
  obtain ⟨owner, howner, hbody⟩ := hparent
  have hanswer := (h.createElement s .start request).trans
    (Workspace.createElement_granted howner hbody)
  obtain ⟨hresult, hworkspace⟩ := Prod.mk.inj hanswer
  exact ⟨_, Prod.ext hresult rfl, h.of_requested (.createElement .start request), hworkspace⟩

/-- A member is given to a known element that can have it. -/
theorem addMember_eq (h : RefusesNothing s) {owner : ElementId} {member : Member}
    {element : Element} {body : Body} (howner : (workspace s).element? owner = some element)
    (hbody : element.body.withMember? member = some body) :
    ∃ store, ModelStore.addMember s owner member = (.ok (), store) ∧ RefusesNothing store ∧
      workspace store = (workspace s).updateElement owner fun e => { e with body } := by
  have hanswer := (h.addMember s .start owner member).trans
    (Workspace.addMember_granted howner hbody)
  obtain ⟨hresult, hworkspace⟩ := Prod.mk.inj hanswer
  exact ⟨_, Prod.ext hresult rfl, h.of_requested (.addMember .start owner member), hworkspace⟩

end RefusesNothing

theorem refusesNothing_workspace (w : Workspace) : RefusesNothing w :=
  ⟨fun _ _ _ => rfl, fun _ _ _ _ => rfl⟩

theorem Host.policy_guarded {α : Type} (h : Host) (reason : Option String)
    (request : Workspace → Except StoreError α × Workspace) :
    (h.guarded reason request).2.policy = h.policy := by
  cases reason <;> rfl

/-- A host refuses nothing if its policy has no reason to. -/
theorem refusesNothing_host {h : Host} (helement : ∀ w request, h.policy.element w request = none)
    (hmember : ∀ w owner member, h.policy.member w owner member = none) : RefusesNothing h := by
  have hpolicy : ∀ t, Requested h t → t.policy = h.policy := by
    intro t ht
    induction ht with
    | start => rfl
    | createElement _ request ih => exact (Host.policy_guarded _ _ _).trans ih
    | addMember _ owner member ih => exact (Host.policy_guarded _ _ _).trans ih
  refine ⟨fun t ht request => ?_, fun t ht owner member => ?_⟩
  · simp [ModelStore.createElement, Host.guarded, hpolicy t ht, helement]
  · simp [ModelStore.addMember, Host.guarded, hpolicy t ht, hmember]

end UmlText
