import UmlText.Proofs.Layout.Containment
import UmlText.Proofs.Layout.Steps

/-!
# UmlText.Proofs.Layout.Relating

**Realizing relationships is one to one.** When it is the turn of a blueprint the host is asked for
its relationship if both elements have an entry, and what the host answers with is in the report, in
the order of the blueprints; all others are counted as skipped (`Realizes`). A relationship element
is not touched again once it is made, because later relationships are put below elements that have
a kind (`Made.relate`). So at the end it is still what its blueprint says.
-/

namespace UmlText

universe u

open BackedStore (workspace)
open Placement (Running)

variable {σ : Type u} [ModelStore σ] [ViewStore σ]

/-! ### What a blueprint becomes -/

namespace Relationships

/-- The element that a blueprint becomes. -/
def elementOf (b : Blueprint) (id : ElementId) : Element :=
  let ends : EndSpec × EndSpec := if b.kind = .association then (b.end1, b.end2) else ({}, {})
  { id
    name := b.label.elim "" fun label => String.ofList (Text.trim label.toList)
    parent := some b.source
    body := .relationship
      { kind := b.kind, end1 := ⟨b.source, ends.1⟩, end2 := ⟨b.target, ends.2⟩ } }

/-- A new relationship element is decorated as its blueprint says. -/
theorem decorate_new (b : Blueprint) (id : ElementId) :
    decorate b
      { id, name := "", parent := some b.source,
        body := .relationship
          { kind := b.kind, end1 := ⟨b.source, {}⟩, end2 := ⟨b.target, {}⟩ } }
      = elementOf b id := by
  simp only [decorate, nameBy, elementOf]
  cases b.label <;> split <;> rfl

section Relate

variable {w : Workspace} {b : Blueprint} {request : NewRelationship}

/-- The element of the relationship just created. -/
theorem element?_relate_self (hkind : request.kind = b.kind) (hsource : request.source = b.source)
    (htarget : request.target = b.target) (hlt : b.source.index < w.elements.length) :
    ((w.withRelationship request).updateElement ⟨w.elements.length⟩ (decorate b)).element?
      ⟨w.elements.length⟩ = some (elementOf b ⟨w.elements.length⟩) := by
  have hne : b.source ≠ ⟨w.elements.length⟩ := fun heq => by
    rw [heq] at hlt
    exact Nat.lt_irrefl _ hlt
  obtain ⟨r, hr⟩ : ∃ r : Relationship,
    r = { kind := b.kind, end1 := ⟨b.source, {}⟩, end2 := ⟨b.target, {}⟩ } := ⟨_, rfl⟩
  have hpushed : (w.withRelationship request).element? ⟨w.elements.length⟩
      = some { id := ⟨w.elements.length⟩, name := "", parent := some b.source,
               body := .relationship r } := by
    refine (Workspace.element?_pushElement w _ _ _ _).trans ?_
    rw [if_pos rfl, Option.map_some, hkind, hsource, htarget, if_neg hne, hr]
  rw [Workspace.element?_updateElement, hpushed, Option.map_some, if_pos rfl, hr, decorate_new]

/-- All others but the source stay as they are. -/
theorem element?_relate_of_ne {id : ElementId} (hnew : id ≠ ⟨w.elements.length⟩)
    (hsource : id ≠ request.source) :
    ((w.withRelationship request).updateElement ⟨w.elements.length⟩ (decorate b)).element? id
      = w.element? id := by
  have hindex : id.index ≠ w.elements.length := fun heq => hnew (by rw [← heq])
  have hpushed : (w.withRelationship request).element? id = w.element? id := by
    refine (Workspace.element?_pushElement w _ _ _ _).trans ?_
    rw [if_neg hindex]
    simp [Ne.symm hsource]
  rw [Workspace.element?_updateElement, hpushed]
  simp [Ne.symm hnew]

/-- What was there before stays as it is, but for what it owns. -/
theorem element?_relate {id : ElementId} {e : Element}
    (h : ∃ owned, w.element? id = some { e with owned }) :
    ∃ owned, ((w.withRelationship request).updateElement ⟨w.elements.length⟩
      (decorate b)).element? id = some { e with owned } := by
  obtain ⟨before, he⟩ := h
  have hlt := Workspace.lt_of_element? he
  have hnew : (⟨w.elements.length⟩ : ElementId) ≠ id := fun heq => by
    rw [← heq] at hlt
    exact Nat.lt_irrefl _ hlt
  obtain ⟨owned, howned⟩ :
      ∃ owned, (w.withRelationship request).element? id = some { e with owned } := by
    refine (Workspace.element?_pushElement w _ _ _ _).symm ▸ ?_
    rw [if_neg (Nat.ne_of_lt hlt), he, Option.map_some]
    split
    · exact ⟨_, rfl⟩
    · exact ⟨before, rfl⟩
  exact ⟨owned, by rw [Workspace.element?_updateElement, howned, Option.map_some, if_neg hnew]⟩

/-- The new element is listed by its source. -/
theorem owned_relate (hlt : request.source.index < w.elements.length) (owner : ElementId) :
    ((w.withRelationship request).updateElement ⟨w.elements.length⟩ (decorate b)).owned owner
      = if request.source = owner then w.owned owner ++ [⟨w.elements.length⟩]
        else w.owned owner := by
  rw [Workspace.owned_updateElement (f := decorate b) fun e _ => (decoration b).keeps e]
  exact Workspace.owned_pushElement hlt owner

theorem length_relate :
    ((w.withRelationship request).updateElement ⟨w.elements.length⟩ (decorate b)).elements.length
      = w.elements.length + 1 := by
  simp [Workspace.updateElement, Workspace.withRelationship, Workspace.pushElement]

end Relate

/-! ### Once made, it stays -/

/-- The relationship of a blueprint in a workspace: what `view` shows was made of `b`. -/
structure Made (b : Blueprint) (view : RelationshipView) (w : Workspace) : Prop where
  element_eq : w.element? view.model = some (elementOf b view.model)
  listed : view.model ∈ w.owned b.source
  drawn : view ∈ w.relationshipViews

/-- A relationship that was granted is made of its blueprint. -/
theorem made_relate {b : Blueprint} {w : Workspace} {request : NewRelationship}
    (hfault : w.relationshipFault? request = none) (hkind : request.kind = b.kind)
    (hsource : request.source = b.source) (htarget : request.target = b.target) :
    Made b (w.newRelationshipView request)
      ((w.withRelationship request).updateElement ⟨w.elements.length⟩ (decorate b)) := by
  have hlt := Workspace.lt_of_kind? (Workspace.relationshipFault?_eq_none.1 hfault).2.1
  refine ⟨element?_relate_self hkind hsource htarget (hsource ▸ hlt), ?_, ?_⟩
  · rw [owned_relate hlt, if_pos hsource]
    exact List.mem_append_right _ (List.mem_singleton_self _)
  · exact List.mem_append_right _ (List.mem_singleton_self _)

/-- A relationship that is realized later goes below an element that has a kind, which no
relationship has. -/
theorem Made.relate {b b' : Blueprint} {view : RelationshipView} {w : Workspace}
    (h : Made b view w) {request : NewRelationship} (hfault : w.relationshipFault? request = none) :
    Made b view
      ((w.withRelationship request).updateElement ⟨w.elements.length⟩ (decorate b')) := by
  have hsource := (Workspace.relationshipFault?_eq_none.1 hfault).2.1
  have hlt := Workspace.lt_of_element? h.element_eq
  have hne : view.model ≠ request.source := by
    intro heq
    rw [← heq, Workspace.kind?, h.element_eq] at hsource
    cases hsource
  refine ⟨?_, ?_, List.mem_append_left _ h.drawn⟩
  · rw [element?_relate_of_ne (fun heq => Nat.ne_of_lt hlt (congrArg ElementId.index heq)) hne]
    exact h.element_eq
  · rw [owned_relate (Workspace.lt_of_kind? hsource)]
    split
    · exact List.mem_append_left _ h.listed
    · exact h.listed

/-! ### One blueprint after the other -/

/-- What the host answers to the requests for some blueprints, each at its turn. -/
def answers (p : Placement σ) (blueprints : List Blueprint) : List (Option RelationshipView) :=
  blueprints.zipIdx.map fun x => answer? (realize p (blueprints.take x.2)).placement x.1

theorem answers_concat (p : Placement σ) (blueprints : List Blueprint) (b : Blueprint) :
    answers p (blueprints ++ [b])
      = answers p blueprints ++ [answer? (realize p blueprints).placement b] := by
  have hlt : ∀ x ∈ blueprints.zipIdx, x.2 < blueprints.length := fun x hx => by
    obtain ⟨-, hlt, -⟩ := List.mem_zipIdx hx
    simpa using hlt
  simp only [answers, List.zipIdx_append, List.map_append, Nat.zero_add, List.zipIdx_cons,
    List.zipIdx_nil, List.map_cons, List.map_nil, List.take_left]
  congr 1
  apply List.map_congr_left
  intro x hx
  rw [List.take_append_of_le_length (Nat.le_of_lt (hlt x hx))]

theorem realize_concat (p : Placement σ) (blueprints : List Blueprint) (b : Blueprint) :
    realize p (blueprints ++ [b]) = realizeNext (realize p blueprints) b := by
  rw [realize, List.foldl_append, ← realize, List.foldl_cons, List.foldl_nil]

variable [BackedStore σ]

/-- What was there before any relationship stays as it is, but for what it owns. -/
theorem element?_realize (p : Placement σ) (blueprints : List Blueprint) {id : ElementId}
    {e : Element} (he : (workspace p.store).element? id = some e) :
    ∃ owned, (workspace (realize p blueprints).placement.store).element? id
      = some { e with owned } := by
  refine realize_induct p blueprints
    (motive := fun w => ∃ owned, w.element? id = some { e with owned }) ⟨e.owned, he⟩ ?_
  exact fun w request b _ hw _ _ _ _ => element?_relate hw

/-- The blueprints `done` have had their turn in `r`. -/
structure Realizes (p : Placement σ) (done : List Blueprint) (r : Realizing σ) : Prop where
  views_eq : r.placement.views = p.views
  diagram_eq : r.placement.diagram = p.diagram
  created_eq : r.created = (answers p done).filterMap id
  skipped_eq : r.skipped = (answers p done).count none
  length_le : (workspace p.store).elements.length ≤ (workspace r.placement.store).elements.length
  /-- The elements are new, and numbered in the order of the blueprints. -/
  models_lt : ∀ view ∈ r.created, (workspace p.store).elements.length ≤ view.model.index ∧
    view.model.index < (workspace r.placement.store).elements.length
  increasing : r.created.Pairwise fun v v' => v.model.index < v'.model.index
  made : ∀ x ∈ done.zip (answers p done), ∀ view, x.2 = some view →
    Made x.1 view (workspace r.placement.store) ∧ view.diagram = p.diagram ∧
      p.viewOf? x.1.source = some view.tail ∧ p.viewOf? x.1.target = some view.head

omit [BackedStore σ] in
theorem length_answers (p : Placement σ) (blueprints : List Blueprint) :
    (answers p blueprints).length = blueprints.length := by
  simp [answers]

omit [BackedStore σ] in
theorem zip_answers_concat (p : Placement σ) (done : List Blueprint) (b : Blueprint) :
    (done ++ [b]).zip (answers p (done ++ [b]))
      = done.zip (answers p done) ++ [(b, answer? (realize p done).placement b)] := by
  rw [answers_concat, List.zip_append (length_answers p done).symm]
  rfl

section Next

variable {p : Placement σ} {done : List Blueprint} {b : Blueprint} {store : σ}

/-- A blueprint that is left out is counted, and nothing else happens. -/
theorem Realizes.skip (h : Realizes p done (realize p done))
    (hanswer : answer? (realize p done).placement b = none)
    (hw : workspace store = workspace (realize p done).placement.store) :
    Realizes p (done ++ [b]) { realize p done with
      placement := { (realize p done).placement with store }
      skipped := (realize p done).skipped + 1 } := by
  refine ⟨h.views_eq, h.diagram_eq, ?_, ?_, ?_, ?_, h.increasing, ?_⟩
  · rw [answers_concat, hanswer, h.created_eq, List.filterMap_append]
    simp
  · rw [answers_concat, hanswer, h.skipped_eq, List.count_append]
    rfl
  · simp only [hw]; exact h.length_le
  · simp only [hw]; exact h.models_lt
  · rw [zip_answers_concat, hanswer]
    intro x hx v hv
    simp only [hw]
    rcases List.mem_append.1 hx with hx | hx
    · exact h.made x hx v hv
    · obtain rfl := List.mem_singleton.1 hx
      cases hv

/-- A relationship that is made goes to the end, under the next number. -/
theorem Realizes.make (h : Realizes p done (realize p done)) {sourceView targetView : ViewId}
    {view : RelationshipView}
    (hsource : (realize p done).placement.viewOf? b.source = some sourceView)
    (htarget : (realize p done).placement.viewOf? b.target = some targetView)
    (hfault : (workspace (realize p done).placement.store).relationshipFault?
      (request (realize p done).placement b sourceView targetView) = none)
    (hview : view = (workspace (realize p done).placement.store).newRelationshipView
      (request (realize p done).placement b sourceView targetView))
    (hanswer : answer? (realize p done).placement b = some view)
    (hw : workspace store = ((workspace (realize p done).placement.store).withRelationship
      (request (realize p done).placement b sourceView targetView)).updateElement
        ⟨(workspace (realize p done).placement.store).elements.length⟩ (decorate b)) :
    Realizes p (done ++ [b]) { realize p done with
      placement := { (realize p done).placement with store }
      created := (realize p done).created ++ [view] } := by
  have hmade := made_relate (b := b) hfault rfl rfl rfl
  have hmodel : view.model = ⟨(workspace (realize p done).placement.store).elements.length⟩ := by
    rw [hview]; rfl
  rw [← hview] at hmade
  refine ⟨h.views_eq, h.diagram_eq, ?_, ?_, ?_, ?_, ?_, ?_⟩
  · rw [answers_concat, hanswer, h.created_eq, List.filterMap_append]
    rfl
  · rw [answers_concat, hanswer, h.skipped_eq, List.count_append]
    simp
  · simp only [hw, length_relate]
    exact Nat.le_succ_of_le h.length_le
  · simp only [hw, length_relate]
    intro v hv
    rcases List.mem_append.1 hv with hv | hv
    · exact ⟨(h.models_lt v hv).1, Nat.lt_succ_of_lt (h.models_lt v hv).2⟩
    · obtain rfl := List.mem_singleton.1 hv
      rw [hmodel]
      exact ⟨h.length_le, Nat.lt_succ_self _⟩
  · refine List.pairwise_append.2 ⟨h.increasing, List.pairwise_singleton _ _, ?_⟩
    intro v hv v' hv'
    obtain rfl := List.mem_singleton.1 hv'
    rw [hmodel]
    exact (h.models_lt v hv).2
  · rw [zip_answers_concat, hanswer]
    intro x hx v hv
    simp only [hw]
    rcases List.mem_append.1 hx with hx | hx
    · obtain ⟨hmade, hrest⟩ := h.made x hx v hv
      exact ⟨hmade.relate hfault, hrest⟩
    · obtain rfl := List.mem_singleton.1 hx
      obtain rfl := Option.some.inj hv
      rw [Placement.viewOf?, h.views_eq] at hsource htarget
      refine ⟨hmade, ?_, ?_, ?_⟩ <;> rw [hview]
      · exact h.diagram_eq
      · exact hsource
      · exact htarget

/-- **One blueprint** has its turn: it is left out, or its relationship is made. -/
theorem Realizes.next (h : Realizes p done (realize p done)) (b : Blueprint) :
    Realizes p (done ++ [b]) (realizeNext (realize p done) b) := by
  rcases realizeNext_cases (realize p done) b with
    ⟨hanswer, store, hw, hr⟩ |
      ⟨sourceView, targetView, view, store, hsource, htarget, hfault, hview, hanswer, hw, hr⟩ <;>
    rw [hr]
  · exact h.skip hanswer hw
  · exact h.make hsource htarget hfault hview hanswer hw

end Next

/-- All blueprints have their turn. -/
theorem realizes (p : Placement σ) (blueprints : List Blueprint) :
    Realizes p blueprints (realize p blueprints) := by
  induction blueprints using List.reverseRecOn with
  | nil =>
      exact ⟨rfl, rfl, rfl, rfl, Nat.le_refl _, by simp [realize], List.Pairwise.nil,
        by simp⟩
  | append_singleton done b ih =>
      rw [realize_concat]
      exact ih.next b

omit [BackedStore σ] in
theorem zip_answers (p : Placement σ) (blueprints : List Blueprint) :
    blueprints.zip (answers p blueprints) = blueprints.zipIdx.map fun x =>
      (x.1, answer? (realize p (blueprints.take x.2)).placement x.1) := by
  have hzip : (blueprints.zipIdx.map Prod.fst).zip (answers p blueprints)
      = blueprints.zipIdx.map fun x =>
          (x.1, answer? (realize p (blueprints.take x.2)).placement x.1) := List.zip_map'
  rwa [List.zipIdx_map_fst] at hzip

end Relationships

/-! ### Reports -/

/-- What a host is asked for to realize a blueprint. Both elements need an entry. -/
def LayoutReport.request? (report : LayoutReport) (diagram : DiagramId) (b : Blueprint) :
    Option NewRelationship := do
  let source ← report.entryOf? b.source
  let target ← report.entryOf? b.target
  return { kind := b.kind, diagram, source := b.source, target := b.target,
           sourceView := source.view, targetView := target.view }

/-- The relationship view with which a host accepts a blueprint. -/
def LayoutReport.accepted? (report : LayoutReport) (host : σ) (diagram : DiagramId)
    (b : Blueprint) : Option RelationshipView := do
  let request ← report.request? diagram b
  (ViewStore.createRelationshipView host request).1.toOption

/-- The host of a layout when it is the turn of the blueprint with this number. -/
def hostAt (store : σ) (diagram : DiagramId) (parsed : Parsed) (s : LayoutSettings) (turn : Nat) :
    σ :=
  (Relationships.realize (placeAll store diagram parsed s)
    (parsed.blueprints.take turn)).placement.store

/-- The relationship that was made of a blueprint, on a workspace that was `start` before. -/
structure Realized (start final : Workspace) (diagram : DiagramId) (report : LayoutReport)
    (b : Blueprint) (view : RelationshipView) : Prop where
  new : start.element? view.model = none
  element_eq : final.element? view.model = some (Relationships.elementOf b view.model)
  listed : view.model ∈ final.owned b.source
  drawn : view ∈ final.relationshipViews
  diagram_eq : view.diagram = diagram
  tail : (report.entryOf? b.source).map LayoutEntry.view = some view.tail
  head : (report.entryOf? b.target).map LayoutEntry.view = some view.head

/-- A report of the relationships that a host accepted, one for each accepted blueprint. -/
structure OneToOne [BackedStore σ] (start final : Workspace) (diagram : DiagramId)
    (blueprints : List Blueprint) (host : Nat → σ) (report : LayoutReport) : Prop where
  relationships_eq : report.relationships =
    blueprints.zipIdx.filterMap fun x => report.accepted? (host x.2) diagram x.1
  skipped_eq : report.skippedRelationships =
    blueprints.zipIdx.countP fun x => (report.accepted? (host x.2) diagram x.1).isNone
  models_nodup : (report.relationships.map RelationshipView.model).Nodup
  realized : ∀ x ∈ blueprints.zipIdx, ∀ view,
    report.accepted? (host x.2) diagram x.1 = some view →
      Realized start final diagram report x.1 view
  /-- What is asked for could be carried out, so only the host has a reason to refuse it. -/
  grantable : ∀ x ∈ blueprints.zipIdx, ∀ request, report.request? diagram x.1 = some request →
    (workspace (host x.2)).relationshipFault? request = none

section OneToOne

variable [BackedStore σ] {store : σ} (diagram : DiagramId) (parsed : Parsed) (s : LayoutSettings)

/-- Entries are views of the run. -/
theorem entryOf?_layout (h : (workspace store).Numbered) (element : ElementId) :
    ((layout store diagram parsed s).1.entryOf? element).map LayoutEntry.view
      = (placeAll store diagram parsed s).viewOf? element :=
  entryOf?_eq (running_placeAll h diagram parsed s).1 (Relationships.entries_realize _ _) element

/-- The host accepts a blueprint of the report as it answers during the run. -/
theorem accepted?_hostAt (h : (workspace store).Numbered) (turn : Nat) (b : Blueprint) :
    (layout store diagram parsed s).1.accepted? (hostAt store diagram parsed s turn) diagram b
      = Relationships.answer? (Relationships.realize (placeAll store diagram parsed s)
          (parsed.blueprints.take turn)).placement b := by
  have hturn := Relationships.realizes (placeAll store diagram parsed s)
    (parsed.blueprints.take turn)
  have hdiagram := hturn.diagram_eq.trans (running_placeAll h diagram parsed s).2
  have hview : ∀ element, (Relationships.realize (placeAll store diagram parsed s)
      (parsed.blueprints.take turn)).placement.viewOf? element
        = ((layout store diagram parsed s).1.entryOf? element).map LayoutEntry.view := by
    intro element
    rw [entryOf?_layout diagram parsed s h, Placement.viewOf?, hturn.views_eq, Placement.viewOf?]
  simp only [LayoutReport.accepted?, LayoutReport.request?, Relationships.answer?,
    Relationships.request, hview, hdiagram]
  cases (layout store diagram parsed s).1.entryOf? b.source with
  | none => rfl
  | some source =>
      cases (layout store diagram parsed s).1.entryOf? b.target with
      | none => rfl
      | some target => rfl

/-- What has an entry has a kind, and the host shows it on the diagram of the report. -/
theorem shows_hostAt (h : (workspace store).Reachable) (turn : Nat) {element : ElementId}
    {entry : LayoutEntry}
    (hentry : (layout store diagram parsed s).1.entryOf? element = some entry) :
    ((workspace (hostAt store diagram parsed s turn)).kind? element).isSome ∧
      ((workspace (hostAt store diagram parsed s turn)).diagram? diagram).isSome ∧
        (workspace (hostAt store diagram parsed s turn)).shows entry.view element := by
  obtain ⟨hrunning, hdiagram⟩ := running_placeAll h.numbered diagram parsed s
  have hdrawn := (Relationships.reachable_realize (reachable_placeAll h diagram parsed s)
    (parsed.blueprints.take turn)).sound.drawn
  have hviews := (Relationships.realize_placement (placeAll store diagram parsed s)
    (parsed.blueprints.take turn)).2.2
  have hview := entryOf?_layout diagram parsed s h.numbered element
  rw [hentry, Option.map_some] at hview
  obtain ⟨v, hv, hmodel, hplace, -⟩ := hrunning.shown _ (hrunning.viewOf?_eq_some.1 hview.symm)
  rw [Workspace.view?, ← hviews] at hv
  have hmem := List.mem_of_find?_eq_some hv
  refine ⟨?_, ?_, ?_⟩
  · have hkind := hdrawn.model_kind v hmem
    rwa [hmodel] at hkind
  · have hknown := hdrawn.diagram_known v hmem
    rwa [hplace, hdiagram] at hknown
  · exact (Option.any_eq_true _ _).2 ⟨v, hv, decide_eq_true hmodel⟩

end OneToOne

/-- **Realizing relationships is one to one.** Whatever was parsed and whatever the host refuses: the
relationships of a report are those of the blueprints whose elements both have an entry and that the
host accepted, in the order of the blueprints, and the others are counted as skipped. Each of them
is a new element of its source that says what the blueprint says, drawn from the view of the source
to the view of the target. -/
theorem layout_realizes_one_to_one [BackedStore σ] (store : σ) (h : (workspace store).Reachable)
    (diagram : DiagramId) (parsed : Parsed) (s : LayoutSettings) :
    OneToOne (workspace store) (workspace (layout store diagram parsed s).2) diagram
      parsed.blueprints (hostAt store diagram parsed s) (layout store diagram parsed s).1 := by
  have hrunning := (running_placeAll h.numbered diagram parsed s).1
  have hall := Relationships.realizes (placeAll store diagram parsed s) parsed.blueprints
  have haccepted := fun x : Blueprint × Nat =>
    accepted?_hostAt diagram parsed s h.numbered x.2 x.1
  refine ⟨?_, ?_, ?_, ?_, ?_⟩
  · refine hall.created_eq.trans ?_
    rw [Relationships.answers, List.filterMap_map]
    exact List.filterMap_congr fun x _ => (haccepted x).symm
  · refine hall.skipped_eq.trans ?_
    rw [Relationships.answers, List.count, List.countP_map]
    refine List.countP_congr fun x _ => ?_
    rw [haccepted x]
    simp
  · refine List.pairwise_map.2 (hall.increasing.imp fun hlt heq => ?_)
    rw [heq] at hlt
    exact Nat.lt_irrefl _ hlt
  · intro x hx view hview
    rw [haccepted x] at hview
    have hmem : (x.1, some view) ∈ parsed.blueprints.zip
        (Relationships.answers (placeAll store diagram parsed s) parsed.blueprints) := by
      rw [Relationships.zip_answers, ← hview]
      exact List.mem_map_of_mem hx
    obtain ⟨hmade, hdiagram, hsource, htarget⟩ := hall.made _ hmem view rfl
    have hcreated : view ∈ (Relationships.realize (placeAll store diagram parsed s)
        parsed.blueprints).created := by
      rw [hall.created_eq, List.mem_filterMap]
      exact ⟨some view, (List.of_mem_zip hmem).2, rfl⟩
    refine ⟨?_, hmade.element_eq, hmade.listed, hmade.drawn,
      hdiagram.trans (running_placeAll h.numbered diagram parsed s).2, ?_, ?_⟩
    · rw [← hrunning.element?_eq]
      exact List.getElem?_eq_none (hall.models_lt view hcreated).1
    · rw [entryOf?_layout diagram parsed s h.numbered]; exact hsource
    · rw [entryOf?_layout diagram parsed s h.numbered]; exact htarget
  · intro x _ request hrequest
    simp only [LayoutReport.request?, Option.bind_eq_bind, Option.bind_eq_some_iff] at hrequest
    obtain ⟨source, hsource, target, htarget, hrequest⟩ := hrequest
    obtain rfl := Option.some.inj hrequest
    obtain ⟨hkind, hknown, hshows⟩ := shows_hostAt diagram parsed s h x.2 hsource
    obtain ⟨hkind', -, hshows'⟩ := shows_hostAt diagram parsed s h x.2 htarget
    exact Workspace.relationshipFault?_eq_none.2 ⟨hknown, hkind, hkind', hshows, hshows'⟩

/-- Of four relationships one ends at a class without an entry and one is refused by the host. -/
theorem realizes_one_to_one_refused :
    let text := "class A\nclass B\nclass C\nA --> C\nA \"1\" o-- \"0..*\" B : parts \nA ..> B\nA --|> B"
    let w := (Workspace.new "Model").after (.createDiagram .classDiagram Workspace.root)
    let refusals : Refusals := { views := ["C"], relationships := ["dependency"] }
    ∃ (parsed : Parsed) (read : Host),
      parse (Host.mk w refusals.policy) Workspace.root text = (parsed, read) ∧
      (layout read ⟨0⟩ parsed {}).1.relationships.map RelationshipView.model = [⟨4⟩, ⟨5⟩] ∧
      (layout read ⟨0⟩ parsed {}).1.skippedRelationships = 2 ∧
      (layout read ⟨0⟩ parsed {}).2.workspace.relationship? ⟨4⟩ = some
        { kind := .association
          end1 := ⟨⟨1⟩, { aggregation := .shared, multiplicity := some "1" }⟩
          end2 := ⟨⟨2⟩, { multiplicity := some "0..*" }⟩ } ∧
      OneToOne read.workspace (layout read ⟨0⟩ parsed {}).2.workspace ⟨0⟩ parsed.blueprints
        (hostAt read ⟨0⟩ parsed {}) (layout read ⟨0⟩ parsed {}).1 := by
  intro text w refusals
  have hreachable : w.Reachable := .step (.new "Model") _
  obtain ⟨parsed, read, hparse⟩ : ∃ parsed read,
    parse (Host.mk w refusals.policy) Workspace.root text = (parsed, read) := ⟨_, _, rfl⟩
  have hread := (declares_parse (show (workspace (Host.mk w refusals.policy)).Reachable
    from hreachable) hparse).1
  refine ⟨parsed, read, hparse, ?_, ?_, ?_, layout_realizes_one_to_one read hread ⟨0⟩ parsed {}⟩
  all_goals
    obtain ⟨rfl, rfl⟩ := Prod.mk.inj hparse
    simp only [layout, placeAll, Packages.openViews_eq_insertionSort, Strategy.arrange,
      Grid.arrange, Grid.groups_eq_insertionSort]
    decide +kernel

end UmlText
