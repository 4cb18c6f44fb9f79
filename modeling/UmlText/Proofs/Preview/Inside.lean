import UmlText.Proofs.Preview.Coordinates
import UmlText.Proofs.Preview.Sizes

/-!
# UmlText.Proofs.Preview.Inside

**A preview draws everything inside its view box.** The view box is around all entries of a report,
with a margin. Every entry of an import is drawn in a box that suits its element, and every
relationship view between two entries, so all of that is inside (`drawsInside_importText`), as long
as no classifier has more members than the grid has lines for. This is said of the document that is
written, and of the coordinates that stand in it.
-/

namespace UmlText

universe u

open BackedStore (workspace)
open Drawing (Suits)

/-! ### Reports that can be drawn -/

/-- The entries at the ends of a relationship view. -/
structure LayoutReport.Ends (report : LayoutReport) (view : RelationshipView)
    (tail head : LayoutEntry) : Prop where
  tail_mem : tail ∈ report.entries
  head_mem : head ∈ report.entries
  tail_eq : tail.view = view.tail
  head_eq : head.view = view.head

/-- A report with a suitable box for each element that it shows, and two such boxes at the ends of
each relationship. -/
structure Drawable {σ : Type u} [ModelStore σ] (store : σ) (report : LayoutReport) : Prop where
  suits : ∀ e ∈ report.entries, ∃ model, ModelStore.element? store e.element = some model ∧
    Suits e.bounds model
  connected : ∀ view ∈ report.relationships, ∃ tail head, report.Ends view tail head ∧
    ∃ model relationship, ModelStore.element? store view.model = some model ∧
      model.body = .relationship relationship

section Imports

variable {σ : Type u} [ModelStore σ] [ViewStore σ] [BackedStore σ]

/-- A relationship view goes from one entry to another, and shows a relationship. -/
theorem connected_layout {store : σ} (h : (workspace store).Numbered) {diagram : DiagramId}
    {parsed : Parsed} {s : LayoutSettings} {view : RelationshipView}
    (hview : view ∈ (layout store diagram parsed s).1.relationships) :
    ∃ tail head, (layout store diagram parsed s).1.Ends view tail head ∧ ∃ b,
      (workspace (layout store diagram parsed s).2).element? view.model
        = some (Relationships.elementOf b view.model) := by
  have hrunning := (running_placeAll h diagram parsed s).1
  have hall := Relationships.realizes (placeAll store diagram parsed s) parsed.blueprints
  have hanswer : some view ∈ Relationships.answers (placeAll store diagram parsed s)
      parsed.blueprints := by
    have hcreated : view ∈ (Relationships.answers (placeAll store diagram parsed s)
        parsed.blueprints).filterMap id := hall.created_eq ▸ hview
    obtain ⟨answer, hanswer, rfl⟩ := List.mem_filterMap.1 hcreated
    exact hanswer
  obtain ⟨b, hzip⟩ : ∃ b, (b, some view) ∈ parsed.blueprints.zip
      (Relationships.answers (placeAll store diagram parsed s) parsed.blueprints) := by
    obtain ⟨x, hx, hxview⟩ := List.mem_map.1 hanswer
    exact ⟨x.1, by rw [Relationships.zip_answers, ← hxview]; exact List.mem_map_of_mem hx⟩
  obtain ⟨hmade, -, hsource, htarget⟩ := hall.made _ hzip view rfl
  have hentry : ∀ {element end'}, (placeAll store diagram parsed s).viewOf? element = some end' →
      ∃ e ∈ (layout store diagram parsed s).1.entries, e.view = end' := by
    intro element end' hend
    obtain ⟨e, he, rfl⟩ := hrunning.viewOf?_isSome.1 (Option.isSome_of_eq_some hend)
    rw [hrunning.viewOf?_element he] at hend
    exact ⟨e, entries_layout store diagram parsed s ▸ he, Option.some.inj hend⟩
  obtain ⟨tail, htail, htailView⟩ := hentry hsource
  obtain ⟨head, hhead, hheadView⟩ := hentry htarget
  exact ⟨tail, head, ⟨htail, hhead, htailView, hheadView⟩, b, hmade.element_eq⟩

/-- **The report of an import can be drawn** if the grid has a line for every member. -/
theorem drawable_importText {store : σ} (h : (workspace store).Reachable) {source : String}
    (hlines : ∀ e ∈ (importText store source {}).1.layout.entries,
      ∀ model ∈ ModelStore.element? (importText store source {}).2 e.element,
        45 + 15 * model.memberCount ≤ Saturating.highest) :
    Drawable (importText store source {}).2 (importText store source {}).1.layout := by
  have hopened := (growing_diagramForImport h (detectDiagramKind source) (rootParent store)
    (rootParent store)).2
  simp only [importText, BackedStore.element?_eq] at hlines ⊢
  rcases hdiagram : diagramForImport store (detectDiagramKind source) (rootParent store)
    with ⟨diagram, opened⟩
  rw [hdiagram] at hopened hlines
  cases diagram with
  | none => exact ⟨by simp [LayoutReport.unplaced], by simp [LayoutReport.unplaced]⟩
  | some diagram =>
      have hread := (declares_parse hopened
        (Prod.mk.eta (p := parse opened (rootParent store) source)).symm).1.numbered
      have hclass : (parse opened (rootParent store) source).1.diagramKind = .classDiagram →
          ∀ id ∈ (parse opened (rootParent store) source).1.uniqueElements, ∀ kind,
            (workspace (parse opened (rootParent store) source).2).kind? id = some kind →
              ¬ kind.isParticipant := by
        intro hclass id hid kind hkind
        have hdetected : detectDiagramKind source = .classDiagram := hclass
        exact not_isParticipant_of_mem_uniqueElements (by simp [hdetected]) hid hkind
      constructor
      · intro e he
        simp only [BackedStore.workspace_repaint] at hlines
        obtain ⟨model, hmodel, hsuits⟩ := suits_layout hread hclass he (hlines e he)
        refine ⟨model, ?_, hsuits⟩
        rw [BackedStore.element?_eq, BackedStore.workspace_repaint]
        exact hmodel
      · intro view hview
        obtain ⟨tail, head, hends, b, hmodel⟩ := connected_layout hread hview
        refine ⟨tail, head, hends, Relationships.elementOf b view.model, _, ?_, rfl⟩
        rw [BackedStore.element?_eq, BackedStore.workspace_repaint]
        exact hmodel

end Imports

/-! ### Documents -/

/-- The document that a palette draws of a report. -/
def Palette.document {σ : Type u} [ModelStore σ] (p : Palette) (store : σ) (report : LayoutReport) :
    Markup :=
  (Drawing.ofReport store report p.packageFill).markup p.line.text (p.background.map Color.text)

/-- A preview is this document as text, if the settings give the palette. -/
theorem Palette.renderPreview_eq {σ : Type u} [ModelStore σ] {p : Palette} {style : StyleSettings}
    (h : Palette.ofStyle style = .ok p) (store : σ) (report : LayoutReport) :
    renderPreview store report style = .ok (p.document store report).render := by
  unfold renderPreview
  rw [h]
  rfl

namespace Drawing

section Reports

variable {σ : Type u} [ModelStore σ] {store : σ} {report : LayoutReport} {p : Palette}

/-- A group with the shapes of an entry. Behind its frame, its title and a line, a classifier has
its members, with all base lines strictly inside its box. -/
def DrawsEntry (store : σ) (p : Palette) (e : LayoutEntry) (group : Markup) : Prop :=
  ∃ model, ModelStore.element? store e.element = some model ∧
    Shows p.line.text (elementShapes p.packageFill e.bounds model) group ∧
    (model.body.isClassifier → ∃ front lines, group.children = front ++ lines ∧
      front.length = 3 ∧ List.Forall₂ (LineInside e.bounds) (memberLines model.body) lines)

/-- A group with the shapes of a relationship view, from one entry to another. -/
def DrawsView (store : σ) (report : LayoutReport) (p : Palette) (view : RelationshipView)
    (group : Markup) : Prop :=
  ∃ tail head, report.Ends view tail head ∧
    ∃ model relationship, ModelStore.element? store view.model = some model ∧
      model.body = .relationship relationship ∧
      Shows p.line.text
        (relationshipShapes tail.bounds.center head.bounds.center model.name relationship) group

/-- A document that draws all of a report, and nothing outside its view box. -/
structure DrawsInside (store : σ) (report : LayoutReport) (p : Palette) (box : Bounds)
    (document : Markup) : Prop where
  name?_eq : document.name? = some "svg"
  viewBox_eq : document.attribute? "viewBox"
    = some s!"{box.minX} {box.minY} {box.width} {box.height}"
  /-- There is a group for every entry, in the order of the report, -/
  elements : List.Forall₂ (DrawsEntry store p) report.entries (document.part "elements")
  /-- and one for every relationship view. -/
  relationships : List.Forall₂ (DrawsView store report p) report.relationships
    (document.part "relationships")
  /-- All coordinates in these groups are inside. -/
  inside : ∀ id ∈ ["elements", "relationships"], ∀ group ∈ document.part id,
    ∀ node ∈ group.children, box.encloses node

/-- The content of a report is around all of its entries. -/
theorem content_contains {e : LayoutEntry} (he : e ∈ report.entries) :
    (content report).contains e.bounds := by
  have hmem : e.bounds ∈ report.entries.map LayoutEntry.bounds := List.mem_map_of_mem he
  obtain ⟨m, hm⟩ := Bounds.exists_mergeAll hmem
  rw [content, hm, Option.getD_some]
  exact Bounds.mergeAll_contains hm hmem

/-- The bounds of a view are those of an entry with it. -/
theorem exists_boundsOf? {e : LayoutEntry} (he : e ∈ report.entries) :
    ∃ e' ∈ report.entries, e'.view = e.view ∧ boundsOf? report e.view = some e'.bounds := by
  have hsome : (report.entries.find? fun e' => e'.view = e.view).isSome :=
    List.find?_isSome.2 ⟨e, he, decide_eq_true rfl⟩
  obtain ⟨e', hfound⟩ := Option.isSome_iff_exists.1 hsome
  exact ⟨e', List.mem_of_find?_eq_some hfound, by simpa using List.find?_some hfound,
    congrArg (Option.map LayoutEntry.bounds) hfound⟩

/-- If all of a list is mapped to something, so is each one. -/
theorem forall₂_filterMap {α β : Type} {R : α → β → Prop} {f : α → Option β} {l : List α}
    (h : ∀ a ∈ l, ∃ b, f a = some b ∧ R a b) : List.Forall₂ R l (l.filterMap f) := by
  induction l with
  | nil => exact .nil
  | cons a rest ih =>
      obtain ⟨b, hb, hab⟩ := h a List.mem_cons_self
      rw [List.filterMap_cons_some hb]
      exact .cons hab (ih fun a' ha' => h a' (List.mem_cons_of_mem _ ha'))

/-- The center of an entry is inside the content of the report. -/
theorem covers_center (h : Drawable store report) {e : LayoutEntry} (he : e ∈ report.entries) :
    (content report).covers e.bounds.center := by
  obtain ⟨model, -, hsuits⟩ := h.suits e he
  exact Bounds.covers_of_contains (content_contains he) hsuits.solid.covers_center

/-- An entry has a group, whose shapes are at most the margin outside of the content. -/
theorem exists_entryGroup (h : Drawable store report) {e : LayoutEntry} (he : e ∈ report.entries) :
    ∃ shapes, entryGroup? store p.packageFill e = some shapes ∧
      DrawsEntry store p e (groupNode p.line.text shapes) ∧
      ∀ shape ∈ shapes, (outer (content report)).holds shape := by
  obtain ⟨model, hmodel, hsuits⟩ := h.suits e he
  refine ⟨elementShapes p.packageFill e.bounds model,
    congrArg (Option.map (elementShapes p.packageFill e.bounds)) hmodel,
    ⟨model, hmodel, shows_groupNode _ _, fun hbody => ?_⟩, fun shape hshape => ?_⟩
  · obtain ⟨front, lines, hshapes, hfront, hlines⟩ := hsuits.exists_members hbody p.packageFill
    refine ⟨front.map (Shape.markup p.line.text), lines.map (Shape.markup p.line.text), ?_, ?_, ?_⟩
    · rw [children_groupNode, hshapes, List.map_append]
    · rw [List.length_map, hfront]
    · exact List.forall₂_map_right_iff.2 (hlines.imp fun _ _ hline => hline.markup p.line.text)
  · exact Bounds.holds_of_contains (outer_contains_outer (content_contains he))
      (hsuits.holds_of_mem hshape)

/-- So does a relationship view, because both of its ends are entries. -/
theorem exists_relationshipGroup (h : Drawable store report) {view : RelationshipView}
    (hview : view ∈ report.relationships) :
    ∃ shapes, relationshipGroup? store report view = some shapes ∧
      DrawsView store report p view (groupNode p.line.text shapes) ∧
      ∀ shape ∈ shapes, (outer (content report)).holds shape := by
  obtain ⟨tail, head, hends, model, relationship, hmodel, hbody⟩ := h.connected view hview
  obtain ⟨tail', htail, htailView, htailBounds⟩ := exists_boundsOf? hends.tail_mem
  obtain ⟨head', hhead, hheadView, hheadBounds⟩ := exists_boundsOf? hends.head_mem
  rw [hends.tail_eq] at htailView htailBounds
  rw [hends.head_eq] at hheadView hheadBounds
  refine ⟨relationshipShapes tail'.bounds.center head'.bounds.center model.name relationship, ?_,
    ⟨tail', head', ⟨htail, hhead, htailView, hheadView⟩, model, relationship, hmodel, hbody,
      shows_groupNode _ _⟩, fun shape hshape => ?_⟩
  · simp [relationshipGroup?, htailBounds, hheadBounds, hmodel, hbody, Body.relationship?]
  · exact holds_of_mem_relationshipShapes (covers_center h htail) (covers_center h hhead) hshape

/-- **A report is drawn inside the view box** if it can be drawn. -/
theorem drawsInside_document (h : Drawable store report) (p : Palette) :
    DrawsInside store report p (ofReport store report p.packageFill).viewBox
      (p.document store report) := by
  have hentries := forall₂_filterMap fun e (he : e ∈ report.entries) =>
    exists_entryGroup (p := p) h he
  have hviews := forall₂_filterMap fun view (hview : view ∈ report.relationships) =>
    exists_relationshipGroup (p := p) h hview
  have helements : (p.document store report).part "elements"
      = (report.entries.filterMap (entryGroup? store p.packageFill)).map
        (groupNode p.line.text) := part_elements _ _ _
  have hrelationships : (p.document store report).part "relationships"
      = (report.relationships.filterMap (relationshipGroup? store report)).map
        (groupNode p.line.text) := part_relationships _ _ _
  constructor
  · rfl
  · exact viewBox_markup _ _ _
  · rw [helements, List.forall₂_map_right_iff]
    exact hentries.imp fun _ _ hgroup => hgroup.1
  · rw [hrelationships, List.forall₂_map_right_iff]
    exact hviews.imp fun _ _ hgroup => hgroup.1
  · intro id hid group hgroup node hnode
    rcases List.mem_pair.1 hid with rfl | rfl
    · rw [helements] at hgroup
      refine encloses_of_mem_groups (fun shapes hshapes => ?_) hgroup hnode
      obtain ⟨-, -, -, hholds⟩ := exists_of_forall₂ hentries.flip hshapes
      exact hholds
    · rw [hrelationships] at hgroup
      refine encloses_of_mem_groups (fun shapes hshapes => ?_) hgroup hnode
      obtain ⟨-, -, -, hholds⟩ := exists_of_forall₂ hviews.flip hshapes
      exact hholds

end Reports

/-- A class in four packages, one inside the other, and an enumeration that it uses. -/
def deepText : String :=
  "package P \x7b\npackage Q \x7b\npackage R \x7b\npackage S \x7b\nclass A \x7b\n" ++
    "+x: Int\n-f(y: Int): Text\n\x7d\n\x7d\n\x7d\n\x7d\n\x7d\n" ++
    "enum E \x7b\nOn\n\x7d\nA --> E : uses"

end Drawing

end UmlText
