import UmlText.Import
import UmlText.Proofs.Exchange.Elements
import UmlText.Proofs.Exchange.Recognized
import UmlText.Proofs.Layout.Relating
import UmlText.Proofs.Reading.Direction
import UmlText.Proofs.Reading.Naming

/-!
# UmlText.Proofs.Exchange.Plain

**What an import makes can be written.** Everything in a workspace that a text was imported into was
read off its lines, so names can be put in quotes, members and associations keep to their lines, and
no element has documentation or tags (`PlainElement`). Reading a line keeps that, and so does every
step of a layout; so it holds of the result of an import (`plain_importText`).
-/

namespace UmlText

universe u

open BackedStore (workspace)
open Text (trim)
open Writing (PlainClassifier PlainOperation Quotable ReadableAssociation ReadableAttribute)

/-! ### Plain elements -/

/-- An element as a text makes it. -/
structure PlainElement (e : Element) : Prop where
  documentation_eq : e.documentation = none
  tags_eq : e.tags = []
  name : e.kind?.isSome → Quotable e.name
  features : ∀ c ∈ e.body.classifier?, PlainClassifier c
  association : ∀ r ∈ e.body.relationship?, r.kind = .association → ReadableAssociation e.name r

/-- A member that is read back, but for inputs of which nothing is written. -/
def PlainMember : Member → Prop
  | .ofAttribute a => ReadableAttribute a
  | .ofOperation o => PlainOperation o
  | .ofLiteral _ => True

/-- A blueprint that does not become an association, or one that can be written. -/
structure PlainBlueprint (b : Blueprint) : Prop where
  label : b.kind = .association → ∀ text ∈ b.label, '\n' ∉ text.toList ∧
    ArrowMeaning.stereotype? text = none
  multiplicity1 : ∀ m ∈ b.end1.multiplicity, Quotable m
  multiplicity2 : ∀ m ∈ b.end2.multiplicity, Quotable m

namespace PlainElement

variable {e : Element}

theorem withOwned (h : PlainElement e) (owned : List ElementId) : PlainElement { e with owned } :=
  ⟨h.documentation_eq, h.tags_eq, h.name, h.features, h.association⟩

/-- An association without a name. -/
theorem unnamed {r : Relationship} (hkind : r.kind = .association)
    (h1 : ∀ m ∈ r.end1.spec.multiplicity, Quotable m)
    (h2 : ∀ m ∈ r.end2.spec.multiplicity, Quotable m) : ReadableAssociation "" r :=
  ⟨hkind, rfl, by decide, by decide, by decide, h1, h2⟩

/-- An element that was just declared. -/
theorem empty (id parent : ElementId) {name : String} (hname : Quotable name) (kind : ElementKind)
    (isAbstract : Bool) :
    PlainElement { id, name, parent := some parent, body := .empty kind isAbstract } := by
  refine ⟨rfl, rfl, fun _ => hname, ?_, ?_⟩
  · cases kind <;> rintro c ⟨⟩ <;> exact ⟨by simp, by simp⟩
  · cases kind <;> rintro r ⟨⟩

theorem withMember (h : PlainElement e) {member : Member} (hmember : PlainMember member)
    {body : Body} (hbody : e.body.withMember? member = some body) :
    PlainElement { e with body } := by
  have hkind : body.kind? = e.kind? := Body.kind?_withMember? hbody
  have hfeatures : ∀ c, e.body.classifier? = some c → ∀ c', body.classifier? = some c' →
      PlainClassifier c' := by
    intro c hc c' hc'
    have hplain := h.features c hc
    cases hb : e.body <;> rw [hb] at hc hbody <;> cases hc <;> cases member <;> cases hbody <;>
      cases hc'
    case umlClass.refl.ofAttribute.refl.refl a | interface.refl.ofAttribute.refl.refl a =>
      exact ⟨List.forall_mem_append.2 ⟨hplain.attributes, List.forall_mem_singleton.2 hmember⟩,
        hplain.operations⟩
    all_goals
      exact ⟨hplain.attributes,
        List.forall_mem_append.2 ⟨hplain.operations, List.forall_mem_singleton.2 hmember⟩⟩
  refine ⟨h.documentation_eq, h.tags_eq, fun hsome => h.name (hkind ▸ hsome), ?_, ?_⟩
  · intro c' hc'
    cases hb : e.body <;> rw [hb] at hbody <;> cases member <;> cases hbody <;> try cases hc'
    all_goals exact hfeatures _ (by rw [hb]; rfl) _ rfl
  · intro r hr
    have hsome := Body.kind?_of_withMember? hbody
    rw [← Body.kind?_withMember? hbody] at hsome
    rw [Body.relationship?_of_kind? hsome] at hr
    cases hr

/-- A project is never written. -/
theorem project (id : ElementId) (name : String) :
    PlainElement { id, name, body := .project } :=
  ⟨rfl, rfl, by rintro ⟨⟩, by rintro c ⟨⟩, by rintro r ⟨⟩⟩

/-- What a plain blueprint becomes. -/
theorem elementOf {b : Blueprint} (h : PlainBlueprint b) (id : ElementId) :
    PlainElement (Relationships.elementOf b id) := by
  refine ⟨rfl, rfl, by rintro ⟨⟩, by rintro c ⟨⟩, ?_⟩
  rintro r ⟨⟩ hkind
  have hkind : b.kind = .association := hkind
  have hends : ∀ m ∈ (if b.kind = .association then (b.end1, b.end2) else ({}, {})).1.multiplicity,
      Quotable m := by
    rw [if_pos hkind]
    exact h.multiplicity1
  have hends' : ∀ m ∈ (if b.kind = .association then (b.end1, b.end2) else ({}, {})).2.multiplicity,
      Quotable m := by
    rw [if_pos hkind]
    exact h.multiplicity2
  cases hlabel : b.label with
  | none =>
      have hname : (Relationships.elementOf b id).name = "" := by
        rw [Relationships.elementOf, hlabel]
        rfl
      rw [hname]
      exact unnamed hkind hends hends'
  | some text =>
      obtain ⟨hline, hstereotype⟩ := h.label hkind text hlabel
      have hname : (Relationships.elementOf b id).name = String.ofList (trim text.toList) := by
        rw [Relationships.elementOf, hlabel]
        rfl
      -- A stereotype in the name would be one in the label.
      have hno : ∀ pattern : String, Text.occursIn pattern.toList text.toList = false →
          ¬ pattern.toList <:+: (String.ofList (trim text.toList)).toList := by
        intro pattern hpattern hinside
        rw [String.toList_ofList] at hinside
        have hocc := Text.occursIn_iff.2 (hinside.trans (Text.infix_trim text.toList))
        rw [hpattern] at hocc
        cases hocc
      simp only [ArrowMeaning.stereotype?] at hstereotype
      split at hstereotype
      · cases hstereotype
      · next hinclude =>
          split at hstereotype
          · cases hstereotype
          · next hextend =>
              rw [hname]
              refine ⟨hkind, ?_, ?_, hno _ (by simpa using hinclude),
                hno _ (by simpa using hextend),
                hends, hends'⟩
              · rw [String.toList_ofList]
                exact (Text.trimmed_trim _).trim_eq
              · rw [String.toList_ofList]
                exact fun hc => hline (Text.trim_subset _ hc)

end PlainElement

/-! ### Plain workspaces -/

/-- A workspace whose elements were all made by texts. -/
def Workspace.Plain (w : Workspace) : Prop :=
  ∀ id e, w.element? id = some e → PlainElement e

namespace Workspace.Plain

variable {w : Workspace}

theorem pushElement (h : w.Plain) (parent : ElementId) {name : String} {body : Body}
    (hnew : ∀ id, PlainElement { id, name, parent := some parent, body }) :
    (w.pushElement parent name body).2.Plain := by
  intro id e he
  rw [element?_pushElement] at he
  obtain ⟨before, hbefore, rfl⟩ := Option.map_eq_some_iff.1 he
  have hplain : PlainElement before := by
    split at hbefore
    · obtain rfl := Option.some.inj hbefore
      exact hnew id
    · exact h id before hbefore
  split
  · exact hplain.withOwned _
  · exact hplain

theorem updateElement (h : w.Plain) (id : ElementId) {f : Element → Element}
    (hf : ∀ e, w.element? id = some e → PlainElement (f e)) : (w.updateElement id f).Plain := by
  intro j e he
  rw [element?_updateElement] at he
  obtain ⟨before, hbefore, rfl⟩ := Option.map_eq_some_iff.1 he
  split
  · next hid => exact hf before (hid ▸ hbefore)
  · exact h j before hbefore

/-- A relationship made of a plain blueprint. -/
theorem relate (h : w.Plain) {b : Blueprint} (hb : PlainBlueprint b) {request : NewRelationship}
    (hfault : w.relationshipFault? request = none) (hkind : request.kind = b.kind)
    (hsource : request.source = b.source) (htarget : request.target = b.target) :
    ((w.withRelationship request).updateElement ⟨w.elements.length⟩
      (Relationships.decorate b)).Plain := by
  have hlt := lt_of_kind? (relationshipFault?_eq_none.1 hfault).2.1
  have hpushed : (w.withRelationship request).Plain := h.pushElement request.source fun _ =>
    ⟨rfl, rfl, by rintro ⟨⟩, by rintro c ⟨⟩, by
      rintro r ⟨⟩ hassociation
      exact PlainElement.unnamed hassociation (by rintro m ⟨⟩) (by rintro m ⟨⟩)⟩
  refine hpushed.updateElement _ fun e he => ?_
  have hmade := Relationships.element?_relate_self hkind hsource htarget (hsource ▸ hlt)
  rw [element?_updateElement, he, Option.map_some, if_pos rfl] at hmade
  rw [Option.some.inj hmade]
  exact .elementOf hb _

end Workspace.Plain

/-! ### Reading -/

theorem plain_of_member? {kind : ElementKind} {line : List Char} {member : Member}
    (h : Line.member? kind line = some member) (hline : '\n' ∉ line) : PlainMember member := by
  have hfeature : ∀ m : Member, (((Line.operation? line).map Member.ofOperation)
      <|> (Line.attribute? line).map Member.ofAttribute) = some m → PlainMember m := by
    intro m hm
    rcases Option.or_eq_some_iff.1 (Option.orElse_eq_or.symm.trans hm) with hm | ⟨-, hm⟩
    · obtain ⟨o, ho, rfl⟩ := Option.map_eq_some_iff.1 hm
      exact Line.plain_of_operation? ho hline
    · obtain ⟨a, ha, rfl⟩ := Option.map_eq_some_iff.1 hm
      exact Line.readable_of_attribute? ha hline
  cases kind with
  | umlClass | interface => exact hfeature member h
  | enumeration =>
      obtain ⟨name, -, rfl⟩ := Option.map_eq_some_iff.1 h
      trivial
  | package | actor | useCase => cases h

/-- A label that leaves an association an association has no stereotype. -/
theorem ArrowMeaning.stereotype?_of_withLabel {m : ArrowMeaning} {label : Option String}
    (h : (m.withLabel label).kind = .association) {text : String}
    (htext : (m.withLabel label).label = some text) :
    stereotype? text = none ∧ ∃ raw ∈ label, text.toList ⊆ raw.toList := by
  simp only [withLabel] at h htext
  split at htext
  · cases htext
  · next hnone =>
      have hclean : cleanLabel label = some text := htext
      rw [hnone] at h
      have hkind : m.kind = .association := h
      rw [if_pos (.inl hkind), hclean, Option.bind_some] at hnone
      rw [cleanLabel] at hclean
      obtain ⟨raw, hraw, rfl⟩ := Option.map_eq_some_iff.1 (Option.mem_filter_iff.1 hclean).1
      refine ⟨hnone, raw, hraw, ?_⟩
      rw [String.toList_ofList]
      exact Text.trim_subset raw.toList

/-- What is recorded of a line without a line feed is plain. -/
theorem plain_of_blueprint? {parts : Line.RelationshipLine} (hparts : Line.QuotableLine parts)
    {left right : ElementId × ElementKind} {b : Blueprint}
    (h : Reader.blueprint? parts left right = some b) : PlainBlueprint b := by
  obtain ⟨meaning, hmeaning, rfl⟩ := Option.map_eq_some_iff.1 h
  obtain ⟨plain, -, rfl⟩ := Option.map_eq_some_iff.1 hmeaning
  have hlabel : (plain.withLabel parts.label).kind = .association →
      ∀ text ∈ (plain.withLabel parts.label).label, '\n' ∉ text.toList ∧
        ArrowMeaning.stereotype? text = none := by
    intro hkind text htext
    obtain ⟨hnone, raw, hraw, hsubset⟩ := ArrowMeaning.stereotype?_of_withLabel hkind htext
    exact ⟨fun hc => hparts.label raw hraw (hsubset hc), hnone⟩
  split
  · exact ⟨hlabel, hparts.rightMultiplicity, hparts.leftMultiplicity⟩
  · exact ⟨hlabel, hparts.leftMultiplicity, hparts.rightMultiplicity⟩

/-- The name that a header asks an element for can be put in quotes. -/
theorem quotable_of_request? {bodyOpen : Bool} {line : List Char} {parent : ElementId}
    {request : NewElement} (h : (LineShape.of bodyOpen line).request? parent = some request)
    (hline : '\n' ∉ line) : Quotable request.name := by
  cases hshape : LineShape.of bodyOpen line with
  | package header =>
      rw [hshape] at h
      obtain rfl := Option.some.inj h
      exact Line.quotable_of_packageHeader? (LineShape.of_eq_package hshape) hline
  | entity header =>
      rw [hshape] at h
      obtain rfl := Option.some.inj h
      exact Line.quotable_of_entityHeader? (LineShape.of_eq_entity hshape) hline
  | ignored | member | close | relationship | unknown =>
      rw [hshape] at h
      cases h

/-- No line of a text has a line feed in it. -/
theorem no_newline_of_mem_locatedLines {source : List Char} {line : Text.Line}
    (h : line ∈ Text.locatedLines source) : '\n' ∉ line.text := by
  have htext : line.text ∈ (Text.locatedLines source).map Text.Line.text := List.mem_map_of_mem h
  rw [Text.locatedLines, Text.map_text_locateFrom] at htext
  obtain ⟨piece, hpiece, hline⟩ := List.mem_map.1 htext
  rw [← hline]
  exact fun hc => Text.not_mem_of_mem_splitOn hpiece (Text.trim_subset _ hc)

namespace Reader

variable {σ : Type u} [ModelStore σ] [ViewStore σ] [BackedStore σ]

/-- A reader that has made and recorded nothing but what is plain. -/
structure Plain (r : Reader σ) : Prop where
  store : (workspace r.store).Plain
  blueprints : ∀ b ∈ r.blueprints, PlainBlueprint b

namespace Plain

variable {r : Reader σ}

/-- A declaration makes an empty element. -/
theorem createElement (h : (workspace r.store).Plain) (request : NewElement)
    (hname : Quotable request.name) :
    (workspace (ModelStore.createElement r.store request).2).Plain := by
  rcases BackedStore.createElement_cases r.store request with
    ⟨error, store, hc, hw⟩ | ⟨owner, store, -, -, hc, hw⟩
  · rw [hc, hw]
    exact h
  · rw [hc, hw]
    exact h.pushElement _ fun id => .empty id _ hname _ _

theorem addMember (h : (workspace r.store).Plain) (id : ElementId) {member : Member}
    (hmember : PlainMember member) :
    (workspace (ModelStore.addMember r.store id member).2).Plain := by
  rcases BackedStore.addMember_cases r.store id member with
    ⟨error, store, hm, hw⟩ | ⟨element, body, store, helement, hbody, hm, hw⟩
  · rw [hm, hw]
    exact h
  · rw [hm, hw]
    refine h.updateElement id fun e he => ?_
    obtain rfl := Option.some.inj (helement.symm.trans he)
    exact (h id element helement).withMember hmember hbody

/-- What a line does to the store is plain. -/
theorem store_step (h : (workspace r.store).Plain) {line : Text.Line} (hline : '\n' ∉ line.text) :
    (workspace (r.step line).store).Plain := by
  cases hrequest : (LineShape.of r.body.isSome line.text).request? r.parent with
  | some request =>
      rw [(step_of_request hrequest).1]
      exact createElement h request (quotable_of_request? hrequest hline)
  | none =>
      obtain ⟨-, -, hstore | ⟨id, kind, member, hmember, hstore⟩⟩ := step_of_no_request hrequest
      · rw [hstore]
        exact h
      · rw [hstore]
        exact addMember h id (plain_of_member? hmember hline)

omit [ViewStore σ] [BackedStore σ] in
/-- What is recorded for a line is plain. -/
theorem recording? {line : Text.Line} (hline : '\n' ∉ line.text) {made : Recording}
    (h : r.recording? line = some made) : PlainBlueprint made.blueprint := by
  have hb := blueprint?_of_recording? h
  rw [Reader.recording?] at h
  split at h
  · next parts hshape =>
      simp only [Option.bind_eq_bind, Option.bind_eq_some_iff] at h
      obtain ⟨left, -, right, -, blueprint, -, hmade⟩ := h
      obtain rfl := Option.some.inj hmade
      exact plain_of_blueprint? (Line.quotable_of_relationshipLine?
        (LineShape.of_eq_relationship hshape).2 hline) hb
  · cases h

theorem step (h : r.Plain) {line : Text.Line} (hline : '\n' ∉ line.text) : (r.step line).Plain where
  store := store_step h.store hline
  blueprints := by
    rw [blueprints_step]
    refine List.forall_mem_append.2 ⟨h.blueprints, ?_⟩
    intro b hb
    obtain ⟨made, hmade, rfl⟩ := List.mem_map.1 hb
    exact recording? hline (Option.mem_toList.1 hmade)

theorem readLines (h : r.Plain) {lines : List Text.Line}
    (hlines : ∀ line ∈ lines, '\n' ∉ line.text) :
    (r.readLines lines).Plain :=
  Reader.readLines_induct (fun _ line hline hr => hr.step (hlines line hline)) h

end Plain

end Reader

variable {σ : Type u} [ModelStore σ] [ViewStore σ] [BackedStore σ]

/-- What is parsed into a plain store is plain. -/
theorem plain_parse {store read : σ} (h : (workspace store).Plain) {root : ElementId}
    {source : String} {parsed : Parsed} (hparse : parse store root source = (parsed, read)) :
    (workspace read).Plain ∧ ∀ b ∈ parsed.blueprints, PlainBlueprint b := by
  obtain ⟨rfl, rfl⟩ := Prod.mk.inj hparse
  have hstart : ({ store, root : Reader σ }).Plain := ⟨h, by simp⟩
  have hread := hstart.readLines fun line (hline : line ∈ Text.locatedLines source.toList) =>
    no_newline_of_mem_locatedLines hline
  exact ⟨hread.store, hread.blueprints⟩

/-- A layout adds nothing but what its blueprints say. -/
theorem plain_layout {store : σ} (hreachable : (workspace store).Reachable)
    (h : (workspace store).Plain) (diagram : DiagramId) {parsed : Parsed}
    (hblueprints : ∀ b ∈ parsed.blueprints, PlainBlueprint b) (s : LayoutSettings) :
    (workspace (layout store diagram parsed s).2).Plain := by
  have hplaced : (workspace (placeAll store diagram parsed s).store).Plain :=
    placeAll_induct hreachable.numbered diagram parsed s h (fun _ _ _ _ hw _ => hw)
      fun _ _ _ _ hw => hw
  exact Relationships.realize_induct _ parsed.blueprints hplaced
    fun w request b hb hw hfault hkind hsource htarget =>
      hw.relate (hblueprints b hb) hfault hkind hsource htarget

end UmlText
