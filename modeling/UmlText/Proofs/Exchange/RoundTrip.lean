import UmlText.Exchange
import UmlText.Proofs.Exchange.Reading
import UmlText.Proofs.Import.Independence
import UmlText.Proofs.Layout.Granting

/-!
# UmlText.Proofs.Exchange.RoundTrip

**Classes and associations survive an exchange as text.** What is written of readable classes and of
associations between them is imported into a new workspace without a report and without a refusal,
and the workspace then holds the same elements in the same order, up to what a text does not say:
documentation, default values, whether a class is abstract, and how an end is drawn.
-/

namespace UmlText

open Text (trim)

namespace Writing

variable {w : Workspace} {classes associations : List Element} {project : String}

/-- A recorded association becomes what was written of it. -/
theorem content_linkBlueprint {name : String} {r : Relationship}
    (h : ReadableAssociation name r) :
    Relationships.content (linkBlueprint classes name r)
      = (name, readBack classes (.relationship r)) := by
  simp only [Relationships.content, linkBlueprint, writtenBlueprint, elim_writtenLabel h.trimmed,
    readBack, h.kind, if_true]

theorem Exportable.map_content (h : Exportable w classes associations) :
    (linkBlueprints classes associations).map Relationships.content
      = associations.map fun e => (e.name, readBack classes e.body) := by
  have hlinked := h.linked
  rw [linkBlueprints]
  clear h
  induction associations with
  | nil => rfl
  | cons e rest ih =>
      obtain ⟨r, hlink⟩ := hlinked e List.mem_cons_self
      have hrelationship : e.body.relationship? = some r := by
        rw [hlink.body_eq]
        rfl
      rw [List.filterMap_cons_some (by rw [hrelationship]; rfl), List.map_cons, List.map_cons,
        content_linkBlueprint hlink.association, ← hlink.body_eq,
        ih fun f hf => hlinked f (List.mem_cons_of_mem _ hf)]

/-- The ends of a recorded association are declared. -/
theorem Exportable.ends_declared (h : Exportable w classes associations) {b : Blueprint}
    (hb : b ∈ linkBlueprints classes associations) :
    ∃ i j, i < classes.length ∧ j < classes.length ∧ b.source = ⟨i + 1⟩ ∧ b.target = ⟨j + 1⟩ := by
  obtain ⟨e, he, hbe⟩ := List.mem_filterMap.1 hb
  obtain ⟨r, hlink⟩ := h.linked e he
  rw [hlink.body_eq] at hbe
  obtain rfl := Option.some.inj hbe
  obtain ⟨left, hleft, hsource, -⟩ := hlink.source
  obtain ⟨right, hright, htarget⟩ := hlink.target
  have hplace : ∀ c ∈ classes, (classes.map Element.id).idxOf c.id < classes.length := by
    intro c hc
    rw [← List.length_map Element.id]
    exact List.idxOf_lt_length_of_mem (List.mem_map_of_mem hc)
  exact ⟨_, _, hsource ▸ hplace left hleft, htarget ▸ hplace right hright, rfl, rfl⟩

end Writing

/-! ### Importing -/

theorem contents_of_elements_new {w : Workspace} {project : String}
    (h : w.elements = (Workspace.new project).elements) : w.contents = [(project, .project)] := by
  rw [Workspace.contents, h]
  rfl

/-- What is parsed of a written text. -/
structure ParsedBack (project : String) (classes associations : List Element) (parsed : Parsed)
    (read : Workspace) : Prop where
  diagnostics_eq : parsed.diagnostics = []
  blueprints_eq : parsed.blueprints = Writing.linkBlueprints classes associations
  contents_eq : read.contents
    = (project, .project) :: classes.map fun e => (e.name, Writing.readBack classes e.body)
  declared : ∀ i < classes.length, (⟨i + 1⟩ : ElementId) ∈ parsed.uniqueElements

theorem parsedBack_writeText {w : Workspace} {classes associations : List Element}
    (h : Writing.Exportable w classes associations) {project : String} {store read : Workspace}
    (hstore : store.contents = [(project, .project)]) {parsed : Parsed}
    (hparse : parse store Workspace.root
      (Writing.writeText w ((classes ++ associations).map Element.id)) = (parsed, read)) :
    ParsedBack project classes associations parsed read ∧ read.diagrams = store.diagrams := by
  have hread := Reader.Progress.readText h hstore
  rw [parse] at hparse
  generalize Reader.readText store Workspace.root _ = r at hread hparse
  obtain ⟨rfl, rfl⟩ := Prod.mk.inj hparse
  refine ⟨⟨hread.diagnostics_eq, hread.blueprints_eq, hread.contents_eq, ?_⟩,
    hread.diagrams_eq⟩
  intro i hi
  have hname : r.aliases.get? classes[i].name = some ⟨i + 1⟩ := by
    rw [hread.aliases_eq, List.map_map]
    refine get?_nameTable_of_nodup h.names_nodup ?_
    rw [List.getElem?_map, List.getElem?_eq_getElem hi, Option.map_some]
  exact List.mem_eraseDups.2 (List.mem_map.2 ⟨_, OrderedMap.mem_of_get? hname, rfl⟩)

/-- **The round trip**: readable classes and the associations between them are written and imported
into a new workspace without a loss. -/
theorem importText_writeText {w : Workspace} {classes associations : List Element}
    (h : Writing.Exportable w classes associations) (project : String) (s : LayoutSettings) :
    let text := Writing.writeText w ((classes ++ associations).map Element.id)
    let outcome := (importText (Workspace.new project) text s).1
    let copy := (importText (Workspace.new project) text s).2
    outcome.parsed.diagnostics = [] ∧
      outcome.layout.skippedElements = [] ∧ outcome.layout.skippedRelationships = 0 ∧
      copy.contents = (project, .project) ::
        (classes ++ associations).map fun e => (e.name, Writing.readBack classes e.body) := by
  intro text outcome copy
  obtain ⟨start, parsed, read, hreachable, helements, hdiagram, hparse, himport⟩ :=
    importText_new project text s
  obtain ⟨hback, hdiagrams⟩ :=
    parsedBack_writeText h (contents_of_elements_new helements) hparse
  obtain ⟨hread, hkinds⟩ :=
    declares_parse (show (BackedStore.workspace start).Reachable from hreachable) hparse
  have hblueprints : ∀ b ∈ parsed.blueprints,
      b.source ∈ parsed.uniqueElements ∧ b.target ∈ parsed.uniqueElements := by
    intro b hb
    rw [hback.blueprints_eq] at hb
    obtain ⟨i, j, hi, hj, hsource, htarget⟩ := h.ends_declared hb
    exact ⟨hsource ▸ hback.declared i hi, htarget ▸ hback.declared j hj⟩
  have hknown : (read.diagram? ⟨0⟩).isSome := by
    rw [Workspace.diagram?, hdiagrams]
    exact hdiagram
  obtain ⟨hskipped, hrelationships, -, hlaid⟩ :=
    layout_granted (w := read) hread.numbered hknown hkinds hblueprints s
  rw [hback.contents_eq, hback.blueprints_eq, h.map_content, List.cons_append,
    ← List.map_append] at hlaid
  simp only [outcome, copy, himport]
  exact ⟨hback.diagnostics_eq, hskipped, hrelationships, hlaid⟩

/-- A shop with a typed member, a name in quotes, multiplicities and a comment comes back. -/
theorem importText_writeText_shop :
    let order : Element :=
      { id := ⟨1⟩, name := "Order", tags := [⟨"AI", "keep: class actor"⟩],
        body := .umlClass
          { attributes := [{ name := "total", typeName := some "Money", visibility := .priv }]
            operations := [{ name := "add", parameters := [.input "line" (some "a: b)")] }] } }
    let line : Element := { id := ⟨2⟩, name := "Order Line", body := .umlClass {} }
    let link : Element :=
      { id := ⟨3⟩, name := "has", body := .relationship
          { kind := .association
            end1 := ⟨⟨1⟩, { multiplicity := some "1" }⟩
            end2 := ⟨⟨2⟩, { multiplicity := some "0..*" }⟩ } }
    let w : Workspace := { elements := [(Workspace.new "Shop").elements[0], order, line, link] }
    Writing.Exportable w [order, line] [link] ∧
      (importText (Workspace.new "Copy") (Writing.writeText w [⟨1⟩, ⟨2⟩, ⟨3⟩]) {}).2.contents
        = [("Copy", .project), ("Order", order.body), ("Order Line", line.body),
            ("has", link.body)] := by
  intro order line link w
  have h : Writing.Exportable w [order, line] [link] := by
    refine ⟨by decide, ?_, by decide, ?_⟩
    · intro e he
      simp only [List.mem_cons, List.not_mem_nil, or_false] at he
      rcases he with rfl | rfl
      · refine ⟨_, rfl, ⟨by decide, by decide, by decide⟩, ?_, ?_, by rintro value ⟨⟩; decide⟩
        · rintro a (_ | ⟨_, ⟨⟩⟩)
          refine ⟨⟨by decide, List.all_eq_true.1 (by decide)⟩, ?_⟩
          intro t ht
          cases ht
          exact ⟨⟨by decide, by decide, by decide, by decide⟩, by decide⟩
        · rintro o (_ | ⟨_, ⟨⟩⟩)
          refine ⟨⟨by decide, List.all_eq_true.1 (by decide)⟩, ?_, by rintro t ⟨⟩⟩
          rintro name typeName (_ | ⟨_, ⟨⟩⟩)
          refine ⟨by decide, by decide, by decide, by decide, by decide, ?_⟩
          intro t ht
          cases ht
          exact ⟨⟨by decide, by decide, by decide, by decide⟩, by decide⟩
      · exact ⟨_, rfl, ⟨by decide, by decide, by decide⟩, by rintro a ⟨⟩, by rintro o ⟨⟩,
          by rintro value ⟨⟩⟩
    · intro e he
      obtain rfl := List.mem_singleton.1 he
      refine ⟨_, rfl, ⟨rfl, by decide, by decide, by decide, by decide, ?_, ?_⟩,
        ⟨order, by simp, rfl, by decide, by decide⟩, ⟨line, by simp, rfl⟩, by rintro value ⟨⟩⟩
      · intro m hm
        cases hm
        exact ⟨by decide, by decide, by decide⟩
      · intro m hm
        cases hm
        exact ⟨by decide, by decide, by decide⟩
  exact ⟨h, (importText_writeText h "Copy" {}).2.2.2⟩

end UmlText
