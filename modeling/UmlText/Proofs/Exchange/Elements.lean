import UmlText.Proofs.Exchange.Associations

/-!
# UmlText.Proofs.Exchange.Elements

**The lines of an element.** `ReadableClass` and `ReadableLink` say which elements can be read back:
those whose texts keep to the line they are written on and cannot be taken for something else. No
line of theirs has a line feed in it, so a written text is cut into the lines that it was made of.
-/

namespace UmlText

open Text (trim isBlank)

namespace Writing

/-- Features whose lines are read back, but for inputs of which nothing is written. -/
structure PlainClassifier (c : Classifier) : Prop where
  attributes : ∀ a ∈ c.attributes, ReadableAttribute a
  operations : ∀ o ∈ c.operations, PlainOperation o

/-- A class whose lines are read back. -/
structure ReadableClass (e : Element) (features : Classifier) : Prop where
  body_eq : e.body = .umlClass features
  name : Quotable e.name
  attributes : ∀ a ∈ features.attributes, ReadableAttribute a
  operations : ∀ o ∈ features.operations, ReadableOperation o
  command : ∀ value ∈ e.tag? commandTag, '\n' ∉ value.toList

/-- An association between two of `classes` whose lines are read back. -/
structure ReadableLink (classes : List Element) (e : Element) (r : Relationship) : Prop where
  body_eq : e.body = .relationship r
  association : ReadableAssociation e.name r
  source : ∃ c ∈ classes, c.id = r.source ∧ Leading c.name
  target : ∃ c ∈ classes, c.id = r.target
  command : ∀ value ∈ e.tag? commandTag, '\n' ∉ value.toList

/-- What is written of a class: all but default values and whether it is abstract. -/
def writtenFeatures (c : Classifier) : Classifier :=
  { attributes := c.attributes.map fun a => { a with defaultValue := none }
    operations := c.operations.map writtenOperation }

/-- What is read of a written class: what was written of it, but for inputs that left nothing in the
text. -/
def readFeatures (c : Classifier) : Classifier :=
  { attributes := c.attributes.map fun a => { a with defaultValue := none }
    operations := c.operations.map readOperation }

theorem ReadableClass.plain {e : Element} {features : Classifier} (h : ReadableClass e features) :
    PlainClassifier features :=
  ⟨h.attributes, fun o ho => (h.operations o ho).plain⟩

theorem ReadableClass.readFeatures_eq {e : Element} {features : Classifier}
    (h : ReadableClass e features) : readFeatures features = writtenFeatures features := by
  rw [readFeatures, writtenFeatures]
  congr 1
  exact List.map_congr_left fun o ho => (h.operations o ho).readOperation_eq

/-! ### Comments -/

/-- A comment stands on a line of its own, behind a mark. -/
theorem comment_of_mem_commentLines {e : Element}
    (hcommand : ∀ value ∈ e.tag? commandTag, '\n' ∉ value.toList) {line : String}
    (hline : line ∈ commentLines e) :
    '\n' ∉ line.toList ∧ ∃ rest, line.toList = '\'' :: rest := by
  rcases List.mem_append.1 hline with hline | hline
  · cases hdocumentation : e.documentation with
    | none => simp [hdocumentation] at hline
    | some text =>
        rw [hdocumentation, Option.map_some, Option.getD_some] at hline
        obtain ⟨cs, hcs, rfl⟩ := List.mem_map.1 hline
        simp [Text.not_mem_of_mem_editorLines hcs]
  · obtain ⟨value, hvalue, rfl⟩ := List.mem_map.1 hline
    have hno := hcommand value (Option.mem_filter_iff.1 (Option.mem_toList.1 hvalue)).1
    have htext : (s!"' AI_CMD: {value}").toList = "' AI_CMD: ".toList ++ value.toList := by
      show ("' AI_CMD: " ++ value).toList = _
      simp
    rw [htext]
    simp [hno]

/-! ### Lines as a reader gets them -/

/-- The lines of a text as a reader gets them. -/
def trimmedLines (lines : List String) : List (List Char) :=
  lines.map fun line => trim line.toList

theorem trimmedLines_append (lines others : List String) :
    trimmedLines (lines ++ others) = trimmedLines lines ++ trimmedLines others :=
  List.map_append

theorem trimmedLines_map {α : Type} {l : List α} {line : α → String} {text : α → List Char}
    (h : ∀ x ∈ l, trim (line x).toList = text x) : trimmedLines (l.map line) = l.map text := by
  rw [trimmedLines, List.map_map]
  exact List.map_congr_left h

/-- The lines in the body of a class, with what they are read as. -/
def writtenMembers (c : Classifier) : List (List Char × Member) :=
  c.attributes.map (fun a => (attributeText a, .ofAttribute { a with defaultValue := none }))
    ++ c.operations.map fun o => (operationText o, .ofOperation (readOperation o))

theorem PlainClassifier.readable_members {features : Classifier} (h : PlainClassifier features) :
    ∀ x ∈ writtenMembers features,
      LineShape.of true x.1 = .member ∧ Line.member? .umlClass x.1 = some x.2 := by
  intro x hx
  rcases List.mem_append.1 hx with hx | hx
  · obtain ⟨a, ha, rfl⟩ := List.mem_map.1 hx
    exact ⟨shape_attributeText (h.attributes a ha), member?_attributeText (h.attributes a ha)⟩
  · obtain ⟨o, ho, rfl⟩ := List.mem_map.1 hx
    exact ⟨shape_operationText (h.operations o ho), member?_operationText (h.operations o ho)⟩

/-- A class that is given the written members has what is read of it. -/
theorem foldlM_writtenMembers (c : Classifier) :
    ((writtenMembers c).map Prod.snd).foldlM Body.withMember? (.umlClass {})
      = some (.umlClass (readFeatures c)) := by
  have hattributes : ∀ (as : List Attribute) (d : Classifier),
      (as.map fun a => Member.ofAttribute { a with defaultValue := none }).foldlM
          Body.withMember? (.umlClass d)
        = some (.umlClass { d with
            attributes := d.attributes ++ as.map fun a => { a with defaultValue := none } }) := by
    intro as
    induction as with
    | nil => simp
    | cons a rest ih => simp [Body.withMember?, ih]
  have hoperations : ∀ (os : List Operation) (d : Classifier),
      (os.map fun o => Member.ofOperation (readOperation o)).foldlM
          Body.withMember? (.umlClass d)
        = some (.umlClass { d with operations := d.operations ++ os.map readOperation }) := by
    intro os
    induction os with
    | nil => simp
    | cons o rest ih => simp [Body.withMember?, ih]
  simp only [writtenMembers, List.map_append, List.map_map, Function.comp_def, List.foldlM_append,
    hattributes, Option.bind_eq_bind, Option.bind_some, hoperations]
  rfl

theorem trimmedLines_classLines (name : String) {features : Classifier}
    (h : PlainClassifier features) :
    trimmedLines (classLines name features)
      = headerText name :: ((writtenMembers features).map Prod.fst ++ [['\x7d']]) := by
  have hheader : trimmedLines [s!"class {quoteName name} \x7b"] = [headerText name] := by
    rw [trimmedLines, List.map_singleton, toList_header, trim_headerText]
  have hclose : trimmedLines ["\x7d"] = [['\x7d']] := rfl
  rw [classLines, trimmedLines_append, trimmedLines_append, trimmedLines_append, hheader, hclose,
    trimmedLines_map fun a ha => trim_attributeLine (h.attributes a ha),
    trimmedLines_map fun o ho => trim_operationLine (h.operations o ho)]
  simp [writtenMembers, Function.comp_def]

/-- The lines of a class are its header, its members and a brace. -/
theorem exists_of_classLines {name : String} {features : Classifier}
    (h : PlainClassifier features) {lines : List Text.Line}
    (hlines : lines.map Text.Line.text = trimmedLines (classLines name features)) :
    ∃ header members close, lines = header :: (members ++ [close]) ∧
      header.text = headerText name ∧
      members.map Text.Line.text = (writtenMembers features).map Prod.fst ∧
      close.text = ['\x7d'] := by
  rw [trimmedLines_classLines name h] at hlines
  obtain ⟨header, body, rfl, hheader, hbody⟩ := List.map_eq_cons_iff.1 hlines
  obtain ⟨members, closing, rfl, hmembers, hclosing⟩ := List.map_eq_append_iff.1 hbody
  obtain ⟨close, rfl, hclose⟩ := List.map_eq_singleton_iff.1 hclosing
  exact ⟨header, members, close, rfl, hheader, hmembers, hclose⟩

/-! ### Lines without line feeds -/

theorem no_newline_classLines {name : String} (hname : Quotable name) {features : Classifier}
    (h : PlainClassifier features) : ∀ line ∈ classLines name features, '\n' ∉ line.toList := by
  intro line hline
  simp only [classLines, List.mem_append, List.mem_singleton, List.mem_map] at hline
  rcases hline with ((rfl | ⟨a, ha, rfl⟩) | ⟨o, ho, rfl⟩) | rfl
  · rw [toList_header]
    exact no_newline_headerText hname
  · exact no_newline_attributeLine (h.attributes a ha)
  · exact no_newline_operationLine (h.operations o ho)
  · decide

/-! ### Elements of a workspace -/

/-- Classes of a workspace, and associations between them, that can be read back. -/
structure Exportable (w : Workspace) (classes associations : List Element) : Prop where
  known : ∀ e ∈ classes ++ associations, w.element? e.id = some e
  readable : ∀ e ∈ classes, ∃ features, ReadableClass e features
  names_nodup : (classes.map Element.name).Nodup
  linked : ∀ e ∈ associations, ∃ r, ReadableLink classes e r

variable {w : Workspace} {classes associations : List Element}

theorem elementLines_class {e : Element} {features : Classifier} (h : ReadableClass e features) :
    elementLines w e = commentLines e ++ classLines e.name features := by
  simp only [elementLines, h.body_eq]

theorem elementLines_link {e : Element} {r : Relationship} (h : ReadableLink classes e r) :
    elementLines w e = commentLines e ++ [associationLine w e.name r] := by
  simp only [elementLines, h.body_eq, h.association.kind, if_true]

theorem Exportable.quotable (h : Exportable w classes associations) {c : Element}
    (hc : c ∈ classes) : Quotable c.name := by
  obtain ⟨features, hfeatures⟩ := h.readable c hc
  exact hfeatures.name

theorem Exportable.known_class (h : Exportable w classes associations) {c : Element}
    (hc : c ∈ classes) : w.element? c.id = some c :=
  h.known c (List.mem_append_left _ hc)

/-- The line of an association names the two classes that it joins. -/
theorem Exportable.toList_associationLine (h : Exportable w classes associations) {e : Element}
    {r : Relationship} (hassociation : ReadableAssociation e.name r) {left right : Element}
    (hleft : left ∈ classes) (hsource : left.id = r.source) (hright : right ∈ classes)
    (htarget : right.id = r.target) :
    (associationLine w e.name r).toList = associationText left.name right.name e.name
      r.end1.spec.multiplicity r.end2.spec.multiplicity := by
  refine Writing.toList_associationLine hassociation ?_ ?_
  · rw [← h.known_class hleft, hsource]
    rfl
  · rw [← h.known_class hright, htarget]
    rfl

theorem Exportable.no_newline_associationLine (h : Exportable w classes associations) {e : Element}
    {r : Relationship} (hlink : ReadableLink classes e r) :
    '\n' ∉ (associationLine w e.name r).toList := by
  obtain ⟨left, hleft, hsource, -⟩ := hlink.source
  obtain ⟨right, hright, htarget⟩ := hlink.target
  rw [h.toList_associationLine hlink.association hleft hsource hright htarget]
  exact no_newline_associationText (h.quotable hleft) (h.quotable hright)
    hlink.association.no_newline hlink.association.multiplicity1 hlink.association.multiplicity2

theorem Exportable.no_newline (h : Exportable w classes associations) {e : Element}
    (he : e ∈ classes ++ associations) : ∀ line ∈ elementLines w e, '\n' ∉ line.toList := by
  intro line hline
  rcases List.mem_append.1 he with he | he
  · obtain ⟨features, hclass⟩ := h.readable e he
    rw [elementLines_class hclass] at hline
    rcases List.mem_append.1 hline with hline | hline
    · exact (comment_of_mem_commentLines hclass.command hline).1
    · exact no_newline_classLines hclass.name hclass.plain line hline
  · obtain ⟨r, hlink⟩ := h.linked e he
    rw [elementLines_link hlink] at hline
    rcases List.mem_append.1 hline with hline | hline
    · exact (comment_of_mem_commentLines hlink.command hline).1
    · obtain rfl := List.mem_singleton.1 hline
      exact h.no_newline_associationLine hlink

/-- **The lines of a written text**: a marker, the lines of each element, and a marker. -/
theorem Exportable.text_locatedLines (h : Exportable w classes associations) :
    (Text.locatedLines (writeText w ((classes ++ associations).map Element.id)).toList).map
        Text.Line.text
      = trimmedLines ([startMarker] ++ classes.flatMap (elementLines w)
          ++ associations.flatMap (elementLines w) ++ [endMarker]) := by
  have helements : ((classes ++ associations).map Element.id).filterMap
      (ModelStore.element? w) = classes ++ associations := by
    rw [List.filterMap_map]
    exact (List.filterMap_congr fun e he => h.known e he).trans List.filterMap_some
  have hlines : textLines w ((classes ++ associations).map Element.id)
      = [startMarker] ++ classes.flatMap (elementLines w)
          ++ associations.flatMap (elementLines w) ++ [endMarker] := by
    rw [textLines, helements, List.flatMap_append]
    simp only [List.append_assoc]
  have hno : ∀ line ∈ textLines w ((classes ++ associations).map Element.id),
      '\n' ∉ line.toList := by
    intro line hline
    rw [textLines, helements] at hline
    simp only [List.mem_append, List.mem_singleton, List.mem_flatMap] at hline
    rcases hline with (rfl | ⟨e, he, hline⟩) | rfl
    · decide
    · exact h.no_newline (List.mem_append.2 he) line hline
    · decide
  rw [← hlines, writeText, String.toList_intercalate,
    show "\n".toList = ['\n'] from rfl, Text.map_text_locatedLines]
  · rw [trimmedLines, List.map_map]
    rfl
  · simp [textLines]
  · intro line hline
    obtain ⟨text, htext, rfl⟩ := List.mem_map.1 hline
    exact hno text htext

/-! ### What is read back -/

/-- The number that a class gets where `classes` are read into a new workspace: its place among
them, behind the project. -/
def placeOf (classes : List Element) (id : ElementId) : ElementId :=
  ⟨(classes.map Element.id).idxOf id + 1⟩

/-- What is read back of an element that was written with `classes`. -/
def readBack (classes : List Element) : Body → Body
  | .umlClass features => .umlClass (writtenFeatures features)
  | .relationship r => .relationship
    { kind := r.kind
      end1 := ⟨placeOf classes r.source, { multiplicity := r.end1.spec.multiplicity }⟩
      end2 := ⟨placeOf classes r.target, { multiplicity := r.end2.spec.multiplicity }⟩ }
  | body => body

/-- What a reader records of an association that was written with `classes`. -/
def linkBlueprint (classes : List Element) (name : String) (r : Relationship) : Blueprint :=
  writtenBlueprint (placeOf classes r.source) (placeOf classes r.target) name
    r.end1.spec.multiplicity r.end2.spec.multiplicity

/-- What a reader records of the elements that are associations. -/
def linkBlueprints (classes associations : List Element) : List Blueprint :=
  associations.filterMap fun e => e.body.relationship?.map (linkBlueprint classes e.name)

/-- A class stands at its place. -/
theorem Exportable.getElem?_place (h : Exportable w classes associations) {c : Element}
    (hc : c ∈ classes) : classes[(placeOf classes c.id).index - 1]? = some c := by
  have hmem : c.id ∈ classes.map Element.id := List.mem_map_of_mem hc
  have hid : (classes.map Element.id)[(classes.map Element.id).idxOf c.id]? = some c.id := by
    rw [List.getElem?_eq_getElem (List.idxOf_lt_length_of_mem hmem), List.getElem_idxOf]
  rw [List.getElem?_map] at hid
  obtain ⟨d, hd, hdid⟩ := Option.map_eq_some_iff.1 hid
  have hknown := h.known_class (List.mem_of_getElem? hd)
  rw [hdid, h.known_class hc] at hknown
  obtain rfl := Option.some.inj hknown
  exact hd

end Writing

end UmlText
