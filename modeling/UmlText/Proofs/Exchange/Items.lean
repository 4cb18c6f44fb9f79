import UmlText.Proofs.Exchange.Plain

/-!
# UmlText.Proofs.Exchange.Items

**What a text says, apart from the workspace it was written from.** A class is written under its
name, and an association between two names. A list of such items has a text of its own, and what is
written of a workspace that texts were imported into is the text of its items
(`writeText_eq_itemText`). So two workspaces with the same items are written as the same text.
-/

namespace UmlText

open Text (trim)

namespace Writing

/-! ### Items -/

/-- An association as it is written: between two names. -/
structure Link where
  left : String
  right : String
  name : String
  multiplicity1 : Option String
  multiplicity2 : Option String
deriving DecidableEq, Repr

namespace Link

/-- The line of an association. -/
def text (l : Link) : List Char :=
  associationText l.left l.right l.name l.multiplicity1 l.multiplicity2

/-- What the line of an association says. -/
def parts (l : Link) : Line.RelationshipLine :=
  associationParts l.left l.right l.name l.multiplicity1 l.multiplicity2

/-- What a reader records of an association if its ends stand for two elements. -/
def blueprint (l : Link) (source target : ElementId) : Blueprint :=
  writtenBlueprint source target l.name l.multiplicity1 l.multiplicity2

/-- An association that can be written. -/
structure Plain (l : Link) : Prop where
  left : Quotable l.left
  right : Quotable l.right
  trimmed : trim l.name.toList = l.name.toList
  no_newline : '\n' ∉ l.name.toList
  no_include : ¬ "<<include>>".toList <:+: l.name.toList
  no_extend : ¬ "<<extend>>".toList <:+: l.name.toList
  multiplicity1 : ∀ m ∈ l.multiplicity1, Quotable m
  multiplicity2 : ∀ m ∈ l.multiplicity2, Quotable m

theorem Plain.trim_text {l : Link} (h : l.Plain) : trim l.text = l.text :=
  trim_associationText h.left h.right h.trimmed

/-- The line of an association as a reader gets it. -/
theorem Plain.trim_line {l : Link} (h : l.Plain) : trim (String.ofList l.text).toList = l.text := by
  rw [String.toList_ofList, h.trim_text]

theorem Plain.no_newline_text {l : Link} (h : l.Plain) : '\n' ∉ l.text :=
  no_newline_associationText h.left h.right h.no_newline h.multiplicity1 h.multiplicity2

theorem Plain.relationshipLine?_text {l : Link} (h : l.Plain) :
    Line.relationshipLine? l.text = some l.parts :=
  relationshipLine?_associationText h.left h.right h.trimmed h.multiplicity1 h.multiplicity2

end Link

/-- What is written of an element. -/
inductive Item where
  | ofClass (name : String) (features : Classifier)
  | ofLink (link : Link)
deriving DecidableEq, Repr

namespace Item

/-- The lines of an item. -/
def lines : Item → List String
  | ofClass name features => classLines name features
  | ofLink link => [String.ofList link.text]

/-- An item that can be written. -/
def Plain : Item → Prop
  | ofClass name features => Quotable name ∧ PlainClassifier features
  | ofLink link => link.Plain

theorem Plain.no_newline {item : Item} (h : item.Plain) :
    ∀ line ∈ item.lines, '\n' ∉ line.toList := by
  cases item with
  | ofClass name features => exact no_newline_classLines h.1 h.2
  | ofLink link =>
      rintro _ (_ | ⟨_, ⟨⟩⟩)
      rw [String.toList_ofList]
      exact Link.Plain.no_newline_text h

end Item

/-- The lines of some items, between markers. -/
def itemLines (items : List Item) : List String :=
  [startMarker] ++ items.flatMap Item.lines ++ [endMarker]

/-- The text of some items. -/
def itemText (items : List Item) : String := "\n".intercalate (itemLines items)

section Text

variable {items : List Item}

theorem no_newline_itemLines (h : ∀ item ∈ items, item.Plain) :
    ∀ line ∈ itemLines items, '\n' ∉ line.toList := by
  intro line hline
  simp only [itemLines, List.mem_append, List.mem_singleton, List.mem_flatMap] at hline
  rcases hline with (rfl | ⟨item, hitem, hline⟩) | rfl
  · decide
  · exact (h item hitem).no_newline line hline
  · decide

theorem toList_itemText (items : List Item) :
    (itemText items).toList = ['\n'].intercalate ((itemLines items).map String.toList) := by
  rw [itemText, String.toList_intercalate]
  rfl

/-- A text is cut into the lines that it was made of. -/
theorem splitOn_itemText (h : ∀ item ∈ items, item.Plain) :
    (itemText items).toList.splitOn '\n' = (itemLines items).map String.toList := by
  rw [toList_itemText, List.splitOn_intercalate]
  · intro line hline
    obtain ⟨text, htext, rfl⟩ := List.mem_map.1 hline
    exact no_newline_itemLines h text htext
  · simp [itemLines]

theorem text_locatedLines_itemText (h : ∀ item ∈ items, item.Plain) :
    (Text.locatedLines (itemText items).toList).map Text.Line.text
      = trimmedLines (itemLines items) := by
  rw [Text.locatedLines, Text.map_text_locateFrom, splitOn_itemText h, List.map_map]
  rfl

/-- Items with the same text have the same lines. -/
theorem itemText_inj {others : List Item} (h : ∀ item ∈ items, item.Plain)
    (hothers : ∀ item ∈ others, item.Plain) :
    itemText items = itemText others ↔
      items.flatMap Item.lines = others.flatMap Item.lines := by
  constructor
  · intro heq
    have hlines : (itemLines items).map String.toList = (itemLines others).map String.toList := by
      rw [← splitOn_itemText h, ← splitOn_itemText hothers, heq]
    have hlines := List.map_injective_iff.2 (fun _ _ => String.toList_inj.1) hlines
    simpa [itemLines] using hlines
  · intro heq
    rw [itemText, itemText, itemLines, itemLines, heq]

end Text

/-! ### The items of a workspace -/

variable {w : Workspace}

/-- What is written of an element of a workspace, if anything is. -/
def itemOf? (w : Workspace) (e : Element) : Option Item :=
  match e.body with
  | .umlClass features => some (.ofClass e.name features)
  | .relationship r =>
    if r.kind = .association then do
      let left ← w.element? r.source
      let right ← w.element? r.target
      return .ofLink
        { left := left.name, right := right.name, name := e.name
          multiplicity1 := r.end1.spec.multiplicity, multiplicity2 := r.end2.spec.multiplicity }
    else none
  | _ => none

/-- What is written of some elements of a workspace. -/
def itemsOf (w : Workspace) (elements : List ElementId) : List Item :=
  (elements.filterMap w.element?).filterMap (itemOf? w)

theorem itemsOf_append (w : Workspace) (elements others : List ElementId) :
    itemsOf w (elements ++ others) = itemsOf w elements ++ itemsOf w others := by
  rw [itemsOf, List.filterMap_append, List.filterMap_append]
  rfl

theorem mem_itemsOf {item : Item} {elements : List ElementId} :
    item ∈ itemsOf w elements ↔
      ∃ id ∈ elements, ∃ e, w.element? id = some e ∧ itemOf? w e = some item := by
  simp only [itemsOf, List.mem_filterMap]
  exact ⟨fun ⟨e, ⟨id, hid, he⟩, hitem⟩ => ⟨id, hid, e, he, hitem⟩,
    fun ⟨id, hid, e, he, hitem⟩ => ⟨e, ⟨id, hid, he⟩, hitem⟩⟩

theorem itemOf?_class {e : Element} {features : Classifier} (h : e.body = .umlClass features) :
    itemOf? w e = some (.ofClass e.name features) := by
  rw [itemOf?, h]

/-- An association is written between the names of its ends. -/
theorem itemOf?_link {e left right : Element} {r : Relationship} (h : e.body = .relationship r)
    (hkind : r.kind = .association) (hleft : w.element? r.source = some left)
    (hright : w.element? r.target = some right) :
    itemOf? w e = some (.ofLink
      { left := left.name, right := right.name, name := e.name
        multiplicity1 := r.end1.spec.multiplicity
        multiplicity2 := r.end2.spec.multiplicity }) := by
  simp only [itemOf?, h, hkind, if_true, hleft, hright]
  rfl

/-- The ends of a relationship in a sound workspace are elements with a kind. -/
theorem ends_known (hlinked : w.Linked) {id : ElementId} {e : Element}
    (he : w.element? id = some e) {r : Relationship} (hbody : e.body = .relationship r) :
    (∃ left, w.element? r.source = some left ∧ left.kind?.isSome) ∧
      ∃ right, w.element? r.target = some right ∧ right.kind?.isSome := by
  have hlink := hlinked id r (by rw [Workspace.relationship?, he, Option.bind_some, hbody]; rfl)
  have hknown : ∀ end', (w.kind? end').isSome →
      ∃ e, w.element? end' = some e ∧ e.kind?.isSome := by
    intro end' hkind
    obtain ⟨kind, hkind⟩ := Option.isSome_iff_exists.1 hkind
    obtain ⟨e, he, hkind⟩ := Option.bind_eq_some_iff.1 hkind
    exact ⟨e, he, by rw [hkind]; rfl⟩
  exact ⟨hknown _ hlink.source_kind, hknown _ hlink.target_kind⟩

/-- What is written of a plain element is what its item says. -/
theorem elementLines_plain (hlinked : w.Linked) {id : ElementId} {e : Element}
    (he : w.element? id = some e) (hplain : PlainElement e) :
    elementLines w e = (itemOf? w e).toList.flatMap Item.lines := by
  have hcomments : commentLines e = [] := by
    simp [commentLines, hplain.documentation_eq, Element.tag?, hplain.tags_eq]
  cases hbody : e.body with
  | umlClass features =>
      rw [itemOf?_class hbody, elementLines, hbody, hcomments]
      simp [Item.lines]
  | relationship r =>
      by_cases hkind : r.kind = .association
      · obtain ⟨⟨left, hleft, -⟩, right, hright, -⟩ := ends_known hlinked he hbody
        have hreadable := hplain.association r (by rw [hbody]; rfl) hkind
        have hline : associationLine w e.name r
            = String.ofList (associationText left.name right.name e.name
                r.end1.spec.multiplicity r.end2.spec.multiplicity) := by
          rw [← String.toList_inj, String.toList_ofList,
            toList_associationLine hreadable hleft hright]
        rw [itemOf?_link hbody hkind hleft hright, elementLines, hbody, hcomments]
        simp [hkind, hline, Item.lines, Link.text]
      · rw [itemOf?, elementLines, hbody]
        simp [hkind]
  | project => rw [itemOf?, elementLines, hbody]; rfl
  | package => rw [itemOf?, elementLines, hbody]; rfl
  | interface _ => rw [itemOf?, elementLines, hbody]; rfl
  | enumeration _ => rw [itemOf?, elementLines, hbody]; rfl
  | actor => rw [itemOf?, elementLines, hbody]; rfl
  | useCase => rw [itemOf?, elementLines, hbody]; rfl

/-- **What is written of a workspace is the text of its items.** -/
theorem writeText_eq_itemText (hlinked : w.Linked) (hplain : w.Plain) (elements : List ElementId) :
    writeText w elements = itemText (itemsOf w elements) := by
  have hlines : (elements.filterMap w.element?).flatMap (elementLines w)
      = (itemsOf w elements).flatMap Item.lines := by
    induction elements with
    | nil => rfl
    | cons id rest ih =>
        cases he : w.element? id with
        | none => rwa [itemsOf, List.filterMap_cons_none he, ← itemsOf]
        | some e =>
            have hline := elementLines_plain hlinked he (hplain id e he)
            rw [itemsOf, List.filterMap_cons_some he, List.flatMap_cons, ih, hline]
            cases hitem : itemOf? w e with
            | none =>
                rw [List.filterMap_cons_none hitem]
                rfl
            | some item =>
                rw [List.filterMap_cons_some hitem, List.flatMap_cons, Option.toList_some,
                  List.flatMap_singleton]
                rfl
  rw [writeText, textLines, itemText, itemLines, ← hlines]
  rfl

/-- The items of a plain workspace can be written. -/
theorem plain_of_mem_itemsOf (hlinked : w.Linked) (hplain : w.Plain) {elements : List ElementId}
    {item : Item} (h : item ∈ itemsOf w elements) : item.Plain := by
  obtain ⟨id, -, e, he, hitem⟩ := mem_itemsOf.1 h
  have helement := hplain id e he
  cases hbody : e.body with
  | umlClass features =>
      rw [itemOf?_class hbody] at hitem
      obtain rfl := Option.some.inj hitem
      exact ⟨helement.name (by rw [Element.kind?, hbody]; rfl),
        helement.features features (by rw [hbody]; rfl)⟩
  | relationship r =>
      by_cases hkind : r.kind = .association
      · obtain ⟨⟨left, hleft, hleft'⟩, right, hright, hright'⟩ := ends_known hlinked he hbody
        have hreadable := helement.association r (by rw [hbody]; rfl) hkind
        rw [itemOf?_link hbody hkind hleft hright] at hitem
        obtain rfl := Option.some.inj hitem
        exact ⟨(hplain _ _ hleft).name hleft', (hplain _ _ hright).name hright',
          hreadable.trimmed, hreadable.no_newline, hreadable.no_include, hreadable.no_extend,
          hreadable.multiplicity1, hreadable.multiplicity2⟩
      · simp [itemOf?, hbody, hkind] at hitem
  | project | package | interface _ | enumeration _ | actor | useCase =>
      simp [itemOf?, hbody] at hitem

end Writing

end UmlText
