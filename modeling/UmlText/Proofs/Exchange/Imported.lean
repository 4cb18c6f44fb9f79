import UmlText.Command
import UmlText.Proofs.Exchange.Rereading
import UmlText.Proofs.Exchange.RoundTrip
import UmlText.Proofs.Import.Independence

/-!
# UmlText.Proofs.Exchange.Imported

**What an export writes.** A text is imported into a new workspace, so everything in it was made by
the text, and what is exported is the text of some items: those of the chosen elements, and those of
the associations among them (`exportedText_eq_itemText`).
-/

namespace UmlText

open BackedStore (workspace)
open Writing (Item Link itemOf? itemText itemsOf)

/-! ### Importing into a new workspace -/

theorem plain_new (project : String) : (Workspace.new project).Plain := by
  rintro ⟨i⟩ e he
  cases i with
  | zero =>
      obtain rfl := Option.some.inj he
      exact .project _ _
  | succ i => cases he

/-- What an import makes is plain. -/
theorem plain_importText (project text : String) (s : LayoutSettings) :
    (importText (Workspace.new project) text s).2.Plain := by
  obtain ⟨start, parsed, read, hreachable, helements, -, hparse, himport⟩ :=
    importText_new project text s
  have hstart : start.Plain := by
    intro id e he
    rw [Workspace.element?, helements] at he
    exact plain_new project id e he
  obtain ⟨hread, hblueprints⟩ := plain_parse (σ := Workspace) hstart hparse
  have hreachable := (declares_parse (σ := Workspace) hreachable hparse).1
  rw [himport]
  exact plain_layout (σ := Workspace) hreachable hread ⟨0⟩ hblueprints s

/-! ### Exported items -/

namespace Command

/-- Without names, the classes below the project are chosen. -/
theorem mem_topLevelClasses {w : Workspace} (htree : w.Tree) {id : ElementId} :
    id ∈ topLevelClasses w ↔
      w.kind? id = some .umlClass ∧ w.parent? id = some Workspace.root := by
  refine ⟨fun h => ?_, fun ⟨hkind, hparent⟩ => ?_⟩
  · obtain ⟨e, he, rfl⟩ := List.mem_map.1 h
    obtain ⟨hmem, hclass⟩ := List.mem_filter.1 he
    obtain ⟨i, hi, hindex⟩ := List.getElem_of_mem hmem
    have helement : w.element? ⟨i⟩ = some e := by
      rw [Workspace.element?, List.getElem?_eq_getElem hi, hindex]
    rw [htree.id_eq _ _ helement, Workspace.kind?, Workspace.parent?, helement]
    simpa using hclass
  · obtain ⟨e, he, hkind⟩ := Option.bind_eq_some_iff.1 hkind
    have hid := htree.id_eq _ _ he
    rw [Workspace.parent?, he, Option.bind_some] at hparent
    refine List.mem_map.2 ⟨e, List.mem_filter.2 ⟨List.mem_of_getElem? he, ?_⟩, hid⟩
    simp [hkind, hparent]

/-- The elements that an export chooses: those with the given names, or all top-level classes. -/
def chosen (w : Workspace) (outcome : ImportOutcome) (names : List String) : List ElementId :=
  if names.isEmpty then topLevelClasses w else names.filterMap (findNamed? w outcome.parsed)

theorem exportSelectionOf_eq (w : Workspace) (outcome : ImportOutcome) (names : List String) :
    exportSelectionOf w outcome names
      = chosen w outcome names ++ associationsAmong w outcome.layout (chosen w outcome names) :=
  rfl

/-- What an export writes, item by item. -/
def exportedItems (w : Workspace) (outcome : ImportOutcome) (names : List String) : List Item :=
  itemsOf w (exportSelectionOf w outcome names)

/-- **What an export writes is the text of its items**, and they can be written. -/
theorem exportedText_eq_itemText (project text : String) (s : LayoutSettings)
    (names : List String) :
    let done := importText (Workspace.new project) text s
    exportedText done.2 done.1 names = itemText (exportedItems done.2 done.1 names) ∧
      ∀ item ∈ exportedItems done.2 done.1 names, item.Plain := by
  intro done
  have hplain : done.2.Plain := plain_importText project text s
  have hlinked := (reachable_importText (.new project) text s).sound.linked
  exact ⟨Writing.writeText_eq_itemText hlinked hplain _, fun item hitem =>
    Writing.plain_of_mem_itemsOf hlinked hplain hitem⟩

variable {w : Workspace} {selected : List ElementId}

/-- An exported association stands for an element that joins two selected ones. -/
theorem mem_itemsOf_associationsAmong (htree : w.Tree) {report : LayoutReport} {item : Item}
    (h : item ∈ itemsOf w (associationsAmong w report selected)) :
    ∃ link left right, item = .ofLink link ∧
      (∃ id ∈ selected, w.element? id = some left ∧ left.name = link.left) ∧
      ∃ id ∈ selected, w.element? id = some right ∧ right.name = link.right := by
  obtain ⟨id, hid, e, he, hitem⟩ := Writing.mem_itemsOf.1 h
  obtain ⟨view, -, hview⟩ := List.mem_filterMap.1 hid
  simp only [Option.bind_eq_bind, Option.bind_eq_some_iff] at hview
  obtain ⟨element, helement, r, hr, hview⟩ := hview
  split at hview
  · next hjoins =>
      obtain rfl := Option.some.inj hview
      rw [htree.id_eq _ _ helement, helement] at he
      obtain rfl := Option.some.inj he
      have hbody : element.body = .relationship r := by
        cases hbody : element.body <;> rw [hbody] at hr <;> cases hr
        rfl
      simp only [itemOf?, hbody, hjoins.1, if_true, Option.bind_eq_bind,
        Option.bind_eq_some_iff] at hitem
      obtain ⟨left, hleft, right, hright, hitem⟩ := hitem
      obtain rfl := Option.some.inj hitem
      exact ⟨_, left, right, rfl, ⟨_, hjoins.2.1, hleft, rfl⟩, _, hjoins.2.2, hright, rfl⟩
  · cases hview

/-- A selected class is declared under its name. -/
theorem name_mem_classNames {id : ElementId} (hid : id ∈ selected) {e : Element}
    (he : w.element? id = some e) (hkind : e.kind? = some .umlClass) :
    e.name ∈ Writing.classNames (itemsOf w selected) := by
  obtain ⟨features, hbody⟩ : ∃ features, e.body = .umlClass features := by
    rw [Element.kind?] at hkind
    cases hbody : e.body <;> rw [hbody] at hkind <;> cases hkind
    exact ⟨_, rfl⟩
  have hitem : Item.ofClass e.name features ∈ itemsOf w selected :=
    Writing.mem_itemsOf.2 ⟨id, hid, e, he, Writing.itemOf?_class hbody⟩
  exact List.mem_map.2 ⟨_, List.mem_flatMap.2 ⟨_, hitem, List.mem_singleton_self _⟩, rfl⟩

/-- The item of a class. -/
theorem exists_ofClass_of_mem_itemsOf (h : ∀ id ∈ selected, w.kind? id = some .umlClass)
    {item : Item} (hitem : item ∈ itemsOf w selected) :
    ∃ name features, item = .ofClass name features := by
  obtain ⟨id, hid, e, he, hitem⟩ := Writing.mem_itemsOf.1 hitem
  have hkind := h id hid
  rw [Workspace.kind?, he, Option.bind_some, Element.kind?] at hkind
  cases hbody : e.body <;> rw [hbody] at hkind <;> cases hkind
  rw [Writing.itemOf?_class hbody] at hitem
  exact ⟨_, _, (Option.some.inj hitem).symm⟩

/-- **Where classes are chosen, every association stands below the classes that it names.** -/
theorem anchored_exportedItems (htree : w.Tree) {outcome : ImportOutcome} {names : List String}
    (h : ∀ id ∈ chosen w outcome names, w.kind? id = some .umlClass) :
    Writing.Anchored [] (exportedItems w outcome names) := by
  rw [exportedItems, exportSelectionOf_eq, Writing.itemsOf_append, Writing.anchored_append]
  refine ⟨Writing.anchored_of_forall fun item hitem => ?_,
    Writing.anchored_of_forall fun item hitem => ?_⟩
  · obtain ⟨name, features, rfl⟩ := exists_ofClass_of_mem_itemsOf h hitem
    trivial
  · obtain ⟨link, left, right, rfl, ⟨id, hid, he, hleft⟩, id', hid', he', hright⟩ :=
      mem_itemsOf_associationsAmong htree hitem
    have hdeclared : ∀ (id : ElementId) (e : Element), id ∈ chosen w outcome names →
        w.element? id = some e →
        e.name ∈ [] ++ Writing.classNames (itemsOf w (chosen w outcome names)) := by
      intro id e hid he
      have hkind := h id hid
      rw [Workspace.kind?, he, Option.bind_some] at hkind
      exact name_mem_classNames hid he hkind
    exact ⟨hleft ▸ hdeclared id left hid he, hright ▸ hdeclared id' right hid' he'⟩

end Command

end UmlText
