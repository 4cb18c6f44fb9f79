import Mathlib.Data.Set.List
import UmlText.Proofs.Exchange.Imported
import UmlText.Proofs.Layout.Relating
import UmlText.Proofs.Reading.Direction

/-!
# UmlText.Proofs.Exchange.Reimporting

**Importing the text of items.** Classes come back in their order with what is read of their
members, and the associations below them if every line is read as what it is
(`exportedItems_itemText`). A line that is misread records nothing, so there is an association less
than was written (`Command.length_relationships_lt`).
-/

namespace UmlText

open BackedStore (workspace)
open Writing (Item Link itemOf? itemText itemsOf standsFor)

/-! ### What a layout makes -/

section Layout

variable {w : Workspace} (diagram : DiagramId) (parsed : Parsed) (s : LayoutSettings)

/-- Elements stay below their parents. -/
theorem parent?_layout (h : w.Numbered) {id : ElementId} (hid : id.index < w.elements.length) :
    (layout w diagram parsed s).2.parent? id = w.parent? id := by
  have hplaced : id.index < (workspace (placeAll w diagram parsed s).store).elements.length ∧
      (workspace (placeAll w diagram parsed s).store).parent? id = w.parent? id :=
    placeAll_induct (motive := fun v => id.index < v.elements.length ∧ v.parent? id = w.parent? id)
      h diagram parsed s ⟨hid, rfl⟩ (fun _ _ _ _ hv _ => hv) fun _ _ _ _ hv => hv
  refine (Relationships.realize_induct
    (motive := fun v => id.index < v.elements.length ∧ v.parent? id = w.parent? id)
    _ parsed.blueprints hplaced fun v request b _ hv _ _ _ _ => ?_).2
  have hne : id ≠ ⟨v.elements.length⟩ := fun heq => Nat.ne_of_lt hv.1 (congrArg ElementId.index heq)
  refine ⟨by rw [Relationships.length_relate]; exact Nat.lt_succ_of_lt hv.1, ?_⟩
  rw [Workspace.parent?_updateElement (f := Relationships.decorate b) fun e _ =>
    (Relationships.decoration b).keeps e]
  exact (Workspace.parent?_pushElement id).trans (by rw [if_neg hne, hv.2])

theorem length_relationships_le :
    (layout w diagram parsed s).1.relationships.length ≤ parsed.blueprints.length := by
  have hcreated : (layout w diagram parsed s).1.relationships = _ :=
    (Relationships.realizes (placeAll w diagram parsed s) parsed.blueprints).created_eq
  rw [hcreated, ← Relationships.length_answers (placeAll w diagram parsed s) parsed.blueprints]
  exact List.length_filterMap_le _ _

/-- If no relationship is skipped, each blueprint has one. -/
theorem made_of_length_eq
    (h : (layout w diagram parsed s).1.relationships.length = parsed.blueprints.length) :
    List.Forall₂ (fun b view => (layout w diagram parsed s).2.element? view.model
        = some (Relationships.elementOf b view.model))
      parsed.blueprints (layout w diagram parsed s).1.relationships := by
  have hrealizes := Relationships.realizes (placeAll w diagram parsed s) parsed.blueprints
  have hanswers := Relationships.length_answers (placeAll w diagram parsed s) parsed.blueprints
  have hcreated : (layout w diagram parsed s).1.relationships = _ := hrealizes.created_eq
  have hall : Relationships.answers (placeAll w diagram parsed s) parsed.blueprints
      = (layout w diagram parsed s).1.relationships.map some := by
    rw [hcreated] at h ⊢
    have hsome := List.filterMap_length_eq_length.1 (h.trans hanswers.symm)
    rw [List.map_filterMap_some_eq_filter_map_isSome, List.map_id]
    exact (List.filter_eq_self.2 hsome).symm
  refine List.forall₂_iff_zip.2 ⟨h.symm, fun {b view} hmem => ?_⟩
  have hzip : (b, some view) ∈ parsed.blueprints.zip
      (Relationships.answers (placeAll w diagram parsed s) parsed.blueprints) := by
    rw [hall, List.zip_map_right]
    exact List.mem_map.2 ⟨_, hmem, rfl⟩
  exact (hrealizes.made _ hzip view rfl).1.element_eq

end Layout

/-! ### Exporting what was imported again -/

/-- Lists that agree in what is read off their entries. -/
theorem filterMap_eq_map_of_map_eq {α β γ δ : Type} {as : List α} {bs : List β} {f : α → γ}
    {g : β → γ} (h : as.map f = bs.map g) {item? : α → Option δ} {item : β → δ}
    (hitem : ∀ a b, f a = g b → item? a = some (item b)) : as.filterMap item? = bs.map item := by
  induction as generalizing bs with
  | nil =>
      obtain rfl := List.map_eq_nil_iff.1 h.symm
      rfl
  | cons a rest ih =>
      obtain ⟨b, others, rfl, hb, hothers⟩ := List.map_eq_cons_iff.1 h.symm
      rw [List.filterMap_cons_some (hitem a b hb.symm), ih hothers.symm, List.map_cons]

namespace Command

variable {w : Workspace}

/-- The element that was made of an association is exported as that association. -/
theorem itemOf?_elementOf {link : Link} (hplain : link.Plain) {source target : ElementId}
    {left right : Element} (hleft : w.element? source = some left)
    (hleftName : left.name = link.left) (hright : w.element? target = some right)
    (hrightName : right.name = link.right) (id : ElementId) :
    itemOf? w (Relationships.elementOf (link.blueprint source target) id)
      = some (.ofLink link) := by
  have hname : (Relationships.elementOf (link.blueprint source target) id).name = link.name :=
    Writing.elim_writtenLabel hplain.trimmed
  rw [Writing.itemOf?_link (e := Relationships.elementOf (link.blueprint source target) id) rfl rfl
    hleft hright, hname, hleftName, hrightName]
  rfl

/-- A workspace of one project and some classes in it, with relationships behind them. -/
structure Imported (w : Workspace) (classes : List (String × Classifier)) : Prop where
  tree : w.Tree
  contents_eq : ∃ project links,
    w.contents = (project, .project) :: (classes.map fun c => (c.1, .umlClass c.2)) ++ links ∧
      ∀ link ∈ links, link.2.kind? = none
  parent_eq : ∀ i < classes.length, w.parent? ⟨i + 1⟩ = some Workspace.root

namespace Imported

variable {classes : List (String × Classifier)}

/-- A class stands at its place, behind the project. -/
theorem getElem? (h : Imported w classes) {i : Nat} {c : String × Classifier}
    (hi : classes[i]? = some c) :
    ∃ e, w.element? ⟨i + 1⟩ = some e ∧ e.name = c.1 ∧ e.body = .umlClass c.2 ∧
      e.parent = some Workspace.root := by
  obtain ⟨project, links, hcontents, -⟩ := h.contents_eq
  obtain ⟨hlt, -⟩ := List.getElem?_eq_some_iff.1 hi
  have hcontent : w.contents[i + 1]? = some (c.1, .umlClass c.2) := by
    rw [hcontents, List.getElem?_append_left (by simpa using hlt), List.getElem?_cons_succ,
      List.getElem?_map, hi, Option.map_some]
  obtain ⟨e, he, hcontent⟩ := w.element?_of_contents ⟨i + 1⟩ hcontent
  obtain ⟨hname, hbody⟩ := Prod.mk.inj hcontent
  have hparent := h.parent_eq i hlt
  rw [Workspace.parent?, he, Option.bind_some] at hparent
  exact ⟨e, he, hname, hbody, hparent⟩

/-- Of the elements only the classes are chosen. -/
theorem topLevelClasses_eq (h : Imported w classes) :
    ∃ es : List Element,
      es.map (fun e => (e.name, e.body)) = classes.map (fun c => (c.1, .umlClass c.2)) ∧
      (∀ e ∈ es, w.element? e.id = some e) ∧ topLevelClasses w = es.map Element.id := by
  obtain ⟨project, links, hcontents, hlinks⟩ := h.contents_eq
  obtain ⟨front, others, helements, hfront, hothers⟩ := List.map_eq_append_iff.1 hcontents
  obtain ⟨root, es, rfl, hroot, hes⟩ := List.map_eq_cons_iff.1 hfront
  have hplace : ∀ e ∈ es, ∃ i < classes.length, w.element? ⟨i + 1⟩ = some e := by
    intro e he
    obtain ⟨i, hi, rfl⟩ := List.getElem_of_mem he
    have hlength : es.length = classes.length := by simpa using congrArg List.length hes
    refine ⟨i, hlength ▸ hi, ?_⟩
    rw [Workspace.element?, helements, List.cons_append, List.getElem?_cons_succ,
      List.getElem?_append_left hi, List.getElem?_eq_getElem hi]
  refine ⟨es, hes, fun e he => ?_, ?_⟩
  · obtain ⟨i, -, hi⟩ := hplace e he
    rw [h.tree.id_eq _ _ hi, hi]
  · have hclasses : ∀ e ∈ es, (decide (e.kind? = some .umlClass) &&
        decide (e.parent = some Workspace.root)) = true := by
      intro e he
      obtain ⟨i, hlt, hi⟩ := hplace e he
      have hcontent : (e.name, e.body) ∈ classes.map fun c => (c.1, Body.umlClass c.2) :=
        hes ▸ List.mem_map_of_mem he
      obtain ⟨c, -, hc⟩ := List.mem_map.1 hcontent
      have hparent := h.parent_eq i hlt
      rw [Workspace.parent?, hi, Option.bind_some] at hparent
      rw [Element.kind?, ← (Prod.mk.inj hc).2, hparent]
      rfl
    have hbodies : ∀ e ∈ others, e.kind? = none := fun e he =>
      hlinks (e.name, e.body) (hothers ▸ List.mem_map_of_mem he)
    have hproject : root.kind? = none := by
      rw [Element.kind?, (Prod.mk.inj hroot).2]
      rfl
    rw [topLevelClasses, helements, List.filter_append,
      List.filter_cons_of_neg (by simp [hproject]), List.filter_eq_self.2 hclasses,
      List.filter_eq_nil_iff.2 fun e he => by simp [hbodies e he], List.append_nil]

/-- All classes are exported, in their order. -/
theorem itemsOf_topLevelClasses (h : Imported w classes) :
    itemsOf w (topLevelClasses w) = classes.map fun c => .ofClass c.1 c.2 := by
  obtain ⟨es, hes, hknown, hchosen⟩ := h.topLevelClasses_eq
  have hfound : (es.map Element.id).filterMap w.element? = es := by
    rw [List.filterMap_map]
    exact (List.filterMap_congr hknown).trans List.filterMap_some
  rw [itemsOf, hchosen, hfound]
  refine filterMap_eq_map_of_map_eq hes fun e c hcontent => ?_
  obtain ⟨hname, hbody⟩ := Prod.mk.inj hcontent
  rw [Writing.itemOf?_class hbody, hname]

/-- The name of a class stands for one that is exported. -/
theorem found (h : Imported w classes) {name : String}
    (hname : name ∈ classes.map Prod.fst) :
    standsFor (classes.map Prod.fst) name ∈ topLevelClasses w ∧
      ∃ e, w.element? (standsFor (classes.map Prod.fst) name) = some e ∧ e.name = name := by
  obtain ⟨id, hid⟩ := Option.isSome_iff_exists.1 (isSome_get?_nameTable.2 hname)
  obtain ⟨i, rfl, hi⟩ := getElem?_of_get?_nameTable hid
  obtain ⟨c, hc, rfl⟩ := Option.map_eq_some_iff.1 (List.getElem?_map.symm.trans hi)
  obtain ⟨e, he, hname, hbody, hparent⟩ := h.getElem? hc
  rw [standsFor, hid, Option.getD_some]
  refine ⟨(mem_topLevelClasses h.tree).2 ⟨?_, ?_⟩, e, he, hname⟩
  · rw [Workspace.kind?, he, Option.bind_some, Element.kind?, hbody]
    rfl
  · rw [Workspace.parent?, he, Option.bind_some, hparent]

/-- The associations between classes are exported if each has its relationship. -/
theorem itemsOf_associationsAmong (h : Imported w classes) {links : List Link}
    (hplain : ∀ link ∈ links, link.Plain)
    (hknown : ∀ link ∈ links,
      link.left ∈ classes.map Prod.fst ∧ link.right ∈ classes.map Prod.fst)
    {report : LayoutReport}
    (hmade : List.Forall₂ (fun b view => w.element? view.model
        = some (Relationships.elementOf b view.model))
      (links.map fun link => link.blueprint (standsFor (classes.map Prod.fst) link.left)
        (standsFor (classes.map Prod.fst) link.right)) report.relationships) :
    itemsOf w (associationsAmong w report (topLevelClasses w)) = links.map .ofLink := by
  rw [List.forall₂_map_left_iff] at hmade
  rw [itemsOf, associationsAmong]
  generalize report.relationships = views at hmade
  -- The views are in the order of the associations, one for each.
  induction hmade with
  | nil => rfl
  | @cons link view links views hview _ ih =>
      obtain ⟨hplain, hplains⟩ := List.forall_mem_cons.1 hplain
      obtain ⟨⟨hleft, hright⟩, hknowns⟩ := List.forall_mem_cons.1 hknown
      obtain ⟨hsource, left, hleft, hleftName⟩ := h.found hleft
      obtain ⟨htarget, right, hright, hrightName⟩ := h.found hright
      have hitem := itemOf?_elementOf hplain hleft hleftName hright hrightName view.model
      rw [List.filterMap_cons_some (b := view.model), List.filterMap_cons_some hview,
        List.filterMap_cons_some hitem, ih hplains hknowns, List.map_cons]
      simp only [hview, Option.bind_eq_bind, Option.bind_some]
      exact if_pos ⟨rfl, hsource, htarget⟩

end Imported

end Command

/-! ### Classes with associations below them -/

namespace Writing

/-- Classes, and associations below them. -/
def sheet (classes : List (String × Classifier)) (links : List Link) : List Item :=
  classes.map (fun c => .ofClass c.1 c.2) ++ links.map .ofLink

variable {classes : List (String × Classifier)} {links : List Link}

theorem mem_sheet {item : Item} :
    item ∈ sheet classes links ↔
      (∃ c ∈ classes, item = .ofClass c.1 c.2) ∨ ∃ link ∈ links, item = .ofLink link := by
  simp only [sheet, List.mem_append, List.mem_map, eq_comm]

theorem lines_sheet :
    (sheet classes links).flatMap Item.lines
      = classes.flatMap (fun c => classLines c.1 c.2)
        ++ links.map fun link => String.ofList link.text := by
  rw [sheet, List.flatMap_append, List.flatMap_map, List.flatMap_map, List.map_eq_flatMap]
  rfl

theorem declares_sheet :
    (sheet classes links).flatMap Item.declares
      = classes.map fun c => (c.1, .umlClass (readFeatures c.2)) := by
  rw [sheet, List.flatMap_append, List.flatMap_map, List.flatMap_map, List.map_eq_flatMap]
  simp [Item.declares]

theorem classNames_sheet : classNames (sheet classes links) = classes.map Prod.fst := by
  rw [classNames, declares_sheet, List.map_map]
  rfl

/-- Classes record nothing. -/
theorem recorded_classes (names : List String) (classes : List (String × Classifier)) :
    recorded names (classes.map fun c => .ofClass c.1 c.2) = [] := by
  induction classes generalizing names with
  | nil => rfl
  | cons c rest ih => exact ih _

/-- Associations declare nothing. -/
theorem recorded_links (names : List String) (links : List Link) :
    recorded names (links.map .ofLink) = links.map fun link =>
      link.blueprint (standsFor names link.left) (standsFor names link.right) := by
  induction links with
  | nil => rfl
  | cons link rest ih =>
      have hnames : names ++ classNames [Item.ofLink link] = names := List.append_nil names
      rw [List.map_cons, List.map_cons, recorded, hnames, ih]
      rfl

theorem recorded_sheet :
    recorded [] (sheet classes links) = links.map fun link =>
      link.blueprint (standsFor (classes.map Prod.fst) link.left)
        (standsFor (classes.map Prod.fst) link.right) := by
  have hnames : classNames (classes.map fun c => Item.ofClass c.1 c.2) = classes.map Prod.fst := by
    have hsheet : classNames (sheet classes []) = _ := classNames_sheet
    rwa [sheet, List.map_nil, List.append_nil] at hsheet
  rw [sheet, recorded_append, recorded_classes, List.nil_append, List.nil_append, hnames,
    recorded_links]

theorem known_of_anchored_sheet (h : Anchored [] (sheet classes links)) :
    ∀ link ∈ links, link.left ∈ classes.map Prod.fst ∧ link.right ∈ classes.map Prod.fst := by
  intro link hlink
  have hanchored := h.of_mem (mem_sheet.2 (.inr ⟨link, hlink, rfl⟩))
  rwa [classNames_sheet] at hanchored

end Writing

namespace Command

open Writing (readFeatures sheet)

variable {classes : List (String × Classifier)} {links : List Link}

theorem exportedItems_nil (w : Workspace) (outcome : ImportOutcome) :
    exportedItems w outcome [] = itemsOf w (topLevelClasses w)
      ++ itemsOf w (associationsAmong w outcome.layout (topLevelClasses w)) :=
  Writing.itemsOf_append w _ _

/-- An export of all top-level classes is a sheet of them and of associations that were realized. -/
theorem exists_sheet {w : Workspace} (htree : w.Tree) (outcome : ImportOutcome) :
    ∃ classes links, exportedItems w outcome [] = sheet classes links ∧
      links.length ≤ outcome.layout.relationships.length := by
  have hclasses : itemsOf w (topLevelClasses w)
      ∈ Set.range (List.map fun c : String × Classifier => Item.ofClass c.1 c.2) := by
    rw [Set.range_list_map]
    intro item hitem
    obtain ⟨name, features, rfl⟩ := exists_ofClass_of_mem_itemsOf
      (fun _ hid => ((mem_topLevelClasses htree).1 hid).1) hitem
    exact ⟨(name, features), rfl⟩
  have hlinks : itemsOf w (associationsAmong w outcome.layout (topLevelClasses w))
      ∈ Set.range (List.map Item.ofLink) := by
    rw [Set.range_list_map]
    intro item hitem
    obtain ⟨link, -, -, rfl, -⟩ := mem_itemsOf_associationsAmong htree hitem
    exact ⟨link, rfl⟩
  obtain ⟨classes, hclasses⟩ := hclasses
  obtain ⟨links, hlinks⟩ := hlinks
  refine ⟨classes, links, by rw [exportedItems_nil, sheet, hclasses, hlinks], ?_⟩
  have hlength : links.length = (links.map Item.ofLink).length := (List.length_map _).symm
  rw [hlength, hlinks]
  exact (List.length_filterMap_le _ _).trans
    ((List.length_filterMap_le _ _).trans (List.length_filterMap_le _ _))

/-- What is parsed of a sheet: its classes below the project, and a blueprint for each of its
associations. -/
structure ParsedSheet (project : String) (diagrams : List Diagram)
    (classes : List (String × Classifier)) (links : List Link) (parsed : Parsed)
    (read : Workspace) : Prop where
  contents_eq : read.contents
    = (project, .project) :: classes.map fun c => (c.1, .umlClass (readFeatures c.2))
  parent_eq : ∀ i < classes.length, read.parent? ⟨i + 1⟩ = some Workspace.root
  diagrams_eq : read.diagrams = diagrams
  aliases_eq : parsed.aliases = nameTable (classes.map Prod.fst)
  blueprints_eq : parsed.blueprints = links.map fun link =>
    link.blueprint (standsFor (classes.map Prod.fst) link.left)
      (standsFor (classes.map Prod.fst) link.right)

theorem parsedSheet {start read : Workspace} {project : String} {parsed : Parsed}
    (hstart : start.contents = [(project, .project)])
    (hplain : ∀ item ∈ sheet classes links, item.Plain)
    (hanchored : Writing.Anchored [] (sheet classes links))
    (hread : ∀ item ∈ sheet classes links, ¬ item.Misread)
    (hparse : parse start Workspace.root (itemText (sheet classes links)) = (parsed, read)) :
    ParsedSheet project start.diagrams classes links parsed read := by
  have hprogress := Reader.HasRead.readText hstart hplain hanchored hread
  rw [Reader.HasRead, Writing.declares_sheet, Writing.recorded_sheet] at hprogress
  rw [parse] at hparse
  generalize Reader.readText start Workspace.root _ = r at hprogress hparse
  obtain ⟨rfl, rfl⟩ := Prod.mk.inj hparse
  refine ⟨hprogress.contents_eq, fun i hi => ?_, hprogress.diagrams_eq, ?_,
    hprogress.blueprints_eq⟩
  · exact hprogress.parent_eq i (by simpa using hi)
  · have haliases := hprogress.aliases_eq
    rwa [List.map_map] at haliases

/-- The ends of every blueprint are declared. -/
theorem ParsedSheet.ends_declared {project : String} {diagrams : List Diagram} {parsed : Parsed}
    {read : Workspace} (h : ParsedSheet project diagrams classes links parsed read)
    (hknown : ∀ link ∈ links,
      link.left ∈ classes.map Prod.fst ∧ link.right ∈ classes.map Prod.fst) :
    ∀ b ∈ parsed.blueprints,
      b.source ∈ parsed.uniqueElements ∧ b.target ∈ parsed.uniqueElements := by
  intro b hb
  rw [h.blueprints_eq] at hb
  obtain ⟨link, hlink, rfl⟩ := List.mem_map.1 hb
  have hdeclared : ∀ name ∈ classes.map Prod.fst,
      standsFor (classes.map Prod.fst) name ∈ parsed.uniqueElements := by
    intro name hname
    obtain ⟨id, hid⟩ := Option.isSome_iff_exists.1 (isSome_get?_nameTable.2 hname)
    rw [standsFor, hid, Option.getD_some]
    rw [← h.aliases_eq] at hid
    exact List.mem_eraseDups.2 (List.mem_map.2 ⟨_, OrderedMap.mem_of_get? hid, rfl⟩)
  exact ⟨hdeclared _ (hknown link hlink).1, hdeclared _ (hknown link hlink).2⟩

/-- What is laid out of a parsed sheet: relationships stand behind the classes. -/
theorem ParsedSheet.imported {project : String} {diagrams : List Diagram} {parsed : Parsed}
    {read : Workspace} (h : ParsedSheet project diagrams classes links parsed read)
    (hnumbered : read.Numbered) {diagram : DiagramId} {s : LayoutSettings}
    (hcontents : (layout read diagram parsed s).2.contents
      = read.contents ++ parsed.blueprints.map Relationships.content)
    {copy : Workspace} (htree : copy.Tree)
    (hcopy : copy.elements = (layout read diagram parsed s).2.elements) :
    Imported copy (classes.map fun c => (c.1, readFeatures c.2)) := by
  refine ⟨htree, ⟨project, parsed.blueprints.map Relationships.content, ?_, ?_⟩, fun i hi => ?_⟩
  · rw [Workspace.contents, hcopy, ← Workspace.contents, hcontents, h.contents_eq, List.map_map]
    rfl
  · intro link hlink
    obtain ⟨b, -, rfl⟩ := List.mem_map.1 hlink
    rfl
  · have hi : i < classes.length := by simpa using hi
    have hlt : i + 1 < read.elements.length := by
      rw [← Workspace.length_contents, h.contents_eq]
      simpa using hi
    rw [Workspace.parent?, Workspace.element?, hcopy, ← Workspace.element?, ← Workspace.parent?,
      parent?_layout diagram parsed s hnumbered hlt, h.parent_eq i hi]

/-- **A sheet that is read as it was written** is exported again with what was read of its
classes. -/
theorem exportedItems_itemText (hplain : ∀ item ∈ sheet classes links, item.Plain)
    (hanchored : Writing.Anchored [] (sheet classes links))
    (hread : ∀ item ∈ sheet classes links, ¬ item.Misread) (project : String)
    (s : LayoutSettings) :
    let copy := importText (Workspace.new project) (itemText (sheet classes links)) s
    exportedItems copy.2 copy.1 []
      = sheet (classes.map fun c => (c.1, readFeatures c.2)) links := by
  intro copy
  have htree : copy.2.Tree := (reachable_importText (.new project) _ s).sound.tree
  have hknown := Writing.known_of_anchored_sheet hanchored
  have hnames : (classes.map fun c => (c.1, readFeatures c.2)).map Prod.fst
      = classes.map Prod.fst := by
    rw [List.map_map]
    rfl
  obtain ⟨start, parsed, read, hreachable, helements, hdiagram, hparse, hcopy⟩ :=
    importText_new project (itemText (sheet classes links)) s
  have hparsed := parsedSheet (contents_of_elements_new helements) hplain hanchored hread hparse
  obtain ⟨hstore, hkinds⟩ :=
    declares_parse (show (workspace start).Reachable from hreachable) hparse
  have hnumbered : read.Numbered := hstore.numbered
  obtain ⟨-, -, hlength, hcontents⟩ := layout_granted (w := read) hnumbered
    (by rwa [Workspace.diagram?, hparsed.diagrams_eq]) hkinds (hparsed.ends_declared hknown) s
  -- No blueprint is skipped, so every association has an element that was made of it.
  have hmade := made_of_length_eq ⟨0⟩ parsed s hlength
  rw [hparsed.blueprints_eq, ← hnames] at hmade
  have himported := hparsed.imported hnumbered hcontents htree
    (by simp only [copy, hcopy]; rfl)
  have hlinks : itemsOf copy.2 (associationsAmong copy.2 copy.1.layout (topLevelClasses copy.2))
      = links.map .ofLink := by
    refine himported.itemsOf_associationsAmong (fun link hlink =>
      hplain _ (Writing.mem_sheet.2 (.inr ⟨link, hlink, rfl⟩))) (hnames ▸ hknown) ?_
    simp only [copy, hcopy]
    exact hmade
  rw [exportedItems_nil, himported.itemsOf_topLevelClasses, hlinks]
  rfl

end Command

/-! ### Associations that are not read back -/

namespace Reader

theorem length_blueprints_step (r : Reader Workspace) (line : Text.Line) :
    (r.step line).blueprints.length ≤ r.blueprints.length + 1 := by
  rw [blueprints_step, List.length_append]
  cases r.recording? line <;> simp

theorem blueprints_step_of_unrelated {r : Reader Workspace} {line : Text.Line}
    (h : r.Unrelated line) : (r.step line).blueprints = r.blueprints := by
  rw [blueprints_step, recording?]
  split
  · next parts hparts => exact absurd hparts (h parts)
  · simp

/-- Each line records one blueprint at most. -/
theorem length_blueprints_readLines (r : Reader Workspace) (lines : List Text.Line) :
    (r.readLines lines).blueprints.length ≤ r.blueprints.length + lines.length := by
  induction lines generalizing r with
  | nil => exact Nat.le_refl _
  | cons line rest ih =>
      have hstep := r.length_blueprints_step line
      have hrest := ih (r.step line)
      rw [readLines_cons, List.length_cons]
      omega

/-- The lines of classes record none. -/
theorem blueprints_classes {classes : List (String × Classifier)}
    (hplain : ∀ c ∈ classes, (Item.ofClass c.1 c.2).Plain) {lines : List Text.Line}
    (hlines : lines.map Text.Line.text
      = Writing.trimmedLines (classes.flatMap fun c => Writing.classLines c.1 c.2))
    (r : Reader Workspace) : (r.readLines lines).blueprints = r.blueprints := by
  induction classes generalizing r lines with
  | nil =>
      obtain rfl := List.map_eq_nil_iff.1 hlines
      rfl
  | cons c rest ih =>
      rw [List.flatMap_cons, Writing.trimmedLines_append] at hlines
      obtain ⟨first, others, rfl, hfirst, hothers⟩ := List.map_eq_append_iff.1 hlines
      obtain ⟨⟨hname, hfeatures⟩, hplains⟩ := List.forall_mem_cons.1 hplain
      obtain ⟨header, body, rfl, hheader, hbody⟩ := classLines_induct
        (fun _ _ hunrelated (hr : _ = r.blueprints) =>
          (blueprints_step_of_unrelated hunrelated).trans hr) hfeatures hfirst
      obtain ⟨hunrelated, -, hopened⟩ := r.step_header hname hheader
      rw [readLines_append, ih hplains hothers, readLines_cons]
      exact hbody _ hopened (blueprints_step_of_unrelated hunrelated)

/-- **A misread association is lost**: fewer are recorded than were written. -/
theorem length_blueprints_lt {classes : List (String × Classifier)} {links : List Link}
    (hplain : ∀ item ∈ Writing.sheet classes links, item.Plain) {link : Link}
    (hlink : link ∈ links) (hmisread : link.Misread) {lines : List Text.Line}
    (hlines : lines.map Text.Line.text
      = Writing.trimmedLines ((Writing.sheet classes links).flatMap Item.lines))
    (r : Reader Workspace) :
    (r.readLines lines).blueprints.length < r.blueprints.length + links.length := by
  -- Whatever the misread line opens or declares, no line records more than one blueprint.
  obtain ⟨before, after, rfl⟩ := List.append_of_mem hlink
  rw [Writing.lines_sheet, Writing.trimmedLines_append, List.map_append, List.map_cons,
    Writing.trimmedLines_append] at hlines
  obtain ⟨first, others, rfl, hfirst, hothers⟩ := List.map_eq_append_iff.1 hlines
  obtain ⟨above, rest, rfl, habove, hrest⟩ := List.map_eq_append_iff.1 hothers
  obtain ⟨line, below, rfl, hline, hbelow⟩ := List.map_eq_cons_iff.1 hrest
  have hclasses := blueprints_classes (fun c hc =>
    hplain _ (Writing.mem_sheet.2 (.inl ⟨c, hc, rfl⟩))) hfirst r
  have hplain : link.Plain := hplain _ (Writing.mem_sheet.2 (.inr ⟨link, hlink, rfl⟩))
  have htext : line.text = link.text := hline.trans hplain.trim_line
  have hlengths : above.length = before.length ∧ below.length = after.length := by
    have habove := congrArg List.length habove
    have hbelow := congrArg List.length hbelow
    simpa [Writing.trimmedLines] using And.intro habove hbelow
  have hlost : ∀ r : Reader Workspace, (r.step line).blueprints = r.blueprints := fun r =>
    blueprints_step_of_unrelated fun parts hparts =>
      Writing.not_relationship_of_misread hplain hmisread parts
        (htext ▸ (LineShape.of_eq_relationship hparts).1)
  have hupper := (r.readLines first).length_blueprints_readLines above
  have hlower := (((r.readLines first).readLines above).step line).length_blueprints_readLines below
  rw [hlost] at hlower
  rw [readLines_append, readLines_append, readLines_cons, List.length_append, List.length_cons]
  rw [hclasses] at hupper
  omega

end Reader

/-- Fewer associations are realized than were written, if one is misread. -/
theorem Command.length_relationships_lt {classes : List (String × Classifier)} {links : List Link}
    (hplain : ∀ item ∈ Writing.sheet classes links, item.Plain) {link : Link}
    (hlink : link ∈ links) (hmisread : link.Misread) (project : String) (s : LayoutSettings) :
    let copy := importText (Workspace.new project) (itemText (Writing.sheet classes links)) s
    copy.1.layout.relationships.length < links.length := by
  intro copy
  obtain ⟨start, parsed, read, -, -, -, hparse, hcopy⟩ :=
    importText_new project (itemText (Writing.sheet classes links)) s
  obtain ⟨body, hbody, htext⟩ := Reader.readText_itemText hplain start Workspace.root
  have hblueprints : parsed.blueprints
      = (({ store := start, root := Workspace.root } : Reader Workspace).readLines
          body).blueprints := by
    rw [parse, htext] at hparse
    exact congrArg Parsed.blueprints (Prod.mk.inj hparse).1.symm
  have hlt := Reader.length_blueprints_lt hplain hlink hmisread hbody
    { store := start, root := Workspace.root }
  have hle := length_relationships_le (w := read) ⟨0⟩ parsed s
  rw [hblueprints] at hle
  simp only [copy, hcopy]
  exact Nat.lt_of_le_of_lt hle (by simpa using hlt)

end UmlText
