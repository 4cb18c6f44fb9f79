import UmlText.Proofs.Exchange.Imported
import UmlText.Proofs.Reading.Grafting
import UmlText.Proofs.Reading.Outcomes

/-!
# UmlText.Proofs.Exchange.Dangling

**Which exported associations dangle.** Below the headers of classes a reader knows their names,
whatever the lines between say, so it reports no end of an association that stands below the classes
it names (`Knows.readItems`). An association that names anything else is reported, as soon as its
line is read as one. An export writes such an association where a chosen element is no class.
-/

namespace UmlText

open Writing (Item itemText)

/-! ### Knowing names -/

/-- A workspace of one project is a ground for itself. -/
theorem Workspace.Ground.new :
    (Workspace.new).Ground ⟨id, id, id, Function.injective_id, Function.injective_id,
      Function.injective_id⟩ where
  numbered := (Workspace.Reachable.new _).numbered
  element_succ i := congrArg ElementId.mk (Nat.add_comm i 1)
  view_eq i := congrArg ViewId.mk (Nat.zero_add i).symm
  parent_node := ⟨_, rfl, rfl⟩

namespace Reader

theorem Rooted.step {r : Reader Workspace} (h : r.Rooted) (line : Text.Line) :
    (r.step line).Rooted :=
  (step_graft Workspace.Ground.new h line).1

/-- The report of a name that nothing was declared under. -/
def IsUnresolved (d : Diagnostic) : Prop := d.code = some .w101

/-- A reader that knows some names, and has met none that it did not know. -/
structure Knows (names : List String) (r : Reader Workspace) : Prop where
  rooted : r.Rooted
  entered : names ⊆ r.aliases.keys
  resolved : ∀ d ∈ r.diagnostics, ¬ IsUnresolved d

/-- A reader that came out of another one without an unresolved name. -/
structure Follows (r r' : Reader Workspace) : Prop where
  entered : r.aliases.keys ⊆ r'.aliases.keys
  resolved : ∀ d ∈ r'.diagnostics, d ∈ r.diagnostics ∨ ¬ IsUnresolved d

namespace Follows

variable {r : Reader Workspace}

/-- Nothing was entered or reported. -/
theorem of_eq {r' : Reader Workspace} (haliases : r'.aliases = r.aliases)
    (hdiagnostics : r'.diagnostics = r.diagnostics) : Follows r r' :=
  ⟨by rw [haliases]; exact List.Subset.refl _, fun d hd => .inl (hdiagnostics ▸ hd)⟩

/-- One issue was reported that is no unresolved name. -/
theorem of_report {r' : Reader Workspace} (haliases : r'.aliases = r.aliases) {issue : Issue}
    {span : Text.Span} (hdiagnostics : r'.diagnostics = r.diagnostics ++ [issue.diagnostic span])
    (hissue : ¬ IsUnresolved (issue.diagnostic span)) : Follows r r' := by
  refine ⟨by rw [haliases]; exact List.Subset.refl _, fun d hd => ?_⟩
  rw [hdiagnostics] at hd
  rcases List.mem_append.1 hd with hd | hd
  · exact .inl hd
  · obtain rfl := List.mem_singleton.1 hd
    exact .inr hissue

end Follows

theorem keys_subset_insert (m : OrderedMap String ElementId) (name : String) (id : ElementId) :
    m.keys ⊆ (m.insert name id).keys ∧ name ∈ (m.insert name id).keys := by
  rw [OrderedMap.keys_insert]
  split
  · next h => exact ⟨List.Subset.refl _, h⟩
  · exact ⟨List.subset_append_left _ _, by simp⟩

theorem keys_subset_enter (m : OrderedMap String ElementId) (aliasName : Option String)
    (name : String) (id : ElementId) :
    m.keys ⊆ (enter m aliasName name id).keys ∧ name ∈ (enter m aliasName name id).keys := by
  rw [enter]
  refine ⟨?_, (keys_subset_insert _ name id).2⟩
  cases aliasName with
  | none => exact (keys_subset_insert m name id).1
  | some aliasName =>
      exact List.Subset.trans (keys_subset_insert m aliasName id).1 (keys_subset_insert _ name id).1

variable {names : List String} {r : Reader Workspace}

/-- A name that is entered stands for an element. -/
theorem Knows.resolve? (h : r.Knows names) {name : String} (hname : name ∈ names) :
    ∃ found, r.resolve? name = some found := by
  obtain ⟨id, hid⟩ := Option.isSome_iff_exists.1 (Option.ne_none_iff_isSome.1 fun hnone =>
    OrderedMap.get?_eq_none_iff.1 hnone (h.entered hname))
  obtain ⟨kind, hkind⟩ := Option.isSome_iff_exists.1
    (h.rooted.alias_kind id (List.mem_map.2 ⟨_, OrderedMap.mem_of_get? hid, rfl⟩))
  have hkind : ModelStore.kind? r.store id = some kind := hkind
  refine ⟨(id, kind), ?_⟩
  simp only [Reader.resolve?, hid, hkind, Option.bind_eq_bind, Option.bind_some]
  rfl

/-- A line whose operands are known if it is a relationship. -/
def Resolves (names : List String) (r : Reader Workspace) (line : Text.Line) : Prop :=
  ∀ parts, LineShape.of r.body.isSome line.text = .relationship parts →
    parts.left ∈ names ∧ parts.right ∈ names

theorem follows_step (h : r.Knows names) {line : Text.Line} (hline : Resolves names r line) :
    Follows r (r.step line) := by
  rw [step]
  cases hshape : LineShape.of r.body.isSome line.text with
  | ignored => exact .of_eq rfl rfl
  | member =>
      rcases r.addMember_cases line.span line.text with ⟨-, hread⟩ | ⟨id, kind, -, -, hread⟩ |
        ⟨id, kind, member, error, store, -, -, -, hread⟩ |
        ⟨id, kind, member, store, -, -, -, hread⟩ <;> simp only [hread]
      · exact .of_eq rfl rfl
      · exact .of_report rfl rfl (by rintro ⟨⟩)
      · exact .of_report rfl rfl (by rintro ⟨⟩)
      · exact .of_eq rfl rfl
  | package header =>
      rcases r.openPackage_cases line.span header with
        ⟨error, store, -, hread⟩ | ⟨id, store, -, hread⟩ <;> simp only [hread]
      · exact .of_report rfl rfl (by rintro ⟨⟩)
      · exact ⟨(keys_subset_insert _ _ id).1, fun _ => .inl⟩
  | entity header =>
      rcases r.openEntity_cases line.span header with
        ⟨error, store, -, hread⟩ | ⟨id, store, -, hread⟩ <;> simp only [hread]
      · exact .of_report rfl rfl (by rintro ⟨⟩)
      · exact ⟨(keys_subset_enter _ _ _ id).1, fun _ => .inl⟩
  | close =>
      rcases r.closeBlock_cases line.span with ⟨-, hclose⟩ | ⟨_, body, containers, hclose, -⟩ <;>
        simp only [hclose]
      · exact .of_report rfl rfl (by rintro ⟨⟩)
      · exact .of_eq rfl rfl
  | relationship parts =>
      obtain ⟨hleft, hright⟩ := hline parts hshape
      obtain ⟨left, hleft⟩ := h.resolve? hleft
      obtain ⟨right, hright⟩ := h.resolve? hright
      simp only [relate, hleft, hright]
      split
      · exact .of_report rfl rfl (by rintro ⟨⟩)
      · exact .of_eq rfl rfl
  | unknown => exact .of_report rfl rfl (by rintro ⟨⟩)

namespace Knows

/-- **One line** whose operands are known, if it has any. -/
theorem step (h : r.Knows names) {line : Text.Line} (hline : Resolves names r line) :
    (r.step line).Knows names := by
  have hfollows := follows_step h hline
  refine ⟨h.rooted.step line, List.Subset.trans h.entered hfollows.entered, fun d hd => ?_⟩
  rcases hfollows.resolved d hd with hd | hd
  · exact h.resolved d hd
  · exact hd

theorem pass (h : r.Knows names) {line : Text.Line} (hline : r.Unrelated line) :
    (r.step line).Knows names :=
  h.step fun parts hparts => absurd hparts (hline parts)

/-- The header of a class enters its name, whatever is open. -/
theorem header (h : r.Knows names) {name : String} (hname : Writing.Quotable name)
    {line : Text.Line} (hline : line.text = Writing.headerText name) :
    (r.step line).Knows (names ++ [name]) := by
  obtain ⟨hunrelated, hstep, -⟩ := r.step_header hname hline
  have hknown := h.pass hunrelated
  obtain ⟨owner, howner, hnode⟩ := h.rooted.sprout.owner_of_holds h.rooted.parent_holds
  have hgranted : ModelStore.createElement r.store
      { kind := .umlClass, parent := r.parent, name, isAbstract := false } = _ :=
    Workspace.createElement_granted howner hnode
  have hopen : r.openEntity line.span (Writing.classHeader name) = _ :=
    openEntity_granted hgranted line.span
  rw [hstep, hopen] at hknown ⊢
  refine ⟨hknown.rooted, fun other hother => ?_, hknown.resolved⟩
  rcases List.mem_append.1 hother with hother | hother
  · exact hknown.entered hother
  · obtain rfl := List.mem_singleton.1 hother
    exact (keys_subset_enter _ _ _ _).2

/-- The lines of a class enter its name. -/
theorem classLines (h : r.Knows names) {name : String} (hname : Writing.Quotable name)
    {features : Classifier} (hfeatures : Writing.PlainClassifier features) {lines : List Text.Line}
    (hlines : lines.map Text.Line.text
      = Writing.trimmedLines (Writing.classLines name features)) :
    (r.readLines lines).Knows (names ++ [name]) := by
  obtain ⟨header, body, rfl, hheader, hbody⟩ := classLines_induct
    (fun _ _ hline (hr : Knows (names ++ [name]) _) => hr.pass hline) hfeatures hlines
  rw [readLines_cons]
  exact hbody _ (r.step_header hname hheader).2.2 (h.header hname hheader)

/-- **The lines of items** that are anchored, whatever is read in the line of an association. -/
theorem readItems (h : r.Knows names) {items : List Item} (hplain : ∀ item ∈ items, item.Plain)
    (hanchored : Writing.Anchored names items) {lines : List Text.Line}
    (hlines : lines.map Text.Line.text = Writing.trimmedLines (items.flatMap Item.lines)) :
    (r.readLines lines).Knows (names ++ Writing.classNames items) := by
  induction items generalizing names r lines with
  | nil =>
      obtain rfl := List.map_eq_nil_iff.1 hlines
      exact (List.append_nil names).symm ▸ h
  | cons item rest ih =>
      rw [List.flatMap_cons, Writing.trimmedLines_append] at hlines
      obtain ⟨first, others, rfl, hfirst, hothers⟩ := List.map_eq_append_iff.1 hlines
      obtain ⟨hplain, hplains⟩ := List.forall_mem_cons.1 hplain
      have hread : (r.readLines first).Knows (names ++ Writing.classNames [item]) := by
        cases item with
        | ofClass name features => exact h.classLines hplain.1 hplain.2 hfirst
        | ofLink link =>
            obtain ⟨line, rfl, hline⟩ := List.map_eq_singleton_iff.1 hfirst
            have htext : line.text = link.text := hline.trans (Writing.Link.Plain.trim_line hplain)
            have hnames : names ++ Writing.classNames [Item.ofLink link] = names :=
              List.append_nil names
            rw [hnames]
            refine h.step fun parts hparts => ?_
            have hrelationship := (LineShape.of_eq_relationship hparts).2
            rw [htext, Writing.Link.Plain.relationshipLine?_text hplain] at hrelationship
            obtain rfl := Option.some.inj hrelationship
            exact hanchored.1
      have hrest := ih hread hplains hanchored.2 hothers
      rw [List.append_assoc, ← Writing.classNames_append, List.singleton_append] at hrest
      rw [readLines_append]
      exact hrest

/-- A workspace of one project knows no names. -/
theorem start {w : Workspace} (hreachable : w.Reachable) {project : String}
    (helements : w.elements = (Workspace.new project).elements) :
    ({ store := w, root := Workspace.root } : Reader Workspace).Knows [] := by
  refine ⟨⟨⟨by rw [Workspace.element?, helements]; rfl, hreachable.numbered⟩, ?_, rfl, by simp,
    by simp, by simp [OrderedMap.values]⟩, by simp, by simp⟩
  rintro ⟨i⟩ hid hknown
  rw [Workspace.element?, helements] at hknown
  cases i with
  | zero => exact absurd rfl hid
  | succ i => cases hknown

/-- **A text of anchored items** has no unresolved name. -/
theorem readText {w : Workspace} (hreachable : w.Reachable) {project : String}
    (helements : w.elements = (Workspace.new project).elements) {items : List Item}
    (hplain : ∀ item ∈ items, item.Plain) (hanchored : Writing.Anchored [] items) :
    ∀ d ∈ (Reader.readText w Workspace.root (itemText items).toList).diagnostics,
      ¬ IsUnresolved d := by
  obtain ⟨body, hbody, htext⟩ := readText_itemText hplain w Workspace.root
  have hread := (start hreachable helements).readItems hplain hanchored hbody
  intro d hd
  rw [htext] at hd
  rcases List.mem_append.1 hd with hd | hd
  · exact hread.resolved d hd
  · obtain ⟨opened, -, rfl⟩ := List.mem_map.1 hd
    rintro ⟨⟩

end Knows

/-! ### Dangling associations -/

/-- A report stays. -/
theorem diagnostics_step (r : Reader Workspace) (line : Text.Line) :
    r.diagnostics <+: (r.step line).diagnostics := by
  cases hignored : Line.isIgnored line.text with
  | true =>
      rw [step_of_isIgnored hignored]
  | false =>
      obtain ⟨o, ho⟩ := r.exists_outcome hignored
      cases o with
      | created => exact ho.2.2 ▸ List.prefix_rfl
      | added =>
          obtain ⟨store, hstep, -⟩ := ho
          exact hstep ▸ List.prefix_rfl
      | recorded =>
          obtain ⟨blueprint, hstep⟩ := ho
          exact hstep ▸ List.prefix_rfl
      | closed =>
          obtain ⟨opened, body, containers, hstep, -⟩ := ho
          exact hstep ▸ List.prefix_rfl
      | dropped => rw [ho.2]
      | reported =>
          obtain ⟨⟨d, -, hdiagnostics⟩, -⟩ := ho
          exact hdiagnostics ▸ List.prefix_append _ _

theorem diagnostics_readLines (r : Reader Workspace) (lines : List Text.Line) :
    r.diagnostics <+: (r.readLines lines).diagnostics :=
  readLines_induct (motive := fun last => r.diagnostics <+: last.diagnostics)
    (fun last line _ hlast => hlast.trans (last.diagnostics_step line)) List.prefix_rfl

/-- **An association that is read as one is reported** if it names an end that no class above it
has. -/
theorem exists_unresolved {store : Workspace} {project : String}
    (hstore : store.contents = [(project, .project)]) {items : List Item}
    (hplain : ∀ item ∈ items, item.Plain) (hread : ∀ item ∈ items, ¬ item.Misread)
    (hdangling : ¬ Writing.Anchored [] items) :
    ∃ d ∈ (Reader.readText store Workspace.root (itemText items).toList).diagnostics,
      IsUnresolved d := by
  obtain ⟨body, hbody, htext⟩ := readText_itemText hplain store Workspace.root
  obtain ⟨before, item, after, rfl, hbefore, hitem⟩ := Writing.exists_of_not_anchored hdangling
  cases item with
  | ofClass _ _ => exact absurd trivial hitem
  | ofLink link =>
      have hmem : Item.ofLink link ∈ before ++ Item.ofLink link :: after := by simp
      have hlink : link.Plain := hplain _ hmem
      rw [List.flatMap_append, List.flatMap_cons, Writing.trimmedLines_append,
        Writing.trimmedLines_append] at hbody
      obtain ⟨first, others, rfl, hfirst, hothers⟩ := List.map_eq_append_iff.1 hbody
      obtain ⟨written, last, rfl, hwritten, -⟩ := List.map_eq_append_iff.1 hothers
      obtain ⟨line, rfl, hline⟩ := List.map_eq_singleton_iff.1 hwritten
      have hreads : HasRead project store.diagrams before
          (({ store, root := Workspace.root } : Reader Workspace).readLines first) :=
        (HasRead.start hstore).readItems
          (fun i hi => hplain i (List.mem_append_left _ hi)) hbefore
          (fun i hi => hread i (List.mem_append_left _ hi)) hfirst
      rw [readLines_append, readLines_append, readLines_cons, readLines_nil] at htext
      generalize ({ store, root := Workspace.root } : Reader Workspace).readLines first = r
        at hreads htext
      have hshape : LineShape.of r.body.isSome line.text = .relationship link.parts := by
        rw [Progress.bodyOpen hreads, hline.trans hlink.trim_line]
        exact (Writing.shape_text_iff hlink).2 (hread _ hmem)
      -- One of the two names stands for nothing, so it is reported.
      have hreported : ∃ name, (Issue.unresolvedEndpoint name).diagnostic line.span
          ∈ (r.step line).diagnostics := by
        rw [Reader.step, hshape]
        by_cases hleft : link.left ∈ Writing.classNames before
        · have hright : link.right ∉ Writing.classNames before := fun hright =>
            hitem ⟨hleft, hright⟩
          refine ⟨link.right, ?_⟩
          simp [relate, Writing.Link.parts, Writing.associationParts, hreads.resolve? hleft,
            hreads.resolve?_eq_none hright, Reader.report]
        · refine ⟨link.left, ?_⟩
          simp [relate, Writing.Link.parts, Writing.associationParts,
            hreads.resolve?_eq_none hleft, Reader.report]
      obtain ⟨name, hreported⟩ := hreported
      refine ⟨(Issue.unresolvedEndpoint name).diagnostic line.span, ?_, rfl⟩
      rw [htext]
      exact List.mem_append_left _ ((diagnostics_readLines _ last).subset hreported)

end Reader

/-! ### Exported associations -/

namespace Command

open Reader (IsUnresolved)

/-- **Exported associations.** They all stand below the classes that they name if only classes are
chosen, and then no end is unresolved when the exported text is imported again. In a text without
misread lines it is exactly the associations below fewer classes that are reported. -/
theorem exportedText_unresolved (project text : String) (s : LayoutSettings)
    (names : List String) (again : String) (s' : LayoutSettings) :
    let done := importText (Workspace.new project) text s
    let items := exportedItems done.2 done.1 names
    let copy := importText (Workspace.new again) (exportedText done.2 done.1 names) s'
    exportedText done.2 done.1 names = itemText items ∧
      ((∀ id ∈ chosen done.2 done.1 names, done.2.kind? id = some .umlClass) →
        Writing.Anchored [] items) ∧
      (Writing.Anchored [] items → ∀ d ∈ copy.1.parsed.diagnostics, ¬ IsUnresolved d) ∧
      ((∀ item ∈ items, ¬ item.Misread) → ¬ Writing.Anchored [] items →
        ∃ d ∈ copy.1.parsed.diagnostics, IsUnresolved d) := by
  intro done items copy
  obtain ⟨htext, hplain⟩ := exportedText_eq_itemText project text s names
  obtain ⟨start, parsed, read, hreachable, helements, -, hparse, hcopy⟩ :=
    importText_new again (exportedText done.2 done.1 names) s'
  have hdiagnostics : copy.1.parsed.diagnostics
      = (Reader.readText start Workspace.root (itemText items).toList).diagnostics := by
    rw [← show exportedText done.2 done.1 names = itemText items from htext]
    simp only [copy, hcopy]
    rw [parse] at hparse
    exact congrArg Parsed.diagnostics (Prod.mk.inj hparse).1.symm
  rw [hdiagnostics]
  refine ⟨htext, fun hclasses => ?_, fun hanchored => ?_, fun hread hdangling => ?_⟩
  · exact anchored_exportedItems (reachable_importText (.new project) text s).sound.tree hclasses
  · exact Reader.Knows.readText hreachable helements hplain hanchored
  · exact Reader.exists_unresolved (contents_of_elements_new helements) hplain hread hdangling

/-- The association of two classes is exported with both; that of a class and an interface is
exported with the class only. -/
theorem exportedText_unresolved_pairs :
    let done := importText (Workspace.new "model") "class A\nclass B\nA -- B" {}
    let mixed := importText (Workspace.new "model") "interface I\nclass C\nC -- I" {}
    let link : Writing.Link :=
      { left := "C", right := "I", name := "", multiplicity1 := none, multiplicity2 := none }
    (∀ id ∈ chosen done.2 done.1 [], done.2.kind? id = some .umlClass) ∧
      (∀ d ∈ (importText (Workspace.new "copy")
        (exportedText done.2 done.1 []) {}).1.parsed.diagnostics, ¬ IsUnresolved d) ∧
      exportedItems mixed.2 mixed.1 ["C", "I"] = [.ofClass "C" {}, .ofLink link] ∧
      ∃ d ∈ (importText (Workspace.new "copy")
        (exportedText mixed.2 mixed.1 ["C", "I"]) {}).1.parsed.diagnostics, IsUnresolved d := by
  intro done mixed link
  have hclasses : ∀ id ∈ chosen done.2 done.1 [], done.2.kind? id = some .umlClass := by
    simp only [done, importText, layout, placeAll, Packages.openViews_eq_insertionSort,
      Strategy.arrange, Grid.arrange, Grid.groups_eq_insertionSort]
    decide +kernel
  have hitems : exportedItems mixed.2 mixed.1 ["C", "I"] = [.ofClass "C" {}, .ofLink link] := by
    simp only [mixed, importText, layout, placeAll, Packages.openViews_eq_insertionSort,
      Strategy.arrange, Grid.arrange, Grid.groups_eq_insertionSort]
    decide +kernel
  obtain ⟨-, hanchored, hresolved, -⟩ :=
    exportedText_unresolved "model" "class A\nclass B\nA -- B" {} [] "copy" {}
  obtain ⟨-, -, -, hdangling⟩ :=
    exportedText_unresolved "model" "interface I\nclass C\nC -- I" {} ["C", "I"] "copy" {}
  refine ⟨hclasses, hresolved (hanchored hclasses), hitems, hdangling ?_ ?_⟩
  · rw [show exportedItems _ _ ["C", "I"] = _ from hitems]
    rintro item (_ | ⟨_, _ | ⟨_, ⟨⟩⟩⟩)
    · exact id
    · exact fun hmisread => hmisread.not_leading ⟨by decide, by decide⟩
  · rw [show exportedItems _ _ ["C", "I"] = _ from hitems]
    exact fun hanchored => absurd hanchored.2.1.2 (by decide)

/-- An interface is chosen with a class, and is not written: the association dangles. -/
theorem exportedText_dangles :
    let done := importText (Workspace.new "model") "interface I\nclass C\nC -- I" {}
    let text := exportedText done.2 done.1 ["C", "I"]
    text = "@startuml\nclass C \x7b\n\x7d\nC -- I\n@enduml" ∧
      (importText (Workspace.new "model") text {}).1.parsed.diagnostics.map Diagnostic.code
        = [some .w101] := by
  simp only [importText, layout, placeAll, Packages.openViews_eq_insertionSort, Strategy.arrange,
    Grid.arrange, Grid.groups_eq_insertionSort]
  decide +kernel

end Command

end UmlText
