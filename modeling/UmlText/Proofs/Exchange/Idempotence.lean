import UmlText.Proofs.Exchange.Reimporting

/-!
# UmlText.Proofs.Exchange.Idempotence

**Exporting what was exported.** The text of an export is imported and exported again as the same
text, unless something in it does not come back: an association whose line is misread, or an input
parameter that leaves nothing in the text but the comma beside it (`runExport_again`).
-/

namespace UmlText

namespace Writing

/-! ### What is written of what was read -/

section Operations

variable {o : Operation}

theorem inputs_readOperation (o : Operation) :
    (readOperation o).inputs = o.inputs.filter isShown := by
  have hreturns : (o.returnType?.toList.map Parameter.returning).filter (fun p => !p.isReturn)
      = [] := by
    cases o.returnType? <;> rfl
  rw [readOperation, Operation.inputs, Operation.inputs, List.filter_append, hreturns,
    List.append_nil, List.filter_filter, List.filter_filter, List.filter_filter]
  exact List.filter_congr fun p _ => by cases p.isReturn <;> simp

theorem returnType?_readOperation (o : Operation) :
    (readOperation o).returnType? = o.returnType? := by
  have hinputs : (o.inputs.filter isShown).find? Parameter.isReturn = none := by
    refine List.find?_eq_none.2 fun p hp => ?_
    have hinput := (List.mem_filter.1 (List.mem_filter.1 hp).1).2
    simpa using hinput
  rw [Operation.returnType?, readOperation, List.find?_append, hinputs, Option.none_or]
  cases o.returnType? <;> rfl

theorem length_splitOn_intercalate {items : List (List Char)} (h : ∀ cs ∈ items, ',' ∉ cs) :
    (([',', ' '].intercalate items).splitOn ',').length = max 1 items.length := by
  cases items with
  | nil => rfl
  | cons item rest =>
      rw [Text.splitOn_intercalate_cons h (by decide)]
      simp

/-- Inputs that leave nothing in the text can be told from their commas, if there are any. -/
theorem intercalate_filter_isShown_iff {inputs : List Parameter}
    (h : ∀ p ∈ inputs, PlainParameter p) :
    [',', ' '].intercalate ((inputs.filter isShown).map inputText)
        = [',', ' '].intercalate (inputs.map inputText) ↔
      (2 ≤ inputs.length → ∀ p ∈ inputs, isShown p) := by
  have hcommas : ∀ ps ⊆ inputs, ∀ cs ∈ ps.map inputText, ',' ∉ cs := by
    intro ps hps cs hcs
    obtain ⟨p, hp, rfl⟩ := List.mem_map.1 hcs
    exact (h p (hps hp)).no_comma
  constructor
  · intro heq hlength
    have hpieces := congrArg (fun cs => (cs.splitOn ',').length) heq
    simp only [length_splitOn_intercalate (hcommas _ (List.filter_subset_self _)),
      length_splitOn_intercalate (hcommas _ (List.Subset.refl _)), List.length_map] at hpieces
    exact List.length_filter_eq_length_iff.1 (by omega)
  · intro hshown
    match inputs with
    | [] => rfl
    | [p] =>
        by_cases hp : isShown p
        · rw [List.filter_cons_of_pos hp, List.filter_nil]
        · have hempty : inputText p = [] := by simpa [isShown] using hp
          simp [hp, hempty]
    | p :: q :: rest => rw [List.filter_eq_self.2 (hshown (by simp))]

/-- The line of an operation comes back unless an input beside another one left nothing in it. -/
theorem operationLine_readOperation_iff (h : PlainOperation o) :
    operationLine (readOperation o) = operationLine o ↔
      (2 ≤ o.inputs.length → ∀ p ∈ o.inputs, isShown p) := by
  rw [← intercalate_filter_isShown_iff h.plain_inputs, ← String.toList_inj, toList_operationLine,
    toList_operationLine, operationText, operationText, inputs_readOperation,
    returnType?_readOperation]
  simp [readOperation]

end Operations

theorem classLines_readFeatures_iff (name : String) {c : Classifier} (h : PlainClassifier c) :
    classLines name (readFeatures c) = classLines name c ↔
      ∀ o ∈ c.operations, 2 ≤ o.inputs.length → ∀ p ∈ o.inputs, isShown p := by
  have hattributes : (readFeatures c).attributes.map attributeLine
      = c.attributes.map attributeLine := by
    rw [readFeatures, List.map_map]
    rfl
  rw [classLines, classLines, hattributes, List.append_cancel_right_eq,
    List.append_cancel_left_eq, readFeatures, List.map_map, List.map_inj_left]
  exact forall₂_congr fun o ho => operationLine_readOperation_iff (h.operations o ho)

/-! ### Sheets with the same lines -/

/-- Blocks of the same lengths agree if each does. -/
theorem flatMap_eq_iff {α β : Type} {l : List α} {f g : α → List β}
    (h : ∀ a ∈ l, (f a).length = (g a).length) :
    l.flatMap f = l.flatMap g ↔ ∀ a ∈ l, f a = g a := by
  induction l with
  | nil => simp
  | cons a rest ih =>
      obtain ⟨ha, hrest⟩ := List.forall_mem_cons.1 h
      rw [List.flatMap_cons, List.flatMap_cons, List.forall_mem_cons, ← ih hrest]
      exact ⟨fun heq => List.append_inj heq ha, fun ⟨hfirst, hothers⟩ => by rw [hfirst, hothers]⟩

variable {classes : List (String × Classifier)} {links : List Link}

/-- The associations of a sheet are the lines behind its last closing brace. -/
theorem takeWhile_lines_sheet :
    ((sheet classes links).flatMap Item.lines).reverse.takeWhile (fun line => line ≠ "\x7d")
      = (links.map fun link => String.ofList link.text).reverse := by
  have hlinks : ∀ line ∈ (links.map fun link => String.ofList link.text).reverse,
      decide (line ≠ "\x7d") := by
    intro line hline
    obtain ⟨link, -, rfl⟩ := List.mem_map.1 (List.mem_reverse.1 hline)
    have hblank : ' ' ∈ link.text := by simp [Link.text, associationText]
    refine decide_eq_true fun heq => ?_
    have htext := congrArg String.toList heq
    rw [String.toList_ofList] at htext
    rw [htext] at hblank
    exact absurd hblank (by decide)
  have hclasses : (classes.flatMap fun c => classLines c.1 c.2).reverse.takeWhile
      (fun line => line ≠ "\x7d") = [] := by
    rcases classes.eq_nil_or_concat with rfl | ⟨others, c, rfl⟩
    · rfl
    · rw [List.concat_eq_append, List.flatMap_append, List.flatMap_singleton, classLines]
      simp
  rw [lines_sheet, List.reverse_append, List.takeWhile_append_of_pos hlinks, hclasses,
    List.append_nil]

theorem length_links_of_lines_eq {classes' : List (String × Classifier)} {links' : List Link}
    (h : (sheet classes links).flatMap Item.lines = (sheet classes' links').flatMap Item.lines) :
    links.length = links'.length := by
  have hlines := congrArg (fun lines : List String =>
    (lines.reverse.takeWhile fun line => line ≠ "\x7d").length) h
  simpa only [takeWhile_lines_sheet, List.length_reverse, List.length_map] using hlines

/-! ### Items that come back -/

/-- An item whose lines come back when they are imported and exported again: of every operation with
several inputs all leave something in the text, and no association is misread. -/
def Item.Rereads : Item → Prop
  | ofClass _ features =>
    ∀ o ∈ features.operations, 2 ≤ o.inputs.length → ∀ p ∈ o.inputs, isShown p
  | ofLink link => ¬ link.Misread

theorem lines_sheet_readFeatures_iff
    (hplain : ∀ item ∈ sheet classes links, item.Plain) :
    (sheet (classes.map fun c => (c.1, readFeatures c.2)) links).flatMap Item.lines
        = (sheet classes links).flatMap Item.lines ↔
      ∀ c ∈ classes, (Item.ofClass c.1 c.2).Rereads := by
  have hlengths : ∀ c ∈ classes,
      (classLines c.1 (readFeatures c.2)).length = (classLines c.1 c.2).length := by
    intro c _
    simp [classLines, readFeatures]
  rw [lines_sheet, lines_sheet, List.append_cancel_right_eq, List.flatMap_map,
    flatMap_eq_iff hlengths]
  exact forall₂_congr fun c hc =>
    classLines_readFeatures_iff c.1 (hplain _ (mem_sheet.2 (.inl ⟨c, hc, rfl⟩))).2

end Writing

/-! ### Exporting twice -/

namespace Command

open Writing (Item itemText readFeatures sheet)

variable {classes : List (String × Classifier)} {links : List Writing.Link}

/-- **A sheet is exported again as it was written** exactly if all its items come back. -/
theorem exportedText_sheet_iff (hplain : ∀ item ∈ sheet classes links, item.Plain)
    (hanchored : Writing.Anchored [] (sheet classes links)) (project : String)
    (s : LayoutSettings) :
    let copy := importText (Workspace.new project) (itemText (sheet classes links)) s
    exportedText copy.2 copy.1 [] = itemText (sheet classes links) ↔
      ∀ item ∈ sheet classes links, item.Rereads := by
  intro copy
  obtain ⟨htext, hplain'⟩ := exportedText_eq_itemText project (itemText (sheet classes links)) s []
  have htext : exportedText copy.2 copy.1 [] = itemText (exportedItems copy.2 copy.1 []) := htext
  rw [htext, Writing.itemText_inj hplain' hplain]
  by_cases hread : ∀ link ∈ links, ¬ link.Misread
  -- The second export has the same associations, so only the lines of classes can differ.
  · have hitems : exportedItems copy.2 copy.1 [] = _ :=
      exportedItems_itemText hplain hanchored (fun item hitem => by
        rcases Writing.mem_sheet.1 hitem with ⟨c, -, rfl⟩ | ⟨link, hlink, rfl⟩
        · exact id
        · exact hread link hlink) project s
    rw [hitems, Writing.lines_sheet_readFeatures_iff hplain]
    refine ⟨fun h item hitem => ?_, fun h c hc => h _ (Writing.mem_sheet.2 (.inl ⟨c, hc, rfl⟩))⟩
    rcases Writing.mem_sheet.1 hitem with ⟨c, hc, rfl⟩ | ⟨link, hlink, rfl⟩
    · exact h c hc
    · exact hread link hlink
  · obtain ⟨link, hlink, hmisread⟩ : ∃ link ∈ links, link.Misread := by
      simpa using hread
    -- Texts with the same lines have as many associations, but here one is lost.
    refine iff_of_false (fun hlines => ?_) fun h =>
      h _ (Writing.mem_sheet.2 (.inr ⟨link, hlink, rfl⟩)) hmisread
    have htree : copy.2.Tree := (reachable_importText (.new project) _ s).sound.tree
    obtain ⟨classes', links', hsheet, hle⟩ := exists_sheet htree copy.1
    rw [hsheet] at hlines
    have hlt := length_relationships_lt hplain hlink hmisread project s
    exact absurd (Writing.length_links_of_lines_eq hlines)
      (Nat.ne_of_lt (Nat.lt_of_le_of_lt hle hlt))

/-- What an export prints. -/
theorem printed_runExport {disk : Disk} {stdin input text : String}
    (hinput : readInput disk stdin input = .ok (some text))
    (hblank : Text.allBlank text.toList = false) (s : Settings) (names : List String) :
    let done := importText (Workspace.new (projectName input)) text s.layout
    (runExport disk stdin s input none names).printed
      = exportedText done.2 done.1 names ++ "\n" := by
  simp only [runExport, importFrom, hinput, hblank, Bool.false_eq_true, if_false]

theorem allBlank_itemText (items : List Item) : Text.allBlank (itemText items).toList = false := by
  have hmarked : '@' ∈ (itemText items).toList := by
    obtain ⟨line, rest, hlines⟩ := List.exists_cons_of_ne_nil
      (show items.flatMap Item.lines ++ [Writing.endMarker] ≠ [] by simp)
    rw [Writing.toList_itemText, Writing.itemLines, List.append_assoc, hlines,
      List.singleton_append, List.map_cons, List.map_cons, List.intercalate_cons_cons]
    exact List.mem_append_left _ (List.mem_append_left _ (by decide))
  exact List.all_eq_false.2 ⟨'@', hmarked, by decide⟩

/-- **Exporting an export.** An export of all top-level classes prints the text of its items, and
prints it again when it is given that text, exactly if all items come back. -/
theorem runExport_again {disk : Disk} {stdin input text : String}
    (hinput : readInput disk stdin input = .ok (some text))
    (hblank : Text.allBlank text.toList = false) (s : Settings) :
    let done := importText (Workspace.new (projectName input)) text s.layout
    let items := exportedItems done.2 done.1 []
    (runExport disk stdin s input none []).printed = itemText items ++ "\n" ∧
      ∀ disk' stdin' s' input',
        readInput disk' stdin' input' = .ok (some (itemText items)) →
          ((runExport disk' stdin' s' input' none []).printed = itemText items ++ "\n" ↔
            ∀ item ∈ items, item.Rereads) := by
  intro done items
  obtain ⟨htext, hplain⟩ :=
    exportedText_eq_itemText (projectName input) text s.layout []
  have htree : done.2.Tree := (reachable_importText (.new _) _ _).sound.tree
  have hanchored : Writing.Anchored [] items := anchored_exportedItems htree
    fun _ hid => ((mem_topLevelClasses htree).1 hid).1
  obtain ⟨classes, links, hitems, -⟩ := exists_sheet htree done.1
  refine ⟨(printed_runExport hinput hblank s []).trans (by rw [htext]), ?_⟩
  intro disk' stdin' s' input' hagain
  rw [printed_runExport hagain (allBlank_itemText items)]
  have hitems : items = sheet classes links := hitems
  have hplain : ∀ item ∈ items, item.Plain := hplain
  rw [hitems] at hplain hanchored ⊢
  refine Iff.trans ?_ (exportedText_sheet_iff hplain hanchored (projectName input') s'.layout)
  rw [← String.toList_inj, ← String.toList_inj, String.toList_append, String.toList_append,
    List.append_cancel_right_eq]

/-- Two classes with an operation and an association come back. -/
theorem runExport_again_pair :
    let text := "class A \x7b\n+f(a, b)\n\x7d\nclass B\nA -- B"
    let written := "@startuml\nclass A \x7b\n  public f(a, b)\n\x7d\nclass B \x7b\n\x7d\nA -- B\n@enduml"
    (runExport {} text {} "-" none []).printed = written ++ "\n" ∧
      (runExport {} written {} "-" none []).printed = written ++ "\n" := by
  intro text written
  let operation : Operation := { name := "f", parameters := [.input "a" none, .input "b" none] }
  let link : Writing.Link :=
    { left := "A", right := "B", name := "", multiplicity1 := none, multiplicity2 := none }
  have hinput : readInput {} text "-" = .ok (some text) := by decide
  obtain ⟨hprinted, hagain⟩ := runExport_again hinput (by decide) {}
  have hitems :
      exportedItems (importText (Workspace.new (projectName "-")) text ({} : Settings).layout).2
        (importText (Workspace.new (projectName "-")) text ({} : Settings).layout).1 []
      = [.ofClass "A" { operations := [operation] }, .ofClass "B" {}, .ofLink link] := by
    simp only [importText, layout, placeAll, Packages.openViews_eq_insertionSort, Strategy.arrange,
      Grid.arrange, Grid.groups_eq_insertionSort]
    decide +kernel
  have hwritten : itemText
      [.ofClass "A" { operations := [operation] }, .ofClass "B" {}, .ofLink link] = written := by
    decide +kernel
  rw [hitems, hwritten] at hprinted hagain
  refine ⟨hprinted, (hagain {} written {} "-" (by decide)).2 ?_⟩
  rintro item (_ | ⟨_, _ | ⟨_, _ | ⟨_, ⟨⟩⟩⟩⟩)
  · simp only [Item.Rereads]
    decide
  · simp only [Item.Rereads]
    decide
  · exact fun hmisread => hmisread.not_leading ⟨by decide, by decide⟩

/-- A class called `hide` is exported with its association, and then without it. -/
theorem runExport_again_hide :
    let written := "@startuml\nclass hide \x7b\n\x7d\nclass B \x7b\n\x7d\nhide -- B\n@enduml"
    (runExport {} "class hide\nclass B\n\"hide\" -- B" {} "-" none []).printed
        = written ++ "\n" ∧
      (runExport {} written {} "-" none []).printed
        = "@startuml\nclass hide \x7b\n\x7d\nclass B \x7b\n\x7d\n@enduml\n" := by
  simp only [runExport, importFrom, importText, layout, placeAll,
    Packages.openViews_eq_insertionSort, Strategy.arrange, Grid.arrange,
    Grid.groups_eq_insertionSort]
  decide +kernel

end Command

end UmlText
