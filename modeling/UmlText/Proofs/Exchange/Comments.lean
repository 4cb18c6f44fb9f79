import UmlText.Proofs.Exchange.Elements
import UmlText.Proofs.Reading.Unlocated
import UmlText.Proofs.Store.Contents

/-!
# UmlText.Proofs.Exchange.Comments

**What the comments of a written text do to its readers.** Documentation is written line by line,
each behind a mark, and a reader passes over all of it. The value of the tag `AI` is written behind
one mark, whatever it contains, so the lines behind its first one stand in the text as they are
(`spilledLines`). A written text is read as the text of the same elements without documentation and
tags, with these lines put in front of each element.
-/

namespace UmlText

universe u v

open Text (trim)

/-- An element without what is written as comments. -/
def Element.withoutComments (e : Element) : Element := { e with documentation := none, tags := [] }

/-! ### Content of joined texts -/

/-- Lines that were put together keep their content. -/
theorem contentLines_intercalate {lines : List String} (hne : lines ≠ []) :
    contentLines ("\n".intercalate lines).toList
      = lines.flatMap fun line => contentLines line.toList := by
  rw [String.toList_intercalate, show "\n".toList = ['\n'] from rfl]
  induction lines with
  | nil => exact absurd rfl hne
  | cons line rest ih =>
      cases rest with
      | nil => simp
      | cons next rest =>
          rw [List.map_cons, List.map_cons, List.intercalate_cons_cons, List.append_assoc,
            List.singleton_append, contentLines_append, List.flatMap_cons, ← List.map_cons,
            ih (by simp)]

/-- The content of lines without line feeds, each by itself. -/
theorem flatMap_contentLines {lines : List String} (h : ∀ line ∈ lines, '\n' ∉ line.toList) :
    lines.flatMap (fun line => contentLines line.toList)
      = (lines.map fun line => trim line.toList).filter fun line => !Line.isIgnored line := by
  induction lines with
  | nil => rfl
  | cons line rest ih =>
      rw [List.forall_mem_cons] at h
      rw [List.flatMap_cons, ih h.2, contentLines, List.splitOn_eq_singleton h.1,
        List.map_singleton, List.map_cons]
      exact (List.filter_append [trim line.toList] _).symm

/-- The first character of a text stands in its first line. -/
theorem tail_splitOn_cons {c x : Char} (h : x ≠ c) (cs : List Char) :
    ((x :: cs).splitOn c).tail = (cs.splitOn c).tail := by
  rw [List.splitOn_cons_eq_if_modifyHead, if_neg (by simpa using h)]
  cases cs.splitOn c <;> rfl

theorem tail_splitOn_append {c : Char} {before : List Char} (h : c ∉ before) (cs : List Char) :
    ((before ++ cs).splitOn c).tail = (cs.splitOn c).tail := by
  induction before with
  | nil => rfl
  | cons x rest ih =>
      rw [List.mem_cons, not_or] at h
      rw [List.cons_append, tail_splitOn_cons (Ne.symm h.1), ih h.2]

/-- A comment mark hides the rest of its line only. -/
theorem contentLines_comment (cs : List Char) :
    contentLines ('\'' :: cs)
      = ((cs.splitOn '\n').tail.map trim).filter fun line => !Line.isIgnored line := by
  have hfirst : ∀ rest, Line.isIgnored (trim ('\'' :: rest)) := by
    intro rest
    rw [Text.trim_cons_of_not_isBlank rfl]
    rfl
  rw [contentLines, List.splitOn_cons_eq_if_modifyHead, if_neg (by decide)]
  cases cs.splitOn '\n' with
  | nil => rfl
  | cons first others =>
      rw [List.modifyHead_cons, List.map_cons, List.filter_cons_of_neg (by simp [hfirst])]
      rfl

namespace Writing

/-! ### Spilled lines -/

/-- The lines of a tag `AI` that do not stand behind the mark of a comment. -/
def spilledLines (e : Element) : List String :=
  (e.tag? commandTag).toList.flatMap fun value =>
    (value.toList.splitOn '\n').tail.map String.ofList

theorem no_newline_spilledLines (e : Element) : ∀ line ∈ spilledLines e, '\n' ∉ line.toList := by
  intro line hline
  obtain ⟨value, -, hline⟩ := List.mem_flatMap.1 hline
  obtain ⟨piece, hpiece, rfl⟩ := List.mem_map.1 hline
  rw [String.toList_ofList]
  exact Text.not_mem_of_mem_splitOn (List.mem_of_mem_tail hpiece)

/-- Documentation has no content. -/
theorem contentLines_documentation {text line : List Char} (h : line ∈ Text.editorLines text) :
    contentLines ("' " ++ String.ofList line).toList = [] := by
  have hno := Text.not_mem_of_mem_editorLines h
  have htext : ("' " ++ String.ofList line).toList = '\'' :: ' ' :: line := by simp
  rw [htext, contentLines_comment, List.splitOn_eq_singleton (by simp [hno])]
  rfl

/-- The content of a tag is that of its lines behind the first one. -/
theorem contentLines_command (value : String) :
    contentLines (s!"' AI_CMD: {value}").toList
      = ((value.toList.splitOn '\n').tail.map trim).filter fun line => !Line.isIgnored line := by
  have htext : (s!"' AI_CMD: {value}").toList = '\'' :: (" AI_CMD: ".toList ++ value.toList) := by
    show ("' AI_CMD: " ++ value).toList = _
    simp
  rw [htext, contentLines_comment, tail_splitOn_append (by decide)]

/-- Of the comments of an element, what spills from its tag is all that has content. -/
theorem contentLines_commentLines (e : Element) :
    (commentLines e).flatMap (fun line => contentLines line.toList)
      = (spilledLines e).flatMap fun line => contentLines line.toList := by
  have hdocumentation : ((e.documentation.map fun text => (Text.editorLines text.toList).map
      fun line => "' " ++ String.ofList line).getD []).flatMap
        (fun line => contentLines line.toList) = [] := by
    cases e.documentation with
    | none => rfl
    | some text =>
        rw [Option.map_some, Option.getD_some, List.flatMap_map, List.flatMap_eq_nil_iff]
        exact fun line hline => contentLines_documentation hline
  rw [commentLines, List.flatMap_append, hdocumentation, List.nil_append,
    flatMap_contentLines (no_newline_spilledLines e), spilledLines]
  cases e.tag? commandTag with
  | none => rfl
  | some value =>
      by_cases hvalue : value = ""
      · subst hvalue
        rfl
      · have hfilter : (some value).filter (fun value => value ≠ "") = some value := by
          simp [hvalue]
        rw [hfilter, Option.toList_some, List.map_singleton, List.flatMap_singleton,
          contentLines_command, List.flatMap_singleton]
        simp [Function.comp_def]

/-! ### Written texts -/

/-- The elements that are written. -/
def isWritten (e : Element) : Bool :=
  match e.body with
  | .umlClass _ => true
  | .relationship r => r.kind = .association
  | _ => false

variable {σ : Type u} {τ : Type v} [ModelStore σ] [ModelStore τ]

/-- The lines of an element without comments, behind what spills from them. -/
def spilledElementLines (store : σ) (e : Element) : List String :=
  if isWritten e then spilledLines e ++ elementLines store e.withoutComments else []

/-- The text of elements without comments, with what spills from them. -/
def spilledText (store : σ) (elements : List Element) : String :=
  "\n".intercalate
    ([startMarker] ++ elements.flatMap (spilledElementLines store) ++ [endMarker])

variable {store bare : σ}

theorem elementLines_of_not_isWritten {e : Element} (h : isWritten e = false) :
    elementLines store e = [] := by
  rcases e with ⟨id, name, documentation, tags, parent, owned, body⟩
  cases body with
  | umlClass features => cases h
  | relationship r =>
      have hkind : r.kind ≠ .association := by simpa [isWritten] using h
      simp [elementLines, hkind]
  | _ => rfl

/-- Comments stand above the lines of an element, which do not depend on any comments. -/
theorem elementLines_eq (hbare : ∀ id, ModelStore.element? bare id
      = (ModelStore.element? store id).map Element.withoutComments) (e : Element) :
    elementLines store e
      = if isWritten e then commentLines e ++ elementLines bare e.withoutComments else [] := by
  have hend : endName store = endName bare := by
    funext id
    rw [endName, endName, hbare]
    cases ModelStore.element? store id <;> rfl
  have hnone : commentLines e.withoutComments = [] := rfl
  have hname : associationLine store = associationLine bare := by
    funext name r
    simp only [associationLine, hend]
  rcases e with ⟨id, name, documentation, tags, parent, owned, body⟩
  cases body with
  | umlClass features =>
      simp only [elementLines, isWritten, if_true, Element.withoutComments]
      rfl
  | relationship r =>
      by_cases hkind : r.kind = .association
      · simp only [elementLines, isWritten, hkind, decide_true, if_true, hname,
          Element.withoutComments]
        rfl
      · simp [elementLines, isWritten, hkind]
  | _ => rfl

/-- The content of what is written. -/
theorem contentLines_writeText (hbare : ∀ id, ModelStore.element? bare id
      = (ModelStore.element? store id).map Element.withoutComments) (elements : List ElementId) :
    contentLines (writeText store elements).toList
      = contentLines
          (spilledText bare (elements.filterMap (ModelStore.element? store))).toList := by
  have helement : ∀ e, (elementLines store e).flatMap (fun line => contentLines line.toList)
      = (spilledElementLines bare e).flatMap fun line => contentLines line.toList := by
    intro e
    rw [elementLines_eq hbare, spilledElementLines]
    split
    · rw [List.flatMap_append, List.flatMap_append, contentLines_commentLines]
    · rfl
  rw [writeText, spilledText, contentLines_intercalate (by simp [textLines]),
    contentLines_intercalate (by simp), textLines]
  simp only [List.flatMap_append, List.flatMap_assoc, helement]

/-- Where nothing with content spills, the text without comments has the same content. -/
theorem contentLines_spilledText (hbare : ∀ id, ModelStore.element? bare id
      = (ModelStore.element? store id).map Element.withoutComments) {elements : List ElementId}
    (hspilled : ∀ e ∈ elements.filterMap (ModelStore.element? store), isWritten e →
      ∀ line ∈ spilledLines e, Line.isIgnored (trim line.toList)) :
    contentLines (spilledText bare (elements.filterMap (ModelStore.element? store))).toList
      = contentLines (writeText bare elements).toList := by
  have helement : ∀ e ∈ elements.filterMap (ModelStore.element? store),
      (spilledElementLines bare e).flatMap (fun line => contentLines line.toList)
        = (elementLines bare e.withoutComments).flatMap fun line => contentLines line.toList := by
    intro e he
    rw [spilledElementLines]
    split
    · next hwritten =>
        rw [List.flatMap_append, flatMap_contentLines (no_newline_spilledLines e),
          List.filter_eq_nil_iff.2, List.nil_append]
        intro line hline
        obtain ⟨spilled, hmem, rfl⟩ := List.mem_map.1 hline
        simp [hspilled e he hwritten spilled hmem]
    · next hwritten =>
        have hnone : isWritten e.withoutComments = false := Bool.eq_false_iff.2 hwritten
        rw [elementLines_of_not_isWritten hnone]
  have hknown : elements.filterMap (ModelStore.element? bare)
      = (elements.filterMap (ModelStore.element? store)).map Element.withoutComments := by
    rw [List.map_filterMap]
    exact List.filterMap_congr fun id _ => hbare id
  rw [writeText, spilledText, contentLines_intercalate (by simp),
    contentLines_intercalate (by simp [textLines]), textLines, hknown]
  simp only [List.flatMap_append, List.flatMap_assoc, List.flatMap_map,
    List.flatMap_congr helement]

/-- **Only the tag `AI` gets out of the comments.** Take a store, and the same store without
documentation and tags. What is written of some elements of the first one is read, into every store,
like the text of these elements in the second one with the spilled lines of each written element put
in front of it. So the comments are inert if no spilled line has content; documentation, tags of
other names, and tags of one line never spill. -/
theorem sameReading_writeText (hbare : ∀ id, ModelStore.element? bare id
      = (ModelStore.element? store id).map Element.withoutComments) (elements : List ElementId)
    (target : τ) (root : ElementId) :
    SameReading (parse target root (writeText store elements))
        (parse target root (spilledText bare (elements.filterMap (ModelStore.element? store)))) ∧
      ((∀ e ∈ elements.filterMap (ModelStore.element? store), isWritten e →
          ∀ line ∈ spilledLines e, Line.isIgnored (trim line.toList)) →
        SameReading (parse target root (writeText store elements))
          (parse target root (writeText bare elements))) := by
  have hcontent := contentLines_writeText hbare elements
  exact ⟨sameReading_of_contentLines hcontent target root, fun hspilled =>
    sameReading_of_contentLines (hcontent.trans (contentLines_spilledText hbare hspilled)) target
      root⟩

/-- A documented class whose tag has a comment on its second line. -/
theorem sameReading_writeText_note :
    let note : Element :=
      { id := ⟨1⟩, name := "Note", documentation := some "class Hidden\n\x7d"
        tags := [⟨"AI", "keep\n  ' as it is"⟩], body := .umlClass {} }
    let w : Workspace := { elements := [(Workspace.new "Notes").elements[0], note] }
    let bare : Workspace := { elements := w.elements.map Element.withoutComments }
    (∀ e ∈ [(⟨1⟩ : ElementId)].filterMap (ModelStore.element? w), isWritten e →
        ∀ line ∈ spilledLines e, Line.isIgnored (trim line.toList)) ∧
      SameReading (parse Workspace.new Workspace.root (writeText w [⟨1⟩]))
        (parse Workspace.new Workspace.root (writeText bare [⟨1⟩])) := by
  intro note w bare
  have hbare : ∀ id, ModelStore.element? bare id
      = (ModelStore.element? w id).map Element.withoutComments := fun _ => List.getElem?_map
  have hspilled : ∀ e ∈ [(⟨1⟩ : ElementId)].filterMap (ModelStore.element? w), isWritten e →
      ∀ line ∈ spilledLines e, Line.isIgnored (trim line.toList) := by decide +kernel
  exact ⟨hspilled, (sameReading_writeText hbare [⟨1⟩] Workspace.new Workspace.root).2 hspilled⟩

/-- The second line of a tag declares a class. -/
theorem writeText_spills_class :
    let note : Element :=
      { id := ⟨1⟩, name := "Note", tags := [⟨"AI", "keep\nclass Hidden"⟩], body := .umlClass {} }
    let w : Workspace := { elements := [(Workspace.new "Notes").elements[0], note] }
    let bare : Workspace := { elements := w.elements.map Element.withoutComments }
    ¬ SameReading (parse Workspace.new Workspace.root (writeText w [⟨1⟩]))
      (parse Workspace.new Workspace.root (writeText bare [⟨1⟩])) := by
  intro note w bare h
  have hread : (parse Workspace.new Workspace.root (writeText w [⟨1⟩])).2.contents
      = [("Model", .project), ("Hidden", .umlClass {}), ("Note", .umlClass {})] := by
    decide +kernel
  have hplain : (parse Workspace.new Workspace.root (writeText bare [⟨1⟩])).2.contents
      = [("Model", .project), ("Note", .umlClass {})] := by
    decide +kernel
  rw [h.store_eq, hplain] at hread
  exact absurd hread (by decide)

end Writing

end UmlText
