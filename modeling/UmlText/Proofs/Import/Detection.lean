import UmlText.Proofs.Layout.Keeping
import UmlText.Proofs.Reading.Resolving
import UmlText.Proofs.Reading.Trailing
import UmlText.Proofs.Text.Locating

/-!
# UmlText.Proofs.Import.Detection

**A text that declares an actor or a use case describes a use case diagram.** The kind of a diagram
is found by looking for two words in the whole text in lower case, its elements by reading its lines
one by one. A line of the text begins behind a line feed or a blank, and a header of an actor or a
use case begins with its keyword and a gap, so the word stands in the text by itself, wherever the
header is (`standsIn_of_header`). Whatever a store grants, an actor or a use case among the elements
that it creates comes from such a header, and a class diagram has none to put on its grid
(`useCaseDiagram_of_participant`).
-/

namespace UmlText

universe u

open BackedStore (workspace)
open Text (isBlank isGap)

/-! ### Words in a text -/

/-- A word stands in a text by itself: no identifier reaches into it from the front, and white space
or the end of the text is behind it. -/
def StandsIn (word cs : List Char) : Prop :=
  ∃ before after, cs = before ++ word ++ after ∧
    (∀ c ∈ before.getLast?, Line.isIdentifierChar c = false) ∧ ∀ c ∈ after.head?, isBlank c

theorem startsWithWord_iff {word cs : List Char} :
    startsWithWord word cs ↔ ∃ after, cs = word ++ after ∧ ∀ c ∈ after.head?, isBlank c := by
  unfold startsWithWord
  cases h : word.isPrefixOf? cs with
  | none =>
      simp only [Bool.false_eq_true, false_iff, not_exists, not_and]
      rintro after rfl
      simp [List.isPrefixOf?_eq_some_iff_append_eq.2 (rfl : word ++ after = _)] at h
  | some rest =>
      obtain rfl := List.isPrefixOf?_eq_some_iff_append_eq.1 h
      simp [Option.all_eq_true, List.append_cancel_left_eq]

/-- The search goes through the places where the word could begin. -/
theorem hasWordAfter_iff {word : List Char} (hne : word ≠ []) (front : Option Char)
    (cs : List Char) :
    hasWordAfter word front cs ↔ ∃ before after, cs = before ++ word ++ after ∧
      (∀ c ∈ (front.toList ++ before).getLast?, Line.isIdentifierChar c = false) ∧
      ∀ c ∈ after.head?, isBlank c := by
  induction cs generalizing front with
  | nil => simp [hasWordAfter, hne]
  | cons c rest ih =>
      have hfront : ∀ before : List Char, (front.toList ++ c :: before).getLast?
          = ((some c).toList ++ before).getLast? := by
        intro before
        rw [List.getLast?_append_of_ne_nil _ (by simp)]
        rfl
      rw [hasWordAfter, Bool.or_eq_true, Bool.and_eq_true, startsWithWord_iff, ih]
      constructor
      · rintro (⟨⟨after, hafter, hblank⟩, hident⟩ | ⟨before, after, rfl, hident, hblank⟩)
        · refine ⟨[], after, hafter, ?_, hblank⟩
          cases front <;> simp_all
        · exact ⟨c :: before, after, rfl, by rwa [hfront], hblank⟩
      · rintro ⟨before, after, hcs, hident, hblank⟩
        cases before with
        | nil =>
            refine .inl ⟨⟨after, hcs, hblank⟩, ?_⟩
            cases front <;> simp_all
        | cons first before =>
            obtain ⟨rfl, rfl⟩ := List.cons.inj hcs
            exact .inr ⟨before, after, by simp, by rwa [← hfront], hblank⟩

theorem mentionsUseCases_iff (source : List Char) :
    mentionsUseCases source ↔ StandsIn "usecase".toList (source.map Char.toLower) ∨
      StandsIn "actor".toList (source.map Char.toLower) := by
  rw [mentionsUseCases, Bool.or_eq_true, hasWordAfter_iff (by decide), hasWordAfter_iff (by decide)]
  rfl

/-! ### Headers of participants -/

theorem toLower_of_isBlank {c : Char} (h : isBlank c) : c.toLower = c := by
  refine dif_neg ?_
  rintro ⟨hlow, hhigh⟩
  have hlow : 65 ≤ c.toNat := hlow
  have hhigh : c.toNat ≤ 90 := hhigh
  simp only [isBlank, Text.blankCodes, List.mem_cons, List.not_mem_nil, or_false,
    decide_eq_true_eq] at h
  omega

theorem isIdentifierChar_of_isBlank {c : Char} (h : isBlank c) :
    Line.isIdentifierChar c = false := by
  rw [Bool.eq_false_iff]
  intro hident
  rw [Writing.isBlank_of_isIdentifierChar hident] at h
  cases h

namespace Line

theorem exists_eq_of_keyword? {word : String} {line rest : List Char}
    (h : keyword? word line = some rest) :
    ∃ c after, line = word.toList ++ c :: after ∧ isGap c := by
  obtain ⟨behind, hword, hgap⟩ := Option.bind_eq_some_iff.1 h
  obtain rfl := List.isPrefixOf?_eq_some_iff_append_eq.1 hword
  obtain ⟨⟨gap, rest'⟩, hrun, -⟩ := Option.map_eq_some_iff.1 hgap
  obtain ⟨rfl, hne, hgaps⟩ := run?_eq_some hrun
  obtain ⟨c, gap, rfl⟩ := List.exists_cons_of_ne_nil hne
  exact ⟨c, gap ++ rest', rfl, hgaps c (by simp)⟩

/-- A reader that names an actor or a use case only where its keyword is. -/
def Announces (line : List Char) (read : Option ((ElementKind × Bool) × List Char)) : Prop :=
  ∀ kind isAbstract rest, read = some ((kind, isAbstract), rest) → kind.isParticipant →
    (keyword? kind.keyword line).isSome

theorem Announces.orElse {line : List Char} {a b : Option ((ElementKind × Bool) × List Char)}
    (ha : Announces line a) (hb : Announces line b) : Announces line (a <|> b) := by
  cases a with
  | none => exact hb
  | some found => exact ha

theorem announces_map {line : List Char} {kind : ElementKind} {isAbstract : Bool}
    {read : Option (List Char)}
    (h : kind.isParticipant → read.isSome → (keyword? kind.keyword line).isSome) :
    Announces line (read.map ((kind, isAbstract), ·)) := by
  intro kind' isAbstract' rest hread hkind
  obtain ⟨behind, hbehind, heq⟩ := Option.map_eq_some_iff.1 hread
  cases heq
  exact h hkind (by rw [hbehind]; rfl)

theorem announces_entityKeyword? (line : List Char) : Announces line (entityKeyword? line) :=
  .orElse (announces_map nofun) <| .orElse (announces_map nofun) <| .orElse (announces_map nofun) <|
    .orElse (announces_map nofun) <| .orElse (announces_map nofun) <|
      .orElse (announces_map fun _ h => h) (announces_map fun _ h => h)

/-- The header of an actor or a use case begins with its keyword. -/
theorem keyword?_of_participant {line : List Char} {header : EntityHeader}
    (h : entityHeader? line = some header) (hkind : header.kind.isParticipant) :
    (keyword? header.kind.keyword line).isSome := by
  simp only [entityHeader?, Option.bind_eq_bind, Option.bind_eq_some_iff] at h
  obtain ⟨⟨⟨kind, isAbstract⟩, rest⟩, hkeyword, named, -, hheader⟩ := h
  obtain rfl := Option.some.inj hheader
  exact announces_entityKeyword? line kind isAbstract rest hkeyword hkind

end Line

/-- **The keyword of an actor or a use case stands in every text with such a header.** -/
theorem standsIn_of_header {source : List Char} {line : Text.Line}
    (hline : line ∈ Text.locatedLines source) {header : Line.EntityHeader}
    (hheader : Line.entityHeader? line.text = some header) (hkind : header.kind.isParticipant) :
    StandsIn header.kind.keyword.toList (source.map Char.toLower) := by
  obtain ⟨above, leading, trailing, below, hline, hblank, -, -⟩ :=
    Text.selectsLine_of_mem_locatedLines hline
  obtain ⟨rest, hkeyword⟩ := Option.isSome_iff_exists.1 (Line.keyword?_of_participant hheader hkind)
  obtain ⟨c, after, htext, hgap⟩ := Line.exists_eq_of_keyword? hkeyword
  have hlower : header.kind.keyword.toList.map Char.toLower = header.kind.keyword.toList := by
    cases header.kind <;> decide
  have hfront : ∀ d ∈ (above ++ leading).getLast?, isBlank d := by
    intro d hd
    rcases List.eq_nil_or_concat' leading with rfl | ⟨first, last, rfl⟩
    · obtain rfl := hline.above_ends d (by simpa using hd)
      rfl
    · rw [← List.append_assoc, List.getLast?_concat] at hd
      exact hblank d (by cases hd; simp)
  refine ⟨(above ++ leading).map Char.toLower, (c :: after ++ trailing ++ below).map Char.toLower,
    ?_, ?_, ?_⟩
  · rw [hline.source_eq, htext]
    simp only [List.map_append, hlower, List.append_assoc]
  · rw [List.getLast?_map]
    rintro _ hc
    obtain ⟨d, hd, rfl⟩ := Option.map_eq_some_iff.1 hc
    rw [toLower_of_isBlank (hfront d hd)]
    exact isIdentifierChar_of_isBlank (hfront d hd)
  · rintro _ ⟨⟩
    have hc : isBlank c := Text.isBlank_of_isGap hgap
    rwa [toLower_of_isBlank hc]

theorem detectDiagramKind_of_header {source : String} {line : Text.Line}
    (hline : line ∈ Text.locatedLines source.toList) {header : Line.EntityHeader}
    (hheader : Line.entityHeader? line.text = some header) (hkind : header.kind.isParticipant) :
    detectDiagramKind source = .useCaseDiagram := by
  have hstands := standsIn_of_header hline hheader hkind
  rw [detectDiagramKind, if_pos]
  rw [mentionsUseCases_iff]
  cases hheaderKind : header.kind with
  | actor => exact .inr (by rwa [hheaderKind] at hstands)
  | useCase => exact .inl (by rwa [hheaderKind] at hstands)
  | package | umlClass | interface | enumeration =>
      rw [hheaderKind] at hkind
      cases hkind

/-! ### What is created -/

namespace Reader

section Creations

variable {σ : Type u} [ModelStore σ]

/-- The element that a line creates, and the kind it is asked for. -/
def creation? (r : Reader σ) (line : Text.Line) : Option (ElementId × ElementKind) := do
  let request ← (LineShape.of r.body.isSome line.text).request? r.parent
  let element ← (ModelStore.createElement r.store request).1.toOption
  return (element, request.kind)

/-- The elements that lines create, in order. -/
def creations (r : Reader σ) : List Text.Line → List (ElementId × ElementKind)
  | [] => []
  | line :: rest => (r.creation? line).toList ++ (r.step line).creations rest

/-- An actor or a use case is created by its header. -/
theorem exists_header_of_creation? {r : Reader σ} {line : Text.Line}
    {created : ElementId × ElementKind} (h : r.creation? line = some created)
    (hkind : created.2.isParticipant) :
    ∃ header, Line.entityHeader? line.text = some header ∧ header.kind = created.2 := by
  simp only [creation?, Option.bind_eq_bind, Option.bind_eq_some_iff] at h
  obtain ⟨request, hrequest, element, -, hcreated⟩ := h
  obtain rfl := Option.some.inj hcreated
  cases hshape : LineShape.of r.body.isSome line.text with
  | entity header =>
      rw [hshape] at hrequest
      obtain rfl := Option.some.inj hrequest
      exact ⟨header, LineShape.of_eq_entity hshape, rfl⟩
  | package header =>
      rw [hshape] at hrequest
      obtain rfl := Option.some.inj hrequest
      cases hkind
  | ignored | member | close | relationship | unknown =>
      rw [hshape] at hrequest
      cases hrequest

theorem exists_header_of_mem_creations {r : Reader σ} {lines : List Text.Line}
    {created : ElementId × ElementKind} (h : created ∈ r.creations lines)
    (hkind : created.2.isParticipant) :
    ∃ line ∈ lines, ∃ header, Line.entityHeader? line.text = some header ∧
      header.kind = created.2 := by
  induction lines generalizing r with
  | nil => cases h
  | cons line rest ih =>
      rcases List.mem_append.1 h with h | h
      · exact ⟨line, by simp, exists_header_of_creation? (Option.mem_toList.1 h) hkind⟩
      · obtain ⟨line', hline', hheader⟩ := ih h
        exact ⟨line', List.mem_cons_of_mem _ hline', hheader⟩

end Creations

section Kinds

variable {σ : Type u} [ModelStore σ] [ViewStore σ] [BackedStore σ]

/-- An element has a kind after a line if it had it before, or was created with it. -/
theorem held_or_created_step {r : Reader σ} {line : Text.Line} {id : ElementId} {kind : ElementKind}
    (h : (workspace (r.step line).store).kind? id = some kind) :
    (workspace r.store).kind? id = some kind ∨ r.creation? line = some (id, kind) := by
  rcases r.workspace_step_cases line with
    ⟨-, hw⟩ | ⟨request, hrequest, hc, hw⟩ | ⟨-, owner, member, element, body, helement, hbody, hw⟩
  · exact .inl (hw ▸ h)
  · rw [hw] at h
    by_cases hnew : id.index = (workspace r.store).elements.length
    · obtain rfl : id = ⟨(workspace r.store).elements.length⟩ := by rw [← hnew]
      rw [Workspace.kind?_pushElement_self, Body.kind?_empty] at h
      obtain rfl := Option.some.inj h
      exact .inr (by simp [creation?, hrequest, hc, Except.toOption])
    · rw [Workspace.kind?_pushElement_of_ne hnew] at h
      exact .inl h
  · rw [hw, Workspace.kind?_updateElement_body helement hbody] at h
    exact .inl h

theorem held_or_created_readLines {r : Reader σ} {lines : List Text.Line} {id : ElementId}
    {kind : ElementKind} (h : (workspace (r.readLines lines).store).kind? id = some kind) :
    (workspace r.store).kind? id = some kind ∨ (id, kind) ∈ r.creations lines := by
  induction lines generalizing r with
  | nil => exact .inl h
  | cons line rest ih =>
      rcases ih h with h | h
      · exact (held_or_created_step h).imp_right fun hcreated => by simp [creations, hcreated]
      · exact .inr (List.mem_append_right _ h)

end Kinds

end Reader

/-- The elements that reading a text creates, with the kinds they are asked for. -/
def createdBy {σ : Type u} [ModelStore σ] (store : σ) (root : ElementId) (source : String) :
    List (ElementId × ElementKind) :=
  ({ store, root : Reader σ }).creations (Text.locatedLines source.toList)

theorem detectDiagramKind_of_created {σ : Type u} [ModelStore σ] {store : σ} {root : ElementId}
    {source : String} {created : ElementId × ElementKind}
    (h : created ∈ createdBy store root source) (hkind : created.2.isParticipant) :
    detectDiagramKind source = .useCaseDiagram := by
  obtain ⟨line, hline, header, hheader, hcreated⟩ := Reader.exists_header_of_mem_creations h hkind
  exact detectDiagramKind_of_header hline hheader (hcreated ▸ hkind)

/-! ### Participants in a workspace -/

variable {σ : Type u} [ModelStore σ] [ViewStore σ] [BackedStore σ]

/-- A new element has the kind that it was created with. -/
theorem mem_createdBy {store : σ} {root : ElementId} {source : String} {id : ElementId}
    {kind : ElementKind} (hnew : (workspace store).IsNew id)
    (h : (workspace (parse store root source).2).kind? id = some kind) :
    (id, kind) ∈ createdBy store root source := by
  refine (Reader.held_or_created_readLines (r := { store, root }) h).resolve_left fun hold => ?_
  obtain ⟨e, he, -⟩ := Option.bind_eq_some_iff.1 hold
  exact Nat.not_lt.2 hnew (List.getElem?_eq_some_iff.1 he).1

/-- The declared elements are new. -/
theorem isNew_of_mem_uniqueElements {store : σ} {root : ElementId} {source : String}
    {id : ElementId} (h : id ∈ (parse store root source).1.uniqueElements) :
    (workspace store).IsNew id := by
  let lines := Text.locatedLines source.toList
  obtain ⟨before, d, after, hdeclared, rfl, -⟩ :=
    (Parsed.mem_uniqueElements_iff (p := (parse store root source).1)
      (Reader.aliases_readLines { store, root } lines)).1 h
  have hmem : d ∈ ({ store, root : Reader σ }).declarations lines := by simp [hdeclared]
  exact Reader.isNew_of_mem_declarations hmem

/-- Of a text that describes a class diagram no actor and no use case is declared. -/
theorem not_isParticipant_of_mem_uniqueElements {store : σ} {root : ElementId} {source : String}
    (hclass : detectDiagramKind source ≠ .useCaseDiagram) {id : ElementId} {kind : ElementKind}
    (hid : id ∈ (parse store root source).1.uniqueElements)
    (hkind : (workspace (parse store root source).2).kind? id = some kind) :
    ¬ kind.isParticipant := fun hparticipant =>
  hclass (detectDiagramKind_of_created
    (mem_createdBy (isNew_of_mem_uniqueElements hid) hkind) hparticipant)

/-- A strategy starts with the elements as they were read. -/
theorem elements_openedFor (store : σ) (diagram : DiagramId) (parsed : Parsed) :
    (workspace (openedFor store diagram parsed).store).elements = (workspace store).elements :=
  (Packages.tries_openViews { store, diagram } parsed.uniqueElements).tells_eq
    ⟨fun _ _ => rfl, fun _ _ _ => rfl⟩

/-- **Detection agrees with the headers of a text.** Whatever the text and whatever the store
grants: if an actor or a use case is created, the text describes a use case diagram. In a workspace,
behind any policy, it does if there is an actor or a use case among the new elements; and if it goes
to the grid, then the grid is handed no actor and no use case. -/
theorem useCaseDiagram_of_participant (source : String) :
    (∀ {τ : Type u} [ModelStore τ] (store : τ) (root : ElementId),
      (∃ created ∈ createdBy store root source, created.2.isParticipant) →
        detectDiagramKind source = .useCaseDiagram) ∧
    ∀ {τ : Type u} [ModelStore τ] [ViewStore τ] [BackedStore τ] (store : τ) (root : ElementId),
      let parsed := (parse store root source).1
      let after := (parse store root source).2
      ((∃ id kind, (workspace store).elements.length ≤ id.index ∧
          (workspace after).kind? id = some kind ∧ kind.isParticipant) →
        detectDiagramKind source = .useCaseDiagram) ∧
      (Strategy.ofDiagram parsed.diagramKind = .grid → ∀ diagram,
        ∀ e ∈ Grid.gridElements (openedFor after diagram parsed) parsed.uniqueElements,
          ∀ kind, (openedFor after diagram parsed).kind? e = some kind → ¬ kind.isParticipant) := by
  constructor
  · rintro τ _ store root ⟨created, hcreated, hkind⟩
    exact detectDiagramKind_of_created hcreated hkind
  · intro τ _ _ _ store root parsed after
    constructor
    · rintro ⟨id, kind, hnew, hid, hkind⟩
      exact detectDiagramKind_of_created (mem_createdBy hnew hid) hkind
    · intro hgrid diagram e he kind hkind
      have hclass : detectDiagramKind source ≠ .useCaseDiagram := by
        intro h
        rw [show parsed.diagramKind = detectDiagramKind source from rfl, h] at hgrid
        cases hgrid
      have hkind : (workspace after).kind? e = some kind := by
        rw [← hkind, Placement.kind?, BackedStore.kind?_eq, Workspace.kind?, Workspace.kind?,
          Workspace.element?, Workspace.element?, elements_openedFor]
      exact not_isParticipant_of_mem_uniqueElements hclass (List.mem_filter.1 he).1 hkind

/-- An actor in a package, behind a no-break space, and a class that stands alone. -/
theorem useCaseDiagram_of_participant_in_package :
    let w := Workspace.new "Model"
    let source := "package P \x7b\n\u00a0actor A\n\x7d"
    let read := parse w Workspace.root "class A"
    ((∃ created ∈ createdBy w Workspace.root source, created.2.isParticipant) ∧
        detectDiagramKind source = .useCaseDiagram) ∧
      ((parse w Workspace.root source).2.kind? ⟨2⟩ = some .actor ∧
        detectDiagramKind source ≠ .classDiagram) ∧
      ⟨1⟩ ∈ Grid.gridElements (openedFor read.2 ⟨0⟩ read.1) read.1.uniqueElements ∧
        ¬ ElementKind.umlClass.isParticipant := by
  intro w source read
  have hcreated : ∃ created ∈ createdBy w Workspace.root source, created.2.isParticipant :=
    ⟨(⟨2⟩, .actor), by decide +kernel, rfl⟩
  have hkind : (parse w Workspace.root source).2.kind? ⟨2⟩ = some .actor := by decide +kernel
  have hdetected := ((useCaseDiagram_of_participant source).2 w Workspace.root).1
    ⟨⟨2⟩, .actor, by decide, hkind, rfl⟩
  have hgrid : ⟨1⟩ ∈ Grid.gridElements (openedFor read.2 ⟨0⟩ read.1) read.1.uniqueElements := by
    simp only [openedFor, Packages.openViews_eq_insertionSort]
    decide +kernel
  have hopened : (openedFor read.2 ⟨0⟩ read.1).kind? ⟨1⟩ = some .umlClass := by
    simp only [openedFor, Packages.openViews_eq_insertionSort]
    decide +kernel
  have hclass := ((useCaseDiagram_of_participant "class A").2 w Workspace.root).2
    (by decide +kernel) ⟨0⟩ ⟨1⟩ hgrid .umlClass hopened
  exact ⟨⟨hcreated, (useCaseDiagram_of_participant source).1 w Workspace.root hcreated⟩,
    ⟨hkind, hdetected ▸ nofun⟩, hgrid, hclass⟩

end UmlText
