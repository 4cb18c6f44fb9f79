import UmlText.Proofs.Reading.Outcomes
import UmlText.Proofs.Text.Cutting

/-!
# UmlText.Proofs.Reading.Membership

**What becomes of a member line in an open class.** A line that reads as an operation or as an
attribute goes to the class whose body is open, or its refusal is reported. The only lines that are
lost are those that begin like a rendering directive, because directives are passed over before it
is known that a body is open; they are told by their beginnings (`ReadsAsDirective`).
-/

namespace UmlText

universe u

open BackedStore (workspace)

namespace Line

/-! ### Directives that read as members -/

/-- The beginnings of directives that a member line can have. -/
def directiveStarts : List String := ["skinparam", "hide ", "show ", "title "]

/-- A line that begins like a rendering directive. -/
def ReadsAsDirective (line : List Char) : Prop :=
  ∃ start ∈ directiveStarts, start.toList <+: line

/-- What stands in front of a member is a visibility or the first character of its name. -/
theorem isMember_eq_false {line : List Char} (hvisibility : visibility? line = none)
    (hname : identifier? line = none) : isMember line = false := by
  simp [isMember, operation?, attribute?, visibility, hvisibility, hname]

theorem isMember_comment (rest : List Char) : isMember ('\'' :: rest) = false :=
  isMember_eq_false rfl (run?_eq_none (by rintro c ⟨⟩; rfl))

theorem isMember_marker (rest : List Char) : isMember ('@' :: rest) = false :=
  isMember_eq_false rfl (run?_eq_none (by rintro c ⟨⟩; rfl))

/-- Two words do not make a member. -/
theorem isMember_words {line first rest : List Char} {c : Char}
    (hvisibility : visibility? line = none)
    (hname : identifier? line = some (first, ' ' :: c :: rest))
    (hblank : Text.isBlank c = false) (hcolon : c ≠ ':') (hequals : c ≠ '=') :
    isMember line = false := by
  have htrim : Text.trim (' ' :: c :: rest) = c :: Text.trimEnd rest := by
    rw [Text.trim_cons rfl, Text.trim_cons_of_not_isBlank hblank]
  have hopen : word? "(" (' ' :: c :: rest) = none := rfl
  simp only [isMember, operation?, attribute?, visibility, hvisibility, Option.getD_none, hname,
    Option.bind_eq_bind, Option.bind_some, hopen, Option.bind_none, Option.isSome_none,
    Bool.false_or, htrim]
  split
  · next heq => cases heq
  · next heq => exact absurd (List.cons.inj heq).1 hcolon
  · next heq => exact absurd (List.cons.inj heq).1 hequals
  · rfl

theorem isMember_topToBottom (rest : List Char) :
    isMember ("top to bottom direction".toList ++ rest) = false :=
  isMember_words rfl rfl rfl (by decide) (by decide)

theorem isMember_leftToRight (rest : List Char) :
    isMember ("left to right direction".toList ++ rest) = false :=
  isMember_words rfl rfl rfl (by decide) (by decide)

/-- A member line is passed over exactly if it begins like one of four directives. -/
theorem isIgnored_iff_of_isMember {line : List Char} (h : isMember line) :
    isIgnored line ↔ ReadsAsDirective line := by
  constructor
  · intro hignored
    simp only [isIgnored, Bool.or_eq_true, List.isEmpty_iff, List.any_eq_true,
      List.isPrefixOf_iff_prefix] at hignored
    rcases hignored with rfl | ⟨start, hstart, rest, rfl⟩
    · cases h
    · simp only [ignoredStarts, List.mem_cons, List.not_mem_nil, or_false] at hstart
      rcases hstart with rfl | rfl | rfl | rfl | rfl | rfl | rfl | rfl
      · exact absurd h (Bool.eq_false_iff.1 (isMember_comment rest))
      · exact absurd h (Bool.eq_false_iff.1 (isMember_marker rest))
      · exact ⟨_, by simp [directiveStarts], List.prefix_append _ _⟩
      · exact absurd h (Bool.eq_false_iff.1 (isMember_topToBottom rest))
      · exact absurd h (Bool.eq_false_iff.1 (isMember_leftToRight rest))
      · exact ⟨_, by simp [directiveStarts], List.prefix_append _ _⟩
      · exact ⟨_, by simp [directiveStarts], List.prefix_append _ _⟩
      · exact ⟨_, by simp [directiveStarts], List.prefix_append _ _⟩
  · rintro ⟨start, hstart, hprefix⟩
    have hmem : start ∈ ignoredStarts := by
      simp only [directiveStarts, List.mem_cons, List.not_mem_nil, or_false] at hstart
      rcases hstart with rfl | rfl | rfl | rfl <;> simp [ignoredStarts]
    rw [isIgnored, Bool.or_eq_true]
    exact .inr (List.any_eq_true.2 ⟨start, hmem, List.isPrefixOf_iff_prefix.2 hprefix⟩)

/-! ### The member on a line -/

/-- What a class or an interface is given for a line: the operation, if the line reads both as an
operation and as an attribute. -/
def Gives (line : List Char) : Member → Prop
  | .ofOperation o => operation? line = some o
  | .ofAttribute a => operation? line = none ∧ attribute? line = some a
  | .ofLiteral _ => False

theorem exists_gives {line : List Char} (h : isMember line) {kind : ElementKind}
    (hkind : kind.hasFeatures) : ∃ member, Gives line member ∧ member? kind line = some member := by
  have hfeature : member? kind line
      = ((operation? line).map .ofOperation <|> (attribute? line).map .ofAttribute) := by
    cases kind <;> first | rfl | cases hkind
  rw [hfeature]
  cases ho : operation? line with
  | some o => exact ⟨.ofOperation o, ho, rfl⟩
  | none =>
      cases ha : attribute? line with
      | some a => exact ⟨.ofAttribute a, ⟨ho, ha⟩, rfl⟩
      | none => simp [isMember, ho, ha] at h

end Line

variable {σ : Type u} [ModelStore σ] [ViewStore σ] [BackedStore σ]

namespace Reader

/-! ### Lines in an open class -/

/-- A member line is kept if its member is added to the element `id`, or if the refusal of the store
is the one thing that is reported. Nothing else changes. -/
def Keeps (r : Reader σ) (line : Text.Line) (id : ElementId) (member : Member) : Prop :=
  ∃ store, (r.step line = { r with store } ∧
      ∃ element body, (workspace r.store).element? id = some element ∧
        element.body.withMember? member = some body ∧
        workspace store = (workspace r.store).updateElement id fun e => { e with body }) ∨
    (workspace store = workspace r.store ∧ ∃ d : Diagnostic, d.code = some .w104 ∧
      d.primarySpan? = some line.span ∧
      r.step line = { r with store, diagnostics := r.diagnostics ++ [d] })

/-- A member line that is not passed over is kept. -/
theorem keeps_of_not_isIgnored {r : Reader σ} {line : Text.Line} {id : ElementId}
    {kind : ElementKind} (hbody : r.body.map OpenBody.owner = some (.element id kind))
    (hmember : Line.isMember line.text) (hignored : Line.isIgnored line.text = false)
    {member : Member} (hline : Line.member? kind line.text = some member) :
    r.Keeps line id member := by
  have hopen : r.body.isSome := by
    rw [← Option.isSome_map (f := OpenBody.owner), hbody]
    rfl
  have hstep : r.step line = r.addMember line.span line.text := by
    rw [step, hopen, LineShape.of_true_of_isMember hmember hignored]
  rw [Keeps, hstep]
  rcases BackedStore.addMember_cases r.store id member with
    ⟨error, store, hm, hw⟩ | ⟨element, body, store, helement, hmember, hm, hw⟩
  · rw [addMember_refused hbody hline hm]
    exact ⟨store, .inr ⟨hw, _, rfl, Issue.primarySpan?_diagnostic _ line.span, rfl⟩⟩
  · rw [addMember_granted hbody hline hm]
    exact ⟨store, .inl ⟨rfl, element, body, helement, hmember, hw⟩⟩

/-- A line that is passed over keeps no member. -/
theorem not_keeps_of_isIgnored {r : Reader σ} {line : Text.Line} {id : ElementId}
    {member : Member} (hignored : Line.isIgnored line.text) : ¬ r.Keeps line id member := by
  rintro ⟨store, ⟨hstep, element, body, helement, hbody, hw⟩ | ⟨-, d, -, -, hstep⟩⟩
  · rw [step_of_isIgnored hignored] at hstep
    have hsame : workspace r.store = workspace store := congrArg (workspace ·.store) hstep
    have htotal := Workspace.memberTotal_updateElement helement hbody
    rw [← hw, ← hsame] at htotal
    omega
  · rw [step_of_isIgnored hignored] at hstep
    have hlength := congrArg (·.diagnostics.length) hstep
    simp at hlength

/-- **Members of an open class are kept, but for those that begin like a directive.** In every store
and after any lines, a line that is read while the body of a class or an interface is open and that
reads as an operation or an attribute gives its owner that member, or its refusal is reported;
unless it begins like a directive, and then it is lost. -/
theorem keeps_member_iff (store : σ) (root : ElementId) (before : List Text.Line)
    {line : Text.Line} {id : ElementId} {kind : ElementKind}
    (hbody : (({ store, root : Reader σ }).readLines before).body.map OpenBody.owner
      = some (.element id kind))
    (hkind : kind.hasFeatures) (hmember : Line.isMember line.text) :
    (∃ member, Line.Gives line.text member ∧
        (({ store, root : Reader σ }).readLines before).Keeps line id member) ↔
      ¬ Line.ReadsAsDirective line.text := by
  rw [← Line.isIgnored_iff_of_isMember hmember]
  constructor
  · rintro ⟨member, -, hkeeps⟩ hignored
    exact not_keeps_of_isIgnored hignored hkeeps
  · intro hignored
    obtain ⟨member, hgives, hline⟩ := Line.exists_gives hmember hkind
    exact ⟨member, hgives,
      keeps_of_not_isIgnored hbody hmember (Bool.eq_false_iff.2 hignored) hline⟩

/-- The operation of a book is kept, although its name begins like a directive. -/
theorem keeps_member_showcase :
    let lines := Text.locatedLines "class Book \x7b\nshowcase(place): Shelf".toList
    let r := ({ store := .new, root := Workspace.root : Reader Workspace }).readLines (lines.take 1)
    r.body.map OpenBody.owner = some (.element ⟨1⟩ .umlClass) ∧
      ∃ line, lines[1]? = some line ∧ Line.isMember line.text ∧
        ∃ member, Line.Gives line.text member ∧ r.Keeps line ⟨1⟩ member := by
  intro lines r
  have hbody : r.body.map OpenBody.owner = some (.element ⟨1⟩ .umlClass) := by decide +kernel
  have hmember : Line.isMember "showcase(place): Shelf".toList := by decide +kernel
  refine ⟨hbody, ⟨"showcase(place): Shelf".toList, ⟨13, 35⟩⟩, by decide +kernel, hmember, ?_⟩
  refine (keeps_member_iff Workspace.new Workspace.root (lines.take 1) hbody rfl hmember).2 ?_
  rintro ⟨start, hstart, hprefix⟩
  have hnone : ∀ start ∈ Line.directiveStarts,
      start.toList.isPrefixOf "showcase(place): Shelf".toList = false := by decide +kernel
  exact absurd (List.isPrefixOf_iff_prefix.2 hprefix) (Bool.eq_false_iff.1 (hnone start hstart))

/-- The line of a title reads as an attribute, but no class gets it and nothing is reported. -/
theorem loses_member_title :
    let read := readText Workspace.new Workspace.root "class Book \x7b\ntitle : String\n\x7d".toList
    Line.Gives "title : String".toList
        (.ofAttribute { name := "title", typeName := some "String" }) ∧
      read.store.contents = [("Model", .project), ("Book", .umlClass {})] ∧
      read.diagnostics = [] := by
  refine ⟨⟨?_, ?_⟩, ?_, ?_⟩ <;> decide +kernel

end Reader

end UmlText
