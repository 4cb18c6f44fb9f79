import UmlText.Proofs.Reading.Stepping
import UmlText.Proofs.Text.Cutting
import UmlText.Reading.Parsed

/-!
# UmlText.Proofs.Reading.Unlocated

**Where the lines of a text stand does not matter.** Spans are carried along by a reader but never
looked at: a reader without its spans (`Reader.unlocated`) reads the same lines without theirs. With
lines that are passed over left out, what is made of a text depends on its content lines alone, but
for the spans in its diagnostics (`sameReading_of_contentLines`).
-/

namespace UmlText

universe u

open Text (Span)

/-! ### Without spans -/

/-- A line without its place in the text. -/
def Text.Line.unlocated (line : Text.Line) : Text.Line := { line with span := default }

def Label.unlocated (label : Label) : Label := { label with span := default }

/-- A diagnostic that points nowhere. -/
def Diagnostic.unlocated (d : Diagnostic) : Diagnostic :=
  { d with labels := d.labels.map Label.unlocated }

def Issue.unlocated : Issue → Issue
  | unclosedBlock _ => unclosedBlock default
  | issue => issue

theorem Issue.unlocated_diagnostic (issue : Issue) (span : Span) :
    (issue.diagnostic span).unlocated = issue.unlocated.diagnostic default := by
  cases issue <;> rfl

def OpenBody.unlocated (body : OpenBody) : OpenBody := { body with openedAt := default }

def OpenContainer.unlocated (container : OpenContainer) : OpenContainer :=
  { container with openedAt := default }

namespace Reader

variable {σ : Type u}

/-- A reader that has forgotten where everything stood. -/
def unlocated (r : Reader σ) : Reader σ :=
  { r with
    containers := r.containers.map OpenContainer.unlocated
    body := r.body.map OpenBody.unlocated
    diagnostics := r.diagnostics.map Diagnostic.unlocated }

variable {r : Reader σ}

theorem parent_unlocated (r : Reader σ) : r.unlocated.parent = r.parent := by
  simp only [parent, unlocated]
  cases r.containers <;> rfl

theorem owner_unlocated (r : Reader σ) :
    r.unlocated.body.map OpenBody.owner = r.body.map OpenBody.owner := by
  simp only [unlocated, Option.map_map]
  rfl

theorem isSome_body_unlocated (r : Reader σ) : r.unlocated.body.isSome = r.body.isSome :=
  Option.isSome_map

theorem unlocated_report (r : Reader σ) (span : Span) (issue : Issue) :
    (r.report span issue).unlocated = r.unlocated.report default issue.unlocated := by
  simp [report, unlocated, Issue.unlocated_diagnostic]

/-! ### Lines without spans -/

variable [ModelStore σ]

theorem unlocated_openPackage (r : Reader σ) (span : Span) (header : Line.PackageHeader) :
    (r.openPackage span header).unlocated = r.unlocated.openPackage default header := by
  rcases h : ModelStore.createElement r.store
      { kind := .package, parent := r.parent, name := header.name, isAbstract := false } with
    ⟨error | id, store⟩
  · rw [openPackage_refused h, openPackage_refused (r := r.unlocated) (parent_unlocated r ▸ h),
      parent_unlocated]
    cases header.opens <;>
      simp [unlocated, OpenContainer.unlocated, Issue.unlocated_diagnostic, Issue.unlocated]
  · rw [openPackage_granted h, openPackage_granted (r := r.unlocated) (parent_unlocated r ▸ h)]
    cases header.opens <;> rfl

theorem unlocated_openEntity (r : Reader σ) (span : Span) (header : Line.EntityHeader) :
    (r.openEntity span header).unlocated = r.unlocated.openEntity default header := by
  rcases h : ModelStore.createElement r.store
      { kind := header.kind, parent := r.parent, name := header.name,
        isAbstract := header.isAbstract } with ⟨error | id, store⟩
  · rw [openEntity_refused h, openEntity_refused (r := r.unlocated) (parent_unlocated r ▸ h)]
    by_cases hopened : header.block = .opened <;>
      simp [hopened, unlocated, OpenBody.unlocated, Issue.unlocated_diagnostic, Issue.unlocated]
  · rw [openEntity_granted h, openEntity_granted (r := r.unlocated) (parent_unlocated r ▸ h)]
    by_cases hopened : header.block = .opened <;> simp [hopened, unlocated, OpenBody.unlocated]

omit [ModelStore σ] in
theorem unlocated_closeBlock (r : Reader σ) (span : Span) :
    (r.closeBlock span).unlocated = r.unlocated.closeBlock default := by
  rcases hbody : r.body with _ | body
  · rcases hcontainers : r.containers with _ | ⟨container, outer⟩
    · simp only [closeBlock, unlocated, hbody, hcontainers]
      simp [report, hbody, hcontainers, Issue.unlocated_diagnostic, Issue.unlocated]
    · simp [closeBlock, unlocated, hbody, hcontainers]
  · simp [closeBlock, unlocated, hbody]

theorem unlocated_addMember (r : Reader σ) (span : Span) (line : List Char) :
    (r.addMember span line).unlocated = r.unlocated.addMember default line := by
  simp only [addMember, owner_unlocated]
  split
  · next id kind howner =>
      split
      · exact unlocated_report r span _
      · next member hmember =>
          simp only [show r.unlocated.store = r.store from rfl]
          split
          · rfl
          · exact unlocated_report _ span _
  · rfl
  · rfl

theorem unlocated_relate (r : Reader σ) (span : Span) (parts : Line.RelationshipLine) :
    (r.relate span parts).unlocated = r.unlocated.relate default parts := by
  have hresolve : r.unlocated.resolve? = r.resolve? := rfl
  simp only [relate, hresolve]
  split
  · exact unlocated_report r span _
  · exact unlocated_report r span _
  · split
    · exact unlocated_report r span _
    · rfl

/-- A line is read in the same way wherever it stands. -/
theorem unlocated_step (r : Reader σ) (line : Text.Line) :
    (r.step line).unlocated = r.unlocated.step line.unlocated := by
  simp only [step, isSome_body_unlocated, Text.Line.unlocated]
  cases LineShape.of r.body.isSome line.text with
  | ignored => rfl
  | member => exact r.unlocated_addMember line.span line.text
  | package header => exact r.unlocated_openPackage line.span header
  | entity header => exact r.unlocated_openEntity line.span header
  | close => exact r.unlocated_closeBlock line.span
  | relationship parts => exact r.unlocated_relate line.span parts
  | unknown => exact r.unlocated_report line.span _

theorem unlocated_readLines (r : Reader σ) (lines : List Text.Line) :
    (r.readLines lines).unlocated = r.unlocated.readLines (lines.map Text.Line.unlocated) := by
  induction lines generalizing r with
  | nil => rfl
  | cons line rest ih => rw [readLines_cons, ih, unlocated_step, List.map_cons, readLines_cons]

omit [ModelStore σ] in
theorem unlocated_finish (r : Reader σ) (stop : Span) :
    (r.finish stop).unlocated = r.unlocated.finish default := by
  cases hbody : r.body <;>
    simp [finish, unlocated, openBlocks, hbody, Issue.unlocated_diagnostic, Issue.unlocated,
      OpenBody.unlocated, OpenContainer.unlocated, Function.comp_def]

end Reader

/-! ### Content lines -/

/-- The trimmed lines of a text that are not passed over. -/
def contentLines (source : List Char) : List (List Char) :=
  ((source.splitOn '\n').map Text.trim).filter fun line => !Line.isIgnored line

theorem contentLines_append (cs rest : List Char) :
    contentLines (cs ++ '\n' :: rest) = contentLines cs ++ contentLines rest := by
  rw [contentLines, List.splitOn_append_cons_self, List.map_append, List.filter_append]
  rfl

variable {σ : Type u} [ModelStore σ]

/-- Without spans, a text is read as its content lines. -/
theorem Reader.unlocated_readText (store : σ) (root : ElementId) (source : List Char) :
    (readText store root source).unlocated
      = (({ store, root : Reader σ }).readLines
          ((contentLines source).map fun line => ⟨line, default⟩)).finish default := by
  have hlines : ((Text.locatedLines source).map Text.Line.unlocated).filter
        (fun line => !Line.isIgnored line.text)
      = (contentLines source).map fun line => ⟨line, default⟩ := by
    rw [contentLines, ← Text.map_text_locateFrom 0, ← Text.locatedLines, List.filter_map,
      List.filter_map, List.map_map]
    rfl
  rw [readText, unlocated_finish, unlocated_readLines, ← readLines_filter, hlines]
  rfl

/-- Two readings that differ in the spans of their diagnostics at most. -/
structure SameReading (a b : Parsed × σ) : Prop where
  store_eq : a.2 = b.2
  aliases_eq : a.1.aliases = b.1.aliases
  blueprints_eq : a.1.blueprints = b.1.blueprints
  diagnostics_eq :
    a.1.diagnostics.map Diagnostic.unlocated = b.1.diagnostics.map Diagnostic.unlocated

/-- **Texts with the same content lines are read in the same way**, into every store. -/
theorem sameReading_of_contentLines {source other : String}
    (h : contentLines source.toList = contentLines other.toList) (store : σ) (root : ElementId) :
    SameReading (parse store root source) (parse store root other) := by
  have heq : (Reader.readText store root source.toList).unlocated
      = (Reader.readText store root other.toList).unlocated := by
    rw [Reader.unlocated_readText, Reader.unlocated_readText, h]
  exact ⟨(congrArg Reader.store heq :), (congrArg Reader.aliases heq :),
    (congrArg Reader.blueprints heq :), (congrArg Reader.diagnostics heq :)⟩

end UmlText
