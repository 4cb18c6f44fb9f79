import UmlText.Proofs.Reading.Stepping
import UmlText.Store.Workspace

/-!
# UmlText.Proofs.Reading.Balance

**The balance of open blocks.** Packages stand on a stack and the body of an entity in a single
place, and a closing brace is for either. Along every run, for every store, the blocks that are open
are those that were opened less those that were closed, and less the bodies that lost their place:
the header of an entity is also read while a body is open, and its own body then takes the place of
that one without closing it. What is open at the end of a text is reported block by block.
-/

namespace UmlText

universe u

open Text (Span)

namespace Reader

variable {σ : Type u} [ModelStore σ]

/-! ### What is counted -/

/-- Whether a line is read as a header that opens a block. -/
def opens (r : Reader σ) (line : Text.Line) : Bool :=
  match LineShape.of r.body.isSome line.text with
  | .package header => header.opens
  | .entity header => header.block = .opened
  | _ => false

/-- Whether a line is a closing brace, and there is a block to close. -/
def closes (r : Reader σ) (line : Text.Line) : Bool :=
  LineShape.of r.body.isSome line.text = .close && !r.openBlocks.isEmpty

/-- Whether a line is a closing brace without a block to close. -/
def underflows (r : Reader σ) (line : Text.Line) : Bool :=
  LineShape.of r.body.isSome line.text = .close && r.openBlocks.isEmpty

/-- Whether a line opens a body in the place of one that is open. -/
def displaces (r : Reader σ) (line : Text.Line) : Bool :=
  match LineShape.of r.body.isSome line.text with
  | .entity header => header.block = .opened && r.body.isSome
  | _ => false

/-- For how many lines `p` holds when they are read. -/
def count (p : Reader σ → Text.Line → Bool) : Reader σ → List Text.Line → Nat
  | _, [] => 0
  | r, line :: rest => (p r line).toNat + count p (r.step line) rest

/-- The reports of unbalanced braces. -/
def braceReports (diagnostics : List Diagnostic) : Nat :=
  diagnostics.countP fun d => d.code = some .w103

/-! ### One line -/

omit [ModelStore σ] in
theorem length_openBlocks (r : Reader σ) :
    r.openBlocks.length = r.containers.length + r.body.isSome.toNat := by
  rw [openBlocks, List.length_append, List.length_map, Nat.add_comm]
  cases r.body <;> rfl

theorem length_openBlocks_openPackage (r : Reader σ) (span : Span)
    (header : Line.PackageHeader) :
    (r.openPackage span header).openBlocks.length
      = r.openBlocks.length + header.opens.toNat := by
  have hframe : (r.openPackage span header).body = r.body ∧
      (r.openPackage span header).containers.length
        = r.containers.length + header.opens.toNat := by
    rcases r.openPackage_cases span header with ⟨error, store, -, h⟩ | ⟨id, store, -, h⟩ <;>
      rw [h] <;> cases header.opens <;> exact ⟨rfl, rfl⟩
  rw [length_openBlocks, length_openBlocks, hframe.1, hframe.2]
  omega

/-- An entity opens at most one body, which takes the place of the one before. -/
theorem length_openBlocks_openEntity (r : Reader σ) (span : Span) (header : Line.EntityHeader) :
    (r.openEntity span header).openBlocks.length
        + (header.block = .opened && r.body.isSome : Bool).toNat
      = r.openBlocks.length + (header.block = .opened : Bool).toNat := by
  have hframe : (r.openEntity span header).containers = r.containers ∧
      (r.openEntity span header).body.isSome
        = (header.block = .opened || r.body.isSome : Bool) := by
    rcases r.openEntity_cases span header with ⟨error, store, -, h⟩ | ⟨id, store, -, h⟩ <;>
      rw [h] <;> by_cases hblock : header.block = .opened <;> simp [hblock]
  rw [length_openBlocks, length_openBlocks, hframe.1, hframe.2]
  by_cases hblock : header.block = .opened <;> cases r.body.isSome <;> simp [hblock]

omit [ModelStore σ] in
theorem length_openBlocks_closeBlock (r : Reader σ) (span : Span) :
    (r.closeBlock span).openBlocks.length + (!r.openBlocks.isEmpty).toNat
      = r.openBlocks.length := by
  rcases r.closeBlock_cases span with ⟨hnone, h⟩ | ⟨opened, body, containers, h, hopened⟩
  · rw [h, hnone]
    exact congrArg List.length hnone
  · rw [h, hopened]
    rfl

/-- The blocks stay as they are when a member is read. -/
theorem openBlocks_addMember (r : Reader σ) (span : Span) (line : List Char) :
    (r.addMember span line).openBlocks = r.openBlocks := by
  rcases r.addMember_cases span line with ⟨-, h⟩ | ⟨id, kind, -, -, h⟩ |
    ⟨id, kind, member, error, store, -, -, -, h⟩ | ⟨id, kind, member, store, -, -, -, h⟩ <;>
    rw [h] <;> rfl

theorem openBlocks_relate (r : Reader σ) (span : Span) (parts : Line.RelationshipLine) :
    (r.relate span parts).openBlocks = r.openBlocks := by
  rcases r.relate_cases span parts with
    ⟨name, -, -, h⟩ | ⟨left, right, -, -, -, h⟩ | ⟨left, right, blueprint, -, -, -, h⟩ <;>
    rw [h] <;> rfl

/-- A line changes the number of open blocks by those that it opens, closes or displaces. -/
theorem length_openBlocks_step (r : Reader σ) (line : Text.Line) :
    (r.step line).openBlocks.length + (r.closes line).toNat + (r.displaces line).toNat
      = r.openBlocks.length + (r.opens line).toNat := by
  cases hshape : LineShape.of r.body.isSome line.text with
  | ignored => simp [step, closes, displaces, opens, hshape]
  | member => simp [step, closes, displaces, opens, hshape, openBlocks_addMember]
  | package header =>
      simp [step, closes, displaces, opens, hshape, length_openBlocks_openPackage]
  | entity header =>
      simpa [step, closes, displaces, opens, hshape] using
        length_openBlocks_openEntity r line.span header
  | close =>
      simpa [step, closes, displaces, opens, hshape] using
        length_openBlocks_closeBlock r line.span
  | relationship parts => simp [step, closes, displaces, opens, hshape, openBlocks_relate]
  | unknown =>
      simp [step, closes, displaces, opens, hshape]
      rfl

/-! ### Reports of braces -/

theorem braceReports_append (before after : List Diagnostic) :
    braceReports (before ++ after) = braceReports before + braceReports after :=
  List.countP_append

omit [ModelStore σ] in
theorem braceReports_report (r : Reader σ) (span : Span) (issue : Issue) :
    braceReports (r.report span issue).diagnostics
      = braceReports r.diagnostics + braceReports [issue.diagnostic span] :=
  braceReports_append _ _

/-- No header is reported for its braces. -/
theorem braceReports_openPackage (r : Reader σ) (span : Span) (header : Line.PackageHeader) :
    braceReports (r.openPackage span header).diagnostics = braceReports r.diagnostics := by
  rcases r.openPackage_cases span header with ⟨error, store, -, h⟩ | ⟨id, store, -, h⟩ <;>
    rw [h]
  exact braceReports_append _ _

theorem braceReports_openEntity (r : Reader σ) (span : Span) (header : Line.EntityHeader) :
    braceReports (r.openEntity span header).diagnostics = braceReports r.diagnostics := by
  rcases r.openEntity_cases span header with ⟨error, store, -, h⟩ | ⟨id, store, -, h⟩ <;>
    rw [h]
  exact braceReports_append _ _

omit [ModelStore σ] in
theorem braceReports_closeBlock (r : Reader σ) (span : Span) :
    braceReports (r.closeBlock span).diagnostics
      = braceReports r.diagnostics + r.openBlocks.isEmpty.toNat := by
  rcases r.closeBlock_cases span with ⟨hnone, h⟩ | ⟨opened, body, containers, h, hopened⟩
  · rw [h, braceReports_report, hnone]
    rfl
  · rw [h, hopened]
    rfl

theorem braceReports_addMember (r : Reader σ) (span : Span) (line : List Char) :
    braceReports (r.addMember span line).diagnostics = braceReports r.diagnostics := by
  rcases r.addMember_cases span line with ⟨-, h⟩ | ⟨id, kind, -, -, h⟩ |
    ⟨id, kind, member, error, store, -, -, -, h⟩ | ⟨id, kind, member, store, -, -, -, h⟩ <;> rw [h]
  · exact braceReports_report _ _ _
  · exact braceReports_report _ _ _

theorem braceReports_relate (r : Reader σ) (span : Span) (parts : Line.RelationshipLine) :
    braceReports (r.relate span parts).diagnostics = braceReports r.diagnostics := by
  rcases r.relate_cases span parts with
    ⟨name, -, -, h⟩ | ⟨left, right, -, -, -, h⟩ | ⟨left, right, blueprint, -, -, -, h⟩ <;> rw [h]
  · exact braceReports_report _ _ _
  · exact braceReports_report _ _ _

/-- A line is reported for its braces exactly if it closes nothing. -/
theorem braceReports_step (r : Reader σ) (line : Text.Line) :
    braceReports (r.step line).diagnostics
      = braceReports r.diagnostics + (r.underflows line).toNat := by
  cases hshape : LineShape.of r.body.isSome line.text with
  | ignored => simp [step, underflows, hshape]
  | member => simp [step, underflows, hshape, braceReports_addMember]
  | package header => simp [step, underflows, hshape, braceReports_openPackage]
  | entity header => simp [step, underflows, hshape, braceReports_openEntity]
  | close => simp [step, underflows, hshape, braceReports_closeBlock]
  | relationship parts => simp [step, underflows, hshape, braceReports_relate]
  | unknown =>
      simp only [step, hshape, braceReports_report]
      simp [underflows, hshape, braceReports, Issue.diagnostic]

/-! ### Whole texts -/

/-- After any lines, what was opened is open, closed or displaced. -/
theorem length_openBlocks_readLines (r : Reader σ) (lines : List Text.Line) :
    (r.readLines lines).openBlocks.length + r.count closes lines + r.count displaces lines
      = r.openBlocks.length + r.count opens lines := by
  induction lines generalizing r with
  | nil => rfl
  | cons line rest ih =>
      have hstep := r.length_openBlocks_step line
      have hrest := ih (r.step line)
      simp only [readLines_cons, count]
      omega

theorem braceReports_readLines (r : Reader σ) (lines : List Text.Line) :
    braceReports (r.readLines lines).diagnostics
      = braceReports r.diagnostics + r.count underflows lines := by
  induction lines generalizing r with
  | nil => rfl
  | cons line rest ih =>
      have hstep := r.braceReports_step line
      have hrest := ih (r.step line)
      simp only [readLines_cons, count]
      omega

omit [ModelStore σ] in
theorem braceReports_endReports (r : Reader σ) (stop : Span) :
    braceReports (r.endReports stop) = r.openBlocks.length := by
  rw [endReports, braceReports, List.countP_map]
  exact List.countP_eq_length.2 fun _ _ => rfl

/-- **The balance of open blocks.** After any prefix of the lines of a text, the containers and the
body that are open are the blocks opened so far, less those that a brace closed and the bodies that
lost their place to another one. At the end every block that is still open is reported, and before
it every brace that closes nothing: these are all the reports of unbalanced braces. -/
theorem openBlocks_balance (store : σ) (root : ElementId) (source : List Char) :
    let start : Reader σ := { store, root }
    let lines := Text.locatedLines source
    let last := start.readLines lines
    (∀ n, (start.readLines (lines.take n)).containers.length
          + (start.readLines (lines.take n)).body.isSome.toNat
          + start.count closes (lines.take n) + start.count displaces (lines.take n)
        = start.count opens (lines.take n)) ∧
      (readText store root source).diagnostics
        = last.diagnostics ++ last.endReports (Text.endSpan source) ∧
      (last.endReports (Text.endSpan source)).length + start.count closes lines
          + start.count displaces lines = start.count opens lines ∧
      braceReports last.diagnostics = start.count underflows lines ∧
      braceReports (last.endReports (Text.endSpan source))
        = (last.endReports (Text.endSpan source)).length := by
  intro start lines last
  have hbalance : ∀ before, (start.readLines before).openBlocks.length
      + start.count closes before + start.count displaces before = start.count opens before := by
    intro before
    have h := start.length_openBlocks_readLines before
    rwa [show start.openBlocks.length = 0 from rfl, Nat.zero_add] at h
  have hend : (last.endReports (Text.endSpan source)).length = last.openBlocks.length :=
    List.length_map _
  refine ⟨fun n => ?_, diagnostics_readText store root source, ?_, ?_, ?_⟩
  · rw [← length_openBlocks]
    exact hbalance _
  · rw [hend]
    exact hbalance lines
  · have h := start.braceReports_readLines lines
    rwa [show braceReports start.diagnostics = 0 from rfl, Nat.zero_add] at h
  · rw [braceReports_endReports, hend]

/-- Two classes are opened and each has its closing brace, but the second header displaces the body
of the first: after the first brace nothing is open, and the second one is reported. -/
theorem openBlocks_unbalanced_nested :
    let start : Reader Workspace := { store := .new, root := Workspace.root }
    let lines := Text.locatedLines "class A \x7b\nclass B \x7b\n\x7d\n\x7d".toList
    start.count opens lines = 2 ∧ lines.countP (fun line => line.text = ['\x7d']) = 2 ∧
      (start.readLines (lines.take 3)).openBlocks.length = 0 ∧
      start.count opens (lines.take 3) - start.count closes (lines.take 3) = 1 ∧
      braceReports (readText Workspace.new Workspace.root
        "class A \x7b\nclass B \x7b\n\x7d\n\x7d".toList).diagnostics = 1 := by
  decide +kernel

end Reader

end UmlText
