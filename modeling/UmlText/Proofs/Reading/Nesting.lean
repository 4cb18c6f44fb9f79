import UmlText.Proofs.Reading.Stepping

/-!
# UmlText.Proofs.Reading.Nesting

**The blocks of a text are those of its lines.** A reader keeps its open blocks with the elements
that own what is declared in them, and a store may refuse any of these elements. The blocks
themselves do not notice: a refused header still opens its block, and a brace closes what is open,
whoever owns it. So `Nesting`, which knows only where blocks were opened, can be run over the lines
of a text without a store, and every reader agrees with it after every line (`nesting_readLines`).
What is reported of braces, and of lines outside bodies that are not recognized, it tells as well.
-/

namespace UmlText

universe u v

open Text (Span)

/-- The open blocks, each by the line that opened it. -/
structure Nesting where
  body : Option Span := none
  /-- Innermost first. -/
  containers : List Span := []
deriving DecidableEq, Repr

namespace Nesting

/-- The open blocks after a line. A header opens its block without being asked who will own it. -/
def step (n : Nesting) (line : Text.Line) : Nesting :=
  match LineShape.of n.body.isSome line.text with
  | .package header =>
    if header.opens then { n with containers := line.span :: n.containers } else n
  | .entity header => if header.block = .opened then { n with body := some line.span } else n
  | .close =>
    if n.body.isSome then { n with body := none } else { n with containers := n.containers.tail }
  | _ => n

/-- What the open blocks alone find wrong with a line. -/
def issue? (n : Nesting) (line : Text.Line) : Option Issue :=
  match LineShape.of n.body.isSome line.text with
  | .close => if n.body.isNone && n.containers.isEmpty then some .nothingToClose else none
  | .unknown => some .unrecognizedLine
  | _ => none

/-- What the open blocks report of lines that are read one after the other. -/
def reports : Nesting → List Text.Line → List Diagnostic
  | _, [] => []
  | n, line :: rest =>
    (n.issue? line).toList.map (Issue.diagnostic line.span) ++ (n.step line).reports rest

/-- The open blocks, the body before the containers. -/
def blocks (n : Nesting) : List Span := n.body.toList ++ n.containers

/-- An open body takes every brace, and every line that nothing else recognizes. -/
theorem issue?_of_body {n : Nesting} (h : n.body.isSome) (line : Text.Line) :
    n.issue? line = none := by
  unfold issue?
  rw [h]
  split
  · simp [Option.isNone_eq_false_iff.2 h]
  · next hshape => exact absurd hshape (by grind [LineShape.of])
  · rfl

end Nesting

/-- The issues that blocks know of. A member that is not recognized is none of them: who owns the
body decides whether it is reported. -/
def Issue.concernsBlocks : Issue → Bool
  | unrecognizedLine | nothingToClose | unclosedBlock _ => true
  | _ => false

theorem Issue.concernsBlocks_of_w103 {issue : Issue} {span : Span}
    (h : (issue.diagnostic span).code = some .w103) : issue.concernsBlocks := by
  cases issue <;> first | rfl | simp [Issue.diagnostic] at h

theorem Issue.concernsBlocks_of_w100 {issue : Issue} {span : Span}
    (h : (issue.diagnostic span).code = some .w100) (hmember : ∀ kind,
      issue ≠ .unrecognizedMember kind) : issue.concernsBlocks := by
  cases issue with
  | unrecognizedMember kind => exact absurd rfl (hmember kind)
  | _ => first | rfl | simp [Issue.diagnostic] at h

/-- The diagnostics of one code. -/
def coded (code : WarningCode) (diagnostics : List Diagnostic) : List Diagnostic :=
  diagnostics.filter fun d => d.code = some code

@[simp] theorem coded_append (code : WarningCode) (before after : List Diagnostic) :
    coded code (before ++ after) = coded code before ++ coded code after :=
  List.filter_append ..

/-- Where only blocks report a code, it can be read off the issues that they know of. -/
theorem coded_diagnostic {code : WarningCode} {issue : Option Issue} {span : Span}
    (h : ∀ i, issue = some i → (i.diagnostic span).code = some code → i.concernsBlocks) :
    coded code (issue.toList.map (Issue.diagnostic span))
      = coded code ((issue.filter Issue.concernsBlocks).toList.map (Issue.diagnostic span)) := by
  cases issue with
  | none => rfl
  | some i =>
      by_cases hi : i.concernsBlocks
      · rw [Option.filter_some_pos hi]
      · have hcode : (i.diagnostic span).code ≠ some code := fun hcode => hi (h i rfl hcode)
        simp [hi, coded, hcode]

namespace Reader

variable {σ : Type u} [ModelStore σ] {τ : Type v} [ModelStore τ]

omit [ModelStore σ] in
/-- The open blocks of a reader, without their owners. -/
def nesting (r : Reader σ) : Nesting :=
  { body := r.body.map OpenBody.openedAt
    containers := r.containers.map OpenContainer.openedAt }

omit [ModelStore σ] in
@[simp] theorem isSome_body_nesting (r : Reader σ) : r.nesting.body.isSome = r.body.isSome :=
  Option.isSome_map

omit [ModelStore σ] in
theorem blocks_nesting (r : Reader σ) : r.nesting.blocks = r.openBlocks := rfl

/-! ### One line -/

omit [ModelStore σ] in
theorem nesting_report (r : Reader σ) (span : Span) (issue : Issue) :
    (r.report span issue).nesting = r.nesting := rfl

/-- A package opens its block whether it is created or not. -/
theorem nesting_openPackage (r : Reader σ) (span : Span) (header : Line.PackageHeader) :
    (r.openPackage span header).nesting
      = if header.opens then { r.nesting with containers := span :: r.nesting.containers }
        else r.nesting := by
  rcases r.openPackage_cases span header with ⟨error, store, -, h⟩ | ⟨id, store, -, h⟩ <;>
    rw [h] <;> cases header.opens <;> rfl

theorem nesting_openEntity (r : Reader σ) (span : Span) (header : Line.EntityHeader) :
    (r.openEntity span header).nesting
      = if header.block = .opened then { r.nesting with body := some span } else r.nesting := by
  rcases r.openEntity_cases span header with ⟨error, store, -, h⟩ | ⟨id, store, -, h⟩ <;>
    rw [h] <;> by_cases hblock : header.block = .opened <;> simp [hblock, nesting]

omit [ModelStore σ] in
theorem nesting_closeBlock (r : Reader σ) (span : Span) :
    (r.closeBlock span).nesting
      = if r.nesting.body.isSome then { r.nesting with body := none }
        else { r.nesting with containers := r.nesting.containers.tail } := by
  unfold closeBlock
  split
  · next hbody => simp [nesting, hbody]
  · next hbody hcontainers => simp [nesting, hbody, hcontainers]
  · next hbody hcontainers => simp [nesting, report, hbody, hcontainers]

theorem nesting_addMember (r : Reader σ) (span : Span) (line : List Char) :
    (r.addMember span line).nesting = r.nesting := by
  rcases r.addMember_cases span line with ⟨-, h⟩ | ⟨id, kind, -, -, h⟩ |
    ⟨id, kind, member, error, store, -, -, -, h⟩ | ⟨id, kind, member, store, -, -, -, h⟩ <;>
    rw [h] <;> rfl

theorem nesting_relate (r : Reader σ) (span : Span) (parts : Line.RelationshipLine) :
    (r.relate span parts).nesting = r.nesting := by
  rcases r.relate_cases span parts with
    ⟨name, -, -, h⟩ | ⟨left, right, -, -, -, h⟩ | ⟨left, right, blueprint, -, -, -, h⟩ <;>
    rw [h] <;> rfl

/-- **One line does to the blocks of a reader what it does to blocks without owners.** -/
theorem nesting_step (r : Reader σ) (line : Text.Line) :
    (r.step line).nesting = r.nesting.step line := by
  rw [step, Nesting.step, isSome_body_nesting]
  cases LineShape.of r.body.isSome line.text with
  | ignored => rfl
  | member => exact r.nesting_addMember _ _
  | package header => exact r.nesting_openPackage _ _
  | entity header => exact r.nesting_openEntity _ _
  | close => simpa using r.nesting_closeBlock line.span
  | relationship parts => exact r.nesting_relate _ _
  | unknown => exact r.nesting_report _ _

/-! ### The reports of one line -/

omit [ModelStore σ] in
/-- What is reported at a span on the way from one reader to another. -/
def Reports (span : Span) (before after : Reader σ) (issue : Option Issue) : Prop :=
  after.diagnostics = before.diagnostics ++ issue.toList.map (Issue.diagnostic span)

omit [ModelStore σ] in
theorem Reports.nothing {span : Span} {before after : Reader σ}
    (h : after.diagnostics = before.diagnostics) : Reports span before after none :=
  h.trans (List.append_nil _).symm

omit [ModelStore σ] in
theorem reports_report (r : Reader σ) (span : Span) (issue : Issue) :
    Reports span r (r.report span issue) (some issue) := rfl

theorem reports_openPackage (r : Reader σ) (span : Span) (header : Line.PackageHeader) :
    Reports span r (r.openPackage span header) none ∨
      ∃ error, Reports span r (r.openPackage span header)
        (some (.elementRefused .package header.name error)) := by
  rcases r.openPackage_cases span header with ⟨error, store, -, h⟩ | ⟨id, store, -, h⟩ <;>
    rw [h]
  · exact .inr ⟨error, rfl⟩
  · exact .inl (.nothing rfl)

theorem reports_openEntity (r : Reader σ) (span : Span) (header : Line.EntityHeader) :
    Reports span r (r.openEntity span header) none ∨
      ∃ error, Reports span r (r.openEntity span header)
        (some (.elementRefused header.kind header.name error)) := by
  rcases r.openEntity_cases span header with ⟨error, store, -, h⟩ | ⟨id, store, -, h⟩ <;>
    rw [h]
  · exact .inr ⟨error, rfl⟩
  · exact .inl (.nothing rfl)

theorem reports_addMember (r : Reader σ) (span : Span) (line : List Char) :
    Reports span r (r.addMember span line) none ∨
      (∃ kind, Reports span r (r.addMember span line) (some (.unrecognizedMember kind))) ∨
      ∃ error, Reports span r (r.addMember span line) (some (.memberRefused error)) := by
  rcases r.addMember_cases span line with ⟨-, h⟩ | ⟨id, kind, -, -, h⟩ |
    ⟨id, kind, member, error, store, -, -, -, h⟩ | ⟨id, kind, member, store, -, -, -, h⟩ <;> rw [h]
  · exact .inl (.nothing rfl)
  · exact .inr (.inl ⟨kind, rfl⟩)
  · exact .inr (.inr ⟨error, rfl⟩)
  · exact .inl (.nothing rfl)

omit [ModelStore σ] in
/-- A brace is reported if no block is open. -/
theorem reports_closeBlock (r : Reader σ) (span : Span) :
    Reports span r (r.closeBlock span)
      (if r.nesting.body.isNone && r.nesting.containers.isEmpty then some .nothingToClose
        else none) := by
  unfold closeBlock
  split
  · next hbody => simp [nesting, hbody, Reports]
  · next hbody hcontainers => simp [nesting, hbody, hcontainers, Reports]
  · next hbody hcontainers => simp [nesting, hbody, hcontainers, Reports, report]

theorem reports_relate (r : Reader σ) (span : Span) (parts : Line.RelationshipLine) :
    Reports span r (r.relate span parts) none ∨
      (∃ name, Reports span r (r.relate span parts) (some (.unresolvedEndpoint name))) ∨
      Reports span r (r.relate span parts) (some (.unsupportedArrow parts.arrow)) := by
  rcases r.relate_cases span parts with
    ⟨name, -, -, h⟩ | ⟨left, right, -, -, -, h⟩ | ⟨left, right, blueprint, -, -, -, h⟩
  · exact .inr (.inl ⟨name, h ▸ r.reports_report span _⟩)
  · exact .inr (.inr (h ▸ r.reports_report span _))
  · exact .inl (.nothing (by rw [h]))

/-- **A line reports one issue at most.** If blocks know of it, it is what they find wrong with the
line; and no member is missed where no body is open. -/
theorem exists_reports_step (r : Reader σ) (line : Text.Line) :
    ∃ issue : Option Issue, Reports line.span r (r.step line) issue ∧
      issue.filter Issue.concernsBlocks = r.nesting.issue? line ∧
      (r.body = none → ∀ kind, issue ≠ some (.unrecognizedMember kind)) := by
  unfold step Nesting.issue?
  rw [isSome_body_nesting]
  cases hshape : LineShape.of r.body.isSome line.text with
  | ignored => exact ⟨none, .nothing rfl, rfl, fun _ _ => nofun⟩
  | member =>
      have hbody : r.body ≠ none := by
        intro hbody
        rw [hbody] at hshape
        exact LineShape.of_false_ne_member _ hshape
      rcases r.reports_addMember line.span line.text with h | ⟨kind, h⟩ | ⟨error, h⟩
      all_goals exact ⟨_, h, rfl, fun hnone => absurd hnone hbody⟩
  | package header =>
      rcases r.reports_openPackage line.span header with h | ⟨error, h⟩
      all_goals exact ⟨_, h, rfl, fun _ _ => nofun⟩
  | entity header =>
      rcases r.reports_openEntity line.span header with h | ⟨error, h⟩
      all_goals exact ⟨_, h, rfl, fun _ _ => nofun⟩
  | close =>
      refine ⟨_, r.reports_closeBlock line.span, ?_, fun _ kind => ?_⟩
      · dsimp only
        split <;> rfl
      · split <;> nofun
  | relationship parts =>
      rcases r.reports_relate line.span parts with h | ⟨name, h⟩ | h
      all_goals exact ⟨_, h, rfl, fun _ _ => nofun⟩
  | unknown => exact ⟨_, r.reports_report line.span _, rfl, fun _ _ => nofun⟩

/-! ### Whole texts -/

theorem nesting_readLines (r : Reader σ) (lines : List Text.Line) :
    (r.readLines lines).nesting = lines.foldl Nesting.step r.nesting := by
  induction lines generalizing r with
  | nil => rfl
  | cons line rest ih => rw [readLines_cons, ih, nesting_step, List.foldl_cons]

/-- The reports of braces are those that the blocks give. -/
theorem coded_w103_readLines (r : Reader σ) (lines : List Text.Line) :
    coded .w103 (r.readLines lines).diagnostics
      = coded .w103 r.diagnostics ++ coded .w103 (r.nesting.reports lines) := by
  induction lines generalizing r with
  | nil => simp [Nesting.reports, coded]
  | cons line rest ih =>
      obtain ⟨issue, hreports, hblocks, -⟩ := r.exists_reports_step line
      have hline : coded .w103 (r.step line).diagnostics = coded .w103 r.diagnostics
          ++ coded .w103 ((r.nesting.issue? line).toList.map (Issue.diagnostic line.span)) := by
        rw [hreports, coded_append, coded_diagnostic fun _ _ => Issue.concernsBlocks_of_w103,
          hblocks]
      rw [readLines_cons, ih, hline, nesting_step, Nesting.reports, coded_append,
        List.append_assoc]

/-- What is reported of the lines that are read while no body is open. -/
def outsideReports : Reader σ → List Text.Line → List Diagnostic
  | _, [] => []
  | r, line :: rest =>
    (if r.body.isNone then (r.step line).diagnostics.drop r.diagnostics.length else [])
      ++ (r.step line).outsideReports rest

/-- Outside bodies the lines that are not recognized are those that the blocks do not know. -/
theorem coded_w100_outsideReports (r : Reader σ) (lines : List Text.Line) :
    coded .w100 (r.outsideReports lines) = coded .w100 (r.nesting.reports lines) := by
  induction lines generalizing r with
  | nil => rfl
  | cons line rest ih =>
      obtain ⟨issue, hreports, hblocks, hmember⟩ := r.exists_reports_step line
      have hadded : (r.step line).diagnostics.drop r.diagnostics.length
          = issue.toList.map (Issue.diagnostic line.span) := by
        rw [hreports, List.drop_left]
      rw [outsideReports, Nesting.reports, coded_append, coded_append, ih, nesting_step, hadded]
      congr 1
      cases hbody : r.body with
      | none =>
          have hconcerns : ∀ i, issue = some i → (i.diagnostic line.span).code = some .w100 →
              i.concernsBlocks := fun i hi hcode =>
            Issue.concernsBlocks_of_w100 hcode fun kind heq =>
              hmember hbody kind (heq ▸ hi)
          rw [← hblocks, ← coded_diagnostic hconcerns]
          rfl
      | some body =>
          rw [Nesting.issue?_of_body (by simp [hbody])]
          rfl

omit [ModelStore σ] in
/-- At the end every open block is reported, by the line that opened it. -/
theorem endReports_eq (r : Reader σ) (stop : Span) :
    r.endReports stop
      = r.nesting.blocks.map fun opened => (Issue.unclosedBlock opened).diagnostic stop := by
  rw [blocks_nesting]
  rfl

/-- **Refusals do not disturb the blocks.** Read one text into any two stores, whatever each of them
refuses. After every line the same blocks are open in both, in particular as many containers, and a
body in one if in the other. In the end both runs have reported the same braces, and the same lines
outside bodies as unrecognized, in the same order and at the same places. -/
theorem blocks_independent_of_store (first : σ) (second : τ) (root root' : ElementId)
    (source : List Char) :
    let lines := Text.locatedLines source
    let start : Reader σ := { store := first, root }
    let start' : Reader τ := { store := second, root := root' }
    (∀ n, (start.readLines (lines.take n)).containers.length
          = (start'.readLines (lines.take n)).containers.length ∧
        (start.readLines (lines.take n)).body.isSome
          = (start'.readLines (lines.take n)).body.isSome ∧
        (start.readLines (lines.take n)).openBlocks
          = (start'.readLines (lines.take n)).openBlocks) ∧
      ((readText first root source).diagnostics.filter fun d => d.code = some .w103)
        = ((readText second root' source).diagnostics.filter fun d => d.code = some .w103) ∧
      ((start.outsideReports lines).filter fun d => d.code = some .w100)
        = ((start'.outsideReports lines).filter fun d => d.code = some .w100) := by
  intro lines start start'
  have hnesting : ∀ before, (start.readLines before).nesting = (start'.readLines before).nesting := by
    intro before
    rw [nesting_readLines, nesting_readLines]
    rfl
  refine ⟨fun n => ⟨?_, ?_, ?_⟩, ?_, ?_⟩
  · have hcontainers := congrArg (fun n => n.containers.length) (hnesting (lines.take n))
    simpa [nesting] using hcontainers
  · simpa using congrArg (fun n => n.body.isSome) (hnesting (lines.take n))
  · exact congrArg Nesting.blocks (hnesting (lines.take n))
  · show coded .w103 (readText first root source).diagnostics
      = coded .w103 (readText second root' source).diagnostics
    rw [diagnostics_readText, diagnostics_readText, coded_append, coded_append,
      coded_w103_readLines, coded_w103_readLines, endReports_eq, endReports_eq, hnesting lines]
    rfl
  · exact (start.coded_w100_outsideReports lines).trans (start'.coded_w100_outsideReports lines).symm

end Reader

end UmlText
