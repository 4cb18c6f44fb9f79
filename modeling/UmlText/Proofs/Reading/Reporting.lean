import UmlText.Proofs.Reading.Balance
import UmlText.Proofs.Reading.Nesting
import UmlText.Proofs.Text.Locating
import UmlText.Reading.Parsed

/-!
# UmlText.Proofs.Reading.Reporting

**Diagnostics point at the lines they report.** A line is reported at most once, with one label on
its own span, and only if it is not passed over; so the reports of lines come in the order of the
lines, and what they select is never empty. A block that the end of a text leaves open is reported
there, with a second label on the line that opened it (`diagnostics_parse`).
-/

namespace UmlText

universe u

open Text (Span)

/-! ### Labels -/

namespace Diagnostic

/-- A diagnostic with one label, a primary one on the given span. -/
def IsAt (d : Diagnostic) (span : Span) : Prop :=
  ∃ message, d.labels = [{ span, message }]

/-- A diagnostic with a primary label on one span and a secondary one on another. -/
def IsBetween (d : Diagnostic) (stop opened : Span) : Prop :=
  ∃ message context, d.labels =
    [{ span := stop, message }, { span := opened, message := context, isPrimary := false }]

theorem IsAt.span_eq {d : Diagnostic} {span : Span} (h : d.IsAt span) {label : Label}
    (hlabel : label ∈ d.labels) : label.span = span := by
  obtain ⟨message, hlabels⟩ := h
  rw [hlabels] at hlabel
  rw [List.mem_singleton.1 hlabel]

theorem IsBetween.span_eq {d : Diagnostic} {stop opened : Span} (h : d.IsBetween stop opened)
    {label : Label} (hlabel : label ∈ d.labels) : label.span = stop ∨ label.span = opened := by
  obtain ⟨message, context, hlabels⟩ := h
  rw [hlabels] at hlabel
  rcases List.mem_cons.1 hlabel with rfl | hlabel
  · exact .inl rfl
  · exact .inr (by rw [List.mem_singleton.1 hlabel])

end Diagnostic

/-- Only a block that was not closed has a second label. -/
theorem Issue.isAt_diagnostic {issue : Issue} (h : ∀ opened, issue ≠ .unclosedBlock opened)
    (span : Span) : (issue.diagnostic span).IsAt span := by
  cases issue with
  | unclosedBlock opened => exact absurd rfl (h opened)
  | _ => exact ⟨_, rfl⟩

namespace Reader

variable {σ : Type u} [ModelStore σ]

/-! ### One line -/

/-- A line is reported at most once, at its span. -/
theorem exists_report_step (r : Reader σ) (line : Text.Line) :
    ∃ reported : Option Diagnostic, (∀ d ∈ reported, d.IsAt line.span) ∧
      (r.step line).diagnostics = r.diagnostics ++ reported.toList := by
  obtain ⟨issue, hreports, hblocks, -⟩ := r.exists_reports_step line
  refine ⟨issue.map (Issue.diagnostic line.span), ?_, hreports.trans (by cases issue <;> rfl)⟩
  intro d hd
  obtain ⟨issue, rfl, rfl⟩ := Option.map_eq_some_iff.1 hd
  refine issue.isAt_diagnostic (fun opened hunclosed => ?_) line.span
  -- A block that is left open is reported at the end, not at a line.
  subst hunclosed
  rw [Option.filter_some_pos rfl, Nesting.issue?] at hblocks
  repeat' split at hblocks
  all_goals cases hblocks

/-- The blocks that are open behind a line are those that were, and the one that it opens. -/
theorem mem_openBlocks_step {r : Reader σ} {line : Text.Line} {opened : Span}
    (h : opened ∈ (r.step line).openBlocks) :
    opened ∈ r.openBlocks ∨ r.opens line ∧ opened = line.span := by
  rw [← blocks_nesting, nesting_step, Nesting.step, isSome_body_nesting] at h
  rw [opens, ← blocks_nesting]
  simp only [Nesting.blocks, List.mem_append] at h ⊢
  cases hshape : LineShape.of r.body.isSome line.text with
  | ignored | unknown | member | relationship => exact .inl (by simpa [hshape] using h)
  | close =>
      simp only [hshape] at h
      split at h
      · exact .inl (.inr (by simpa using h))
      · exact .inl (h.imp_right List.mem_of_mem_tail)
  | package header =>
      simp only [hshape] at h
      split at h
      · next hopens =>
          rcases h with h | h
          · exact .inl (.inl h)
          · exact (List.mem_cons.1 h).elim (fun h => .inr ⟨hopens, h⟩) fun h => .inl (.inr h)
      · exact .inl h
  | entity header =>
      simp only [hshape] at h
      split at h
      · next hopens =>
          rcases h with h | h
          · exact .inr ⟨decide_eq_true hopens, by simpa using h⟩
          · exact .inl (.inr h)
      · exact .inl h

/-! ### Whole texts -/

/-- A diagnostic and the line that it is about. -/
structure LineReport where
  line : Text.Line
  diagnostic : Diagnostic
deriving DecidableEq, Repr

/-- The reports of lines are about some of them, in order, and about none twice. -/
theorem exists_lineReports (r : Reader σ) (lines : List Text.Line) :
    ∃ reports : List LineReport, (reports.map LineReport.line).Sublist lines ∧
      (r.readLines lines).diagnostics = r.diagnostics ++ reports.map LineReport.diagnostic ∧
      ∀ x ∈ reports, Line.isIgnored x.line.text = false ∧ x.diagnostic.IsAt x.line.span := by
  induction lines generalizing r with
  | nil => exact ⟨[], .slnil, (List.append_nil _).symm, by simp⟩
  | cons line rest ih =>
      obtain ⟨reports, hlines, hreports, hat⟩ := ih (r.step line)
      rw [readLines_cons, hreports]
      cases hignored : Line.isIgnored line.text with
      | true =>
          rw [step_of_isIgnored hignored]
          exact ⟨reports, hlines.cons _, rfl, hat⟩
      | false =>
          obtain ⟨reported, hspan, hstep⟩ := r.exists_report_step line
          rw [hstep, List.append_assoc]
          cases reported with
          | none => exact ⟨reports, hlines.cons _, rfl, hat⟩
          | some d =>
              exact ⟨⟨line, d⟩ :: reports, hlines.cons_cons _, rfl,
                List.forall_mem_cons.2 ⟨⟨hignored, hspan d rfl⟩, hat⟩⟩

/-- A block that is open behind lines was open before them or was opened by one of them. -/
theorem mem_openBlocks_readLines {r : Reader σ} {lines : List Text.Line} {opened : Span}
    (h : opened ∈ (r.readLines lines).openBlocks) :
    opened ∈ r.openBlocks ∨ ∃ above line below, lines = above ++ line :: below ∧
      (r.readLines above).opens line ∧ opened = line.span := by
  induction lines generalizing r with
  | nil => exact .inl h
  | cons line rest ih =>
      rcases ih h with hstep | ⟨above, line', below, rfl, hopens⟩
      · rcases mem_openBlocks_step hstep with hbefore | hopens
        · exact .inl hbefore
        · exact .inr ⟨[], line, rest, rfl, hopens⟩
      · exact .inr ⟨line :: above, line', below, rfl, hopens⟩

/-- A report of the end is about a block that a line opened. -/
theorem exists_opener_of_mem_endReports {r : Reader σ} (h : r.openBlocks = [])
    {lines : List Text.Line} {stop : Span} {d : Diagnostic}
    (hd : d ∈ (r.readLines lines).endReports stop) :
    ∃ above line below, lines = above ++ line :: below ∧ (r.readLines above).opens line ∧
      d.IsBetween stop line.span := by
  obtain ⟨opened, hopened, rfl⟩ := List.mem_map.1 hd
  rcases mem_openBlocks_readLines hopened with hbefore | hopens
  · rw [h] at hbefore
    cases hbefore
  · obtain ⟨above, line, below, hlines, hopens, rfl⟩ := hopens
    exact ⟨above, line, below, hlines, hopens, _, _, rfl⟩

end Reader

open Reader (LineReport)

/-- **Diagnostics point at the lines they report.** Whatever the text and the store, the diagnostics
are reports of lines and then reports of the end. The first are about some of the lines, in order
and at most one about each: their one label selects the whole trimmed line, which is not empty, and
each ends before the next begins. The others have a primary label on the empty range at the end of
the text, and a secondary one that selects the whole trimmed line that opened the block. So every
label begins and ends between characters of the text. -/
theorem diagnostics_parse {σ : Type u} [ModelStore σ] (store : σ) (root : ElementId)
    (source : String) :
    let text := source.toList
    let lines := Text.locatedLines text
    let start : Reader σ := { store, root }
    ∃ (ofLines : List LineReport) (ofEnd : List Diagnostic),
      (parse store root source).1.diagnostics = ofLines.map LineReport.diagnostic ++ ofEnd ∧
      (ofLines.map LineReport.line).Sublist lines ∧
      (∀ x ∈ ofLines, x.diagnostic.IsAt x.line.span ∧ x.line.text ≠ [] ∧
        x.line.span.SelectsLine text x.line.text) ∧
      (ofLines.Pairwise fun x y =>
        x.line.span.start < x.line.span.stop ∧ x.line.span.stop < y.line.span.start) ∧
      (∀ d ∈ ofEnd, ∃ above line below, lines = above ++ line :: below ∧
        (start.readLines above).opens line ∧ d.IsBetween (Text.endSpan text) line.span ∧
        line.span.SelectsLine text line.text) ∧
      (Text.endSpan text).Selects text [] ∧ (Text.endSpan text).start = source.utf8ByteSize ∧
      ∀ d ∈ (parse store root source).1.diagnostics, ∀ label ∈ d.labels,
        ∃ part, label.span.Selects text part := by
  intro text lines start
  obtain ⟨ofLines, hsublist, hdiagnostics, hat⟩ := start.exists_lineReports lines
  let last := start.readLines lines
  have hparse : (parse store root source).1.diagnostics
      = ofLines.map LineReport.diagnostic ++ last.endReports (Text.endSpan text) := by
    rw [show (parse store root source).1.diagnostics
        = last.diagnostics ++ last.endReports (Text.endSpan text) from rfl, hdiagnostics]
    rfl
  have hselects : ∀ line ∈ lines, line.span.SelectsLine text line.text := fun _ =>
    Text.selectsLine_of_mem_locatedLines
  have hofLines : ∀ x ∈ ofLines, x.diagnostic.IsAt x.line.span ∧ x.line.text ≠ [] ∧
      x.line.span.SelectsLine text x.line.text := by
    intro x hx
    refine ⟨(hat x hx).2, fun hempty => ?_,
      hselects _ (hsublist.mem (List.mem_map_of_mem hx))⟩
    -- An empty line is passed over.
    have hread := (hat x hx).1
    rw [hempty] at hread
    cases hread
  have hofEnd : ∀ d ∈ last.endReports (Text.endSpan text), ∃ above line below,
      lines = above ++ line :: below ∧ (start.readLines above).opens line ∧
        d.IsBetween (Text.endSpan text) line.span ∧ line.span.SelectsLine text line.text := by
    intro d hd
    obtain ⟨above, line, below, hlines, hopens, hbetween⟩ :=
      Reader.exists_opener_of_mem_endReports (r := start) rfl hd
    exact ⟨above, line, below, hlines, hopens, hbetween, hselects line (by simp [hlines])⟩
  have hpairwise : ofLines.Pairwise fun x y =>
      x.line.span.start < x.line.span.stop ∧ x.line.span.stop < y.line.span.start := by
    have hspans := (Text.pairwise_span_locatedLines text).sublist hsublist
    refine (List.pairwise_map.1 hspans).imp_of_mem fun {x y} hx _ hlt => ⟨?_, hlt⟩
    obtain ⟨-, hne, hline⟩ := hofLines x hx
    exact hline.selects.start_lt_stop hne
  refine ⟨ofLines, last.endReports (Text.endSpan text), hparse, hsublist, hofLines, hpairwise,
    hofEnd, Text.selects_endSpan text, Text.byteLength_toList source, ?_⟩
  intro d hd label hlabel
  rw [hparse] at hd
  rcases List.mem_append.1 hd with hd | hd
  · obtain ⟨x, hx, rfl⟩ := List.mem_map.1 hd
    obtain ⟨hat, -, hline⟩ := hofLines x hx
    rw [hat.span_eq hlabel]
    exact ⟨_, hline.selects⟩
  · obtain ⟨above, line, below, -, -, hbetween, hline⟩ := hofEnd d hd
    rcases hbetween.span_eq hlabel with hspan | hspan
    · exact ⟨_, hspan ▸ Text.selects_endSpan text⟩
    · exact ⟨_, hspan ▸ hline.selects⟩

/-- A wide blank has three bytes and is trimmed, as is the carriage return; an accented letter has
two. -/
example : (parse Workspace.new Workspace.root "\u3000é ?\r\nclass A \x7b").1.diagnostics.map
    (fun d => d.labels.map Label.span) = [[⟨3, 7⟩], [⟨18, 18⟩, ⟨9, 18⟩]] := by
  decide +kernel

end UmlText
