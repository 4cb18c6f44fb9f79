import Mathlib.Logic.Relation
import UmlText.Proofs.Reading.Unlocated
import UmlText.Store.Workspace

/-!
# UmlText.Proofs.Reading.Noise

**Layout noise is not read.** White space at the ends of a line, lines without content and carriage
returns are put into a text one edit at a time, in any number and at any place, also inside bodies
and packages (`NoiseEdit`). An edit keeps the content lines of the text, and these are all that a
reader looks at, so every store ends up the same and the diagnostics differ in their spans only
(`sameReading_of_noise`).
-/

namespace UmlText

universe u

open Relation (ReflTransGen)
open Text (isBlank trim)

/-! ### Edits -/

/-- A line starts behind this part of a text. -/
def EndsAtLineStart (before : List Char) : Prop := ∀ c ∈ before.getLast?, c = '\n'

/-- A line ends in front of this part of a text. -/
def StartsAtLineEnd (after : List Char) : Prop := ∀ c ∈ after.head?, c = '\n'

/-- A blank line, a comment, an `@` line or a rendering directive, indented or not. -/
structure IsNoiseLine (line : List Char) : Prop where
  no_newline : '\n' ∉ line
  ignored : Line.isIgnored (trim line)

/-- White space that stands in one line. -/
structure IsMargin (blanks : List Char) : Prop where
  no_newline : '\n' ∉ blanks
  blank : ∀ c ∈ blanks, isBlank c

theorem IsMargin.singleton {c : Char} (hne : '\n' ≠ c) (h : isBlank c) : IsMargin [c] where
  no_newline := by simpa using hne
  blank := by simpa using h

/-- One edit of the layout of a text. -/
inductive NoiseEdit : List Char → List Char → Prop
  /-- A line without content above a line of the text. -/
  | lineAbove {before line after : List Char} (hstart : EndsAtLineStart before)
      (hline : IsNoiseLine line) : NoiseEdit (before ++ after) (before ++ (line ++ '\n' :: after))
  /-- A line without content below the last one. -/
  | lineBelow {source line : List Char} (hline : IsNoiseLine line) :
      NoiseEdit source (source ++ '\n' :: line)
  /-- White space in front of a line. -/
  | indent {before blanks after : List Char} (hstart : EndsAtLineStart before)
      (hblanks : IsMargin blanks) : NoiseEdit (before ++ after) (before ++ (blanks ++ after))
  /-- White space behind a line. -/
  | trail {before blanks after : List Char} (hblanks : IsMargin blanks)
      (hend : StartsAtLineEnd after) : NoiseEdit (before ++ after) (before ++ blanks ++ after)
  /-- A line feed written as `\r\n`. -/
  | carriageReturn {before after : List Char} :
      NoiseEdit (before ++ '\n' :: after) (before ++ '\r' :: '\n' :: after)

/-! ### Content across a seam -/

@[simp] theorem contentLines_nil : contentLines [] = [] := rfl

theorem contentLines_lineStart {before : List Char} (h : EndsAtLineStart before)
    (after : List Char) :
    contentLines (before ++ after) = contentLines before ++ contentLines after := by
  rcases List.eq_nil_or_concat' before with rfl | ⟨front, last, rfl⟩
  · rfl
  · obtain rfl : last = '\n' := h last (by simp)
    rw [List.append_assoc, List.singleton_append, contentLines_append, contentLines_append,
      contentLines_nil, List.append_nil]

theorem contentLines_lineEnd {after : List Char} (h : StartsAtLineEnd after)
    (before : List Char) :
    contentLines (before ++ after) = contentLines before ++ contentLines after := by
  cases after with
  | nil => simp
  | cons c rest =>
      obtain rfl : c = '\n' := h c rfl
      rw [contentLines_append, ← List.nil_append ('\n' :: rest), contentLines_append]
      rfl

/-! ### Blanks at the ends of lines -/

/-- The last line of a text stands where a line starts. -/
theorem exists_eq_append_lastLine (source : List Char) :
    ∃ before last, source = before ++ last ∧ EndsAtLineStart before ∧ '\n' ∉ last := by
  induction source with
  | nil => exact ⟨[], [], rfl, by simp [EndsAtLineStart], by simp⟩
  | cons c rest ih =>
      obtain ⟨before, last, rfl, hstart, hlast⟩ := ih
      by_cases hempty : before = []
      · subst hempty
        by_cases hnewline : c = '\n'
        · exact ⟨[c], last, rfl, by simp [EndsAtLineStart, hnewline], hlast⟩
        · exact ⟨[], c :: last, rfl, hstart, by simp [hlast, Ne.symm hnewline]⟩
      · refine ⟨c :: before, last, rfl, ?_, hlast⟩
        rwa [EndsAtLineStart, List.getLast?_cons_of_ne_nil hempty]

theorem contentLines_of_not_mem {line : List Char} (h : '\n' ∉ line) :
    contentLines line = [trim line].filter fun line => !Line.isIgnored line := by
  rw [contentLines, List.splitOn_eq_singleton h, List.map_singleton]

theorem contentLines_noise {line : List Char} (h : IsNoiseLine line) : contentLines line = [] := by
  rw [contentLines_of_not_mem h.no_newline, List.filter_cons_of_neg (by simp [h.ignored]),
    List.filter_nil]

theorem contentLines_margin_append {blanks : List Char} (h : IsMargin blanks) (cs : List Char) :
    contentLines (blanks ++ cs) = contentLines cs := by
  obtain ⟨hno, hblank⟩ := h
  induction blanks with
  | nil => rfl
  | cons c rest ih =>
      rw [List.mem_cons, not_or] at hno
      rw [List.forall_mem_cons] at hblank
      rw [← ih hno.2 hblank.2, contentLines, contentLines, List.cons_append,
        List.splitOn_cons_eq_if_modifyHead, if_neg (by simpa using Ne.symm hno.1)]
      cases (rest ++ cs).splitOn '\n' with
      | nil => rfl
      | cons first others =>
          rw [List.modifyHead_cons, List.map_cons, Text.trim_cons hblank.1, List.map_cons]

theorem contentLines_append_margin (cs : List Char) {blanks : List Char} (h : IsMargin blanks) :
    contentLines (cs ++ blanks) = contentLines cs := by
  obtain ⟨before, last, rfl, hstart, hlast⟩ := exists_eq_append_lastLine cs
  have hline : contentLines (last ++ blanks) = contentLines last := by
    rw [contentLines_of_not_mem (by simp [hlast, h.no_newline]),
      Text.trim_append_blanks last h.blank, contentLines_of_not_mem hlast]
  rw [List.append_assoc, contentLines_lineStart hstart, contentLines_lineStart hstart, hline]

/-! ### Edited texts -/

/-- An edit of the layout keeps the content lines. -/
theorem NoiseEdit.contentLines_eq {source noisy : List Char} (h : NoiseEdit source noisy) :
    contentLines noisy = contentLines source := by
  cases h with
  | lineAbove hstart hline =>
      rw [contentLines_lineStart hstart, contentLines_lineStart hstart, contentLines_append,
        contentLines_noise hline, List.nil_append]
  | lineBelow hline => rw [contentLines_append, contentLines_noise hline, List.append_nil]
  | indent hstart hblanks =>
      rw [contentLines_lineStart hstart, contentLines_lineStart hstart,
        contentLines_margin_append hblanks]
  | trail hblanks hend =>
      rw [contentLines_lineEnd hend, contentLines_lineEnd hend,
        contentLines_append_margin _ hblanks]
  | @carriageReturn before after =>
      rw [← List.singleton_append, ← List.append_assoc, contentLines_append,
        contentLines_append_margin before (.singleton (by decide) rfl), contentLines_append]

theorem contentLines_eq_of_noise {source noisy : List Char}
    (h : ReflTransGen NoiseEdit source noisy) : contentLines noisy = contentLines source := by
  induction h with
  | refl => rfl
  | tail _ hedit ih => rw [hedit.contentLines_eq, ih]

variable {σ : Type u} [ModelStore σ]

/-- **However much layout noise is put into a text, it is read in the same way**, into every
store. -/
theorem sameReading_of_noise {source noisy : String}
    (h : ReflTransGen NoiseEdit source.toList noisy.toList) (store : σ) (root : ElementId) :
    SameReading (parse store root source) (parse store root noisy) :=
  sameReading_of_contentLines (contentLines_eq_of_noise h).symm store root

/-- A comment and an indent in a body. -/
theorem sameReading_of_noise_in_body :
    ReflTransGen NoiseEdit "class A \x7b\n+x\n\x7d".toList
        "class A \x7b\n\t+x\n' b\n\x7d".toList ∧
      SameReading (parse (Workspace.new "M") Workspace.root "class A \x7b\n+x\n\x7d")
        (parse (Workspace.new "M") Workspace.root "class A \x7b\n\t+x\n' b\n\x7d") := by
  have hline : IsNoiseLine "' b".toList := ⟨by decide, by decide⟩
  have hcomment : NoiseEdit "class A \x7b\n+x\n\x7d".toList
      "class A \x7b\n+x\n' b\n\x7d".toList := by
    simpa using @NoiseEdit.lineAbove "class A \x7b\n+x\n".toList _ "\x7d".toList
      (by simp [EndsAtLineStart]) hline
  have hmargin : IsMargin ['\t'] := .singleton (by decide) rfl
  have hindent : NoiseEdit "class A \x7b\n+x\n' b\n\x7d".toList
      "class A \x7b\n\t+x\n' b\n\x7d".toList := by
    simpa using @NoiseEdit.indent "class A \x7b\n".toList _ "+x\n' b\n\x7d".toList
      (by simp [EndsAtLineStart]) hmargin
  have hnoise := (ReflTransGen.single hcomment).tail hindent
  exact ⟨hnoise, sameReading_of_noise hnoise _ _⟩

end UmlText
