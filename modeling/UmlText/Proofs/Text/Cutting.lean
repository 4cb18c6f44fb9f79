import Mathlib.Data.List.Basic
import Mathlib.Data.List.TakeWhile
import UmlText.Reading.Line
import UmlText.Text.Span

/-!
# UmlText.Proofs.Text.Cutting

**Taking a text apart where it was put together.** Trimming, cutting and reading a run undo an
append, each under the condition that the cut can only fall on the seam: the parts have no blank
ends, or do not contain the character that the text is cut at.
-/

namespace UmlText

namespace Text

/-! ### Trimming -/

/-- A text whose ends are not blank. -/
def Trimmed (cs : List Char) : Prop :=
  (∀ c ∈ cs.head?, isBlank c = false) ∧ ∀ c ∈ cs.getLast?, isBlank c = false

theorem trimStart_eq_self {cs : List Char} (h : ∀ c ∈ cs.head?, isBlank c = false) :
    trimStart cs = cs := by
  cases cs with
  | nil => rfl
  | cons c rest => simp [trimStart, h c rfl]

theorem trimEnd_eq_self {cs : List Char} (h : ∀ c ∈ cs.getLast?, isBlank c = false) :
    trimEnd cs = cs := by
  have hrev : trimStart cs.reverse = cs.reverse := by
    refine trimStart_eq_self fun c hc => h c ?_
    rwa [List.head?_reverse] at hc
  rw [trimEnd, ← trimStart, hrev, List.reverse_reverse]

theorem Trimmed.trim_eq {cs : List Char} (h : Trimmed cs) : trim cs = cs := by
  rw [trim, trimStart_eq_self h.1, trimEnd_eq_self h.2]

/-- Blank characters in front are trimmed away. -/
theorem trim_cons {c : Char} (hc : isBlank c = true) (cs : List Char) :
    trim (c :: cs) = trim cs := by
  simp [trim, trimStart, hc]

/-- Blank characters behind are trimmed away. -/
theorem trim_append_blanks (cs : List Char) {blanks : List Char} (hb : ∀ c ∈ blanks, isBlank c) :
    trim (cs ++ blanks) = trim cs := by
  have hend : ∀ ds : List Char, trimEnd (ds ++ blanks) = trimEnd ds := by
    intro ds
    rw [trimEnd, List.reverse_append, List.dropWhile_append_of_pos (by simpa using hb), trimEnd]
  rw [trim, trim, trimStart, trimStart, List.dropWhile_append]
  split
  · next hempty =>
      rw [List.dropWhile_eq_nil_iff.2 hb, List.isEmpty_iff.1 hempty]
  · exact hend _

theorem not_isBlank_of_mem_head?_trimStart (cs : List Char) :
    ∀ c ∈ (trimStart cs).head?, isBlank c = false := by
  intro c hc
  have h := List.head?_dropWhile_not isBlank cs
  rw [← trimStart, Option.mem_def.1 hc] at h
  exact h

/-- What trimming leaves has no blank ends. -/
theorem trimmed_trim (cs : List Char) : Trimmed (trim cs) := by
  constructor
  · -- The end is trimmed last, which leaves the front as the first step made it.
    intro c hc
    have hprefix : trim cs <+: trimStart cs := by
      rw [trim, trimEnd, ← List.reverse_suffix, List.reverse_reverse]
      exact List.dropWhile_suffix _
    obtain ⟨rest, hrest⟩ := hprefix
    refine not_isBlank_of_mem_head?_trimStart cs c ?_
    rw [← hrest, List.head?_append, Option.mem_def.1 hc]
    rfl
  · intro c hc
    refine not_isBlank_of_mem_head?_trimStart (trimStart cs).reverse c ?_
    rw [trim, trimEnd, List.getLast?_reverse] at hc
    exact hc

theorem trimmed_of_trim_eq {cs : List Char} (h : trim cs = cs) : Trimmed cs :=
  h ▸ trimmed_trim cs

/-- A text has no blank ends if its first part has none in front and its last part none behind. -/
theorem Trimmed.append (as : List Char) {bs : List Char}
    (ha : ∀ c ∈ as.head?, isBlank c = false) (hne : as ≠ [])
    (hb : ∀ c ∈ bs.getLast?, isBlank c = false) (hne' : bs ≠ []) : Trimmed (as ++ bs) := by
  constructor
  · cases as with
    | nil => exact absurd rfl hne
    | cons a rest => exact ha
  · rw [List.getLast?_append_of_ne_nil _ hne']
    exact hb

theorem trim_cons_of_not_isBlank {c : Char} (hc : isBlank c = false) (cs : List Char) :
    trim (c :: cs) = c :: trimEnd cs := by
  have hstart : trimStart (c :: cs) = c :: cs := by
    refine trimStart_eq_self ?_
    intro d hd
    cases hd
    exact hc
  rw [trim, hstart, trimEnd, trimEnd, List.reverse_cons, List.dropWhile_append]
  split
  · next hempty =>
      rw [List.isEmpty_iff.1 hempty]
      simp [hc]
  · simp

/-- A text is what is left of it when its end is trimmed, and blanks. -/
theorem exists_eq_trimEnd_append (cs : List Char) :
    ∃ blanks, cs = trimEnd cs ++ blanks ∧ ∀ c ∈ blanks, isBlank c := by
  refine ⟨(cs.reverse.takeWhile isBlank).reverse, ?_, ?_⟩
  · rw [trimEnd, ← List.reverse_append, List.takeWhile_append_dropWhile, List.reverse_reverse]
  · intro c hc
    exact List.mem_takeWhile_imp (List.mem_reverse.1 hc)

theorem infix_trim (cs : List Char) : trim cs <:+: cs := by
  obtain ⟨blanks, hcs, -⟩ := exists_eq_trimEnd_append (trimStart cs)
  have hprefix : trim cs <+: trimStart cs := ⟨blanks, hcs.symm⟩
  exact hprefix.isInfix.trans (List.dropWhile_suffix isBlank).isInfix

theorem trim_subset (cs : List Char) : trim cs ⊆ cs := (infix_trim cs).subset

/-! ### Cutting -/

theorem cutFirst?_append_cons {c : Char} {before : List Char} (h : c ∉ before)
    (after : List Char) : cutFirst? c (before ++ c :: after) = some (before, after) := by
  induction before with
  | nil => simp [cutFirst?]
  | cons x rest ih =>
      simp only [List.mem_cons, not_or] at h
      simp [cutFirst?, Ne.symm h.1, ih h.2]

theorem cutFirst?_eq_none {c : Char} {cs : List Char} (h : c ∉ cs) : cutFirst? c cs = none := by
  induction cs with
  | nil => rfl
  | cons x rest ih =>
      simp only [List.mem_cons, not_or] at h
      simp [cutFirst?, Ne.symm h.1, ih h.2]

theorem cutLast?_eq_none {c : Char} {cs : List Char} (h : c ∉ cs) : cutLast? c cs = none := by
  induction cs with
  | nil => rfl
  | cons x rest ih =>
      simp only [List.mem_cons, not_or] at h
      simp [cutLast?, Ne.symm h.1, ih h.2]

theorem cutLast?_append_cons {c : Char} (before : List Char) {after : List Char}
    (h : c ∉ after) : cutLast? c (before ++ c :: after) = some (before, after) := by
  induction before with
  | nil => simp [cutLast?, cutLast?_eq_none h]
  | cons x rest ih => simp [cutLast?, ih]

theorem not_mem_of_cutFirst?_eq_none {c : Char} {cs : List Char} (h : cutFirst? c cs = none) :
    c ∉ cs := by
  induction cs with
  | nil => simp
  | cons x rest ih =>
      simp only [cutFirst?] at h
      split at h
      · cases h
      · next hx => simp [Ne.symm hx, ih (Option.map_eq_none_iff.1 h)]

theorem not_mem_of_cutLast?_eq_none {c : Char} {cs : List Char} (h : cutLast? c cs = none) :
    c ∉ cs := by
  induction cs with
  | nil => simp
  | cons x rest ih =>
      simp only [cutLast?] at h
      split at h
      · cases h
      · next hcut =>
          split at h
          · cases h
          · next hx => simp [Ne.symm hx, ih hcut]

/-- A text is cut at its first occurrence of a character. -/
theorem not_mem_of_cutFirst? {c : Char} {cs before after : List Char}
    (h : cutFirst? c cs = some (before, after)) : c ∉ before := by
  induction cs generalizing before with
  | nil => cases h
  | cons x rest ih =>
      simp only [cutFirst?] at h
      split at h
      · cases h
        simp
      · next hx =>
          obtain ⟨⟨front, back⟩, hcut, heq⟩ := Option.map_eq_some_iff.1 h
          cases heq
          simp [Ne.symm hx, ih hcut]

/-- A text is cut at its last occurrence of a character. -/
theorem not_mem_of_cutLast? {c : Char} {cs before after : List Char}
    (h : cutLast? c cs = some (before, after)) : c ∉ after := by
  induction cs generalizing before with
  | nil => cases h
  | cons x rest ih =>
      cases hcut : cutLast? c rest with
      | some cut =>
          simp only [cutLast?, hcut] at h
          cases h
          exact ih hcut
      | none =>
          simp only [cutLast?, hcut] at h
          split at h
          · cases h
            exact not_mem_of_cutLast?_eq_none hcut
          · cases h

/-! ### Searching -/

theorem occursIn_iff {pattern cs : List Char} : occursIn pattern cs ↔ pattern <:+: cs := by
  induction cs with
  | nil => simp [occursIn]
  | cons c rest ih => simp [occursIn, List.infix_cons_iff, ih]

/-! ### Lines and lists -/

/-- Splitting a list that is written with a blank behind each separator gives its items back, with
the blank in front of all but the first. -/
theorem splitOn_intercalate_cons {c b : Char} {item : List Char} {items : List (List Char)}
    (hc : ∀ cs ∈ item :: items, c ∉ cs) (hb : b ≠ c) :
    ([c, b].intercalate (item :: items)).splitOn c = item :: items.map (b :: ·) := by
  induction items generalizing item with
  | nil => simpa using List.splitOn_eq_singleton (hc item (by simp))
  | cons next rest ih =>
      have hrest : ∀ cs ∈ next :: rest, c ∉ cs := fun cs hcs => hc cs (List.mem_cons_of_mem _ hcs)
      rw [List.intercalate_cons_cons, List.append_assoc, List.cons_append, List.cons_append,
        List.nil_append, List.splitOn_append_cons_self,
        List.splitOn_eq_singleton (hc item (by simp)), List.splitOn_cons_eq_if_modifyHead, ih hrest]
      simp [hb]

theorem not_mem_intercalate {c : Char} {separator : List Char} {items : List (List Char)}
    (hc : c ∉ separator) (h : ∀ item ∈ items, c ∉ item) : c ∉ separator.intercalate items := by
  induction items with
  | nil => simp
  | cons item rest ih =>
      have hrest := ih fun other hother => h other (List.mem_cons_of_mem _ hother)
      cases rest with
      | nil => simpa using h item
      | cons next rest =>
          rw [List.intercalate_cons_cons]
          simp [h item, hc, hrest]

theorem not_mem_of_mem_splitOn {c : Char} {cs piece : List Char} (h : piece ∈ cs.splitOn c) :
    c ∉ piece := by
  induction cs generalizing piece with
  | nil =>
      obtain rfl := List.mem_singleton.1 h
      simp
  | cons x rest ih =>
      rw [List.splitOn_cons_eq_if_modifyHead] at h
      split at h
      · rcases List.mem_cons.1 h with rfl | h
        · simp
        · exact ih h
      · next hx =>
          cases hpieces : rest.splitOn c with
          | nil => simp [hpieces] at h
          | cons first others =>
              rw [hpieces, List.modifyHead_cons] at h
              rcases List.mem_cons.1 h with rfl | h
              · have hfirst : c ∉ first := ih (by simp [hpieces])
                simp [hfirst, Ne.symm (by simpa using hx : x ≠ c)]
              · exact ih (by simp [hpieces, h])

/-- What an editor shows as a line has no line feed in it. -/
theorem not_mem_of_mem_editorLines {cs line : List Char} (h : line ∈ editorLines cs) :
    '\n' ∉ line := by
  have hended : ∀ line ∈ (cs.splitOn '\n').dropLast.map (fun piece =>
      if piece.getLast? = some '\r' then piece.dropLast else piece), '\n' ∉ line := by
    intro line hline
    obtain ⟨piece, hpiece, rfl⟩ := List.mem_map.1 hline
    have hno := not_mem_of_mem_splitOn ((List.dropLast_subset _ hpiece))
    split
    · exact fun hmem => hno (List.dropLast_subset _ hmem)
    · exact hno
  simp only [editorLines] at h
  split at h
  · next last hlast =>
      split at h
      · exact hended line h
      · rcases List.mem_append.1 h with h | h
        · exact hended line h
        · obtain rfl := List.mem_singleton.1 h
          exact not_mem_of_mem_splitOn (List.mem_of_getLast? hlast)
  · exact hended line h

theorem map_text_locateFrom (offset : Nat) (lines : List (List Char)) :
    (locateFrom offset lines).map Line.text = lines.map trim := by
  induction lines generalizing offset with
  | nil => rfl
  | cons line rest ih => rw [locateFrom, List.map_cons, List.map_cons, ih]

/-- The lines of a text that was put together from lines are those lines, trimmed. -/
theorem map_text_locatedLines {lines : List (List Char)} (hne : lines ≠ [])
    (h : ∀ line ∈ lines, '\n' ∉ line) :
    (locatedLines (['\n'].intercalate lines)).map Line.text = lines.map trim := by
  rw [locatedLines, map_text_locateFrom, List.splitOn_intercalate _ h hne]

end Text

namespace Line

open Text

/-! ### Runs -/

theorem run?_append {p : Char → Bool} {word rest : List Char} (hne : word ≠ [])
    (hword : ∀ c ∈ word, p c) (hrest : ∀ c ∈ rest.head?, p c = false) :
    run? p (word ++ rest) = some (word, rest) := by
  have htake : (word ++ rest).takeWhile p = word := by
    rw [List.takeWhile_append_of_pos hword]
    cases rest with
    | nil => simp
    | cons c _ => simp [hrest c rfl]
  have hdrop : (word ++ rest).dropWhile p = rest := by
    rw [List.dropWhile_append_of_pos hword]
    cases rest with
    | nil => simp
    | cons c _ => simp [hrest c rfl]
  simp [run?, htake, hdrop, hne]

theorem run?_eq_none {p : Char → Bool} {cs : List Char} (h : ∀ c ∈ cs.head?, p c = false) :
    run? p cs = none := by
  cases cs with
  | nil => rfl
  | cons c rest => simp [run?, h c rfl]

/-- A single space is a gap. -/
theorem gap?_cons {cs : List Char} (h : ∀ c ∈ cs.head?, isGap c = false) :
    gap? (' ' :: cs) = some cs := by
  have hrun : run? isGap ([' '] ++ cs) = some ([' '], cs) :=
    run?_append (by simp) (by simp [isGap]) h
  rw [List.singleton_append] at hrun
  rw [gap?, hrun]
  rfl

theorem skipGap_cons {cs : List Char} (h : ∀ c ∈ cs.head?, isGap c = false) :
    skipGap (' ' :: cs) = cs := by
  cases cs with
  | nil => rfl
  | cons c rest =>
      have hc := h c rfl
      simp [skipGap, hc, show isGap ' ' = true from rfl]

theorem word?_append (word : String) (rest : List Char) :
    word? word (word.toList ++ rest) = some rest := by
  simp [word?]

/-- A keyword is read with the space behind it. -/
theorem keyword?_append (word : String) {rest : List Char}
    (h : ∀ c ∈ rest.head?, isGap c = false) :
    keyword? word (word.toList ++ ' ' :: rest) = some rest := by
  rw [keyword?, word?_append, Option.bind_some, gap?_cons h]

/-- A quoted text is read up to its second quote. -/
theorem quoted?_append {inside : List Char} (hne : inside ≠ []) (h : '"' ∉ inside)
    (rest : List Char) : quoted? ('"' :: inside ++ '"' :: rest) = some (inside, rest) := by
  have hrun : run? (· ≠ '"') (inside ++ '"' :: rest) = some (inside, '"' :: rest) :=
    run?_append hne (fun c hc => decide_eq_true fun heq => h (heq ▸ hc)) (by simp)
  simp only [List.cons_append, quoted?, hrun]
  rfl

theorem quoted?_eq_none {cs : List Char} (h : ∀ c ∈ cs.head?, c ≠ '"') : quoted? cs = none := by
  cases cs with
  | nil => rfl
  | cons c rest =>
      have hc := h c rfl
      simp [quoted?, hc]

end Line

end UmlText
