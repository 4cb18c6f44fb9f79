import UmlText.Proofs.Text.Cutting

/-!
# UmlText.Proofs.Text.Locating

**The span of a located line selects its trimmed text.** Offsets count bytes, so the part of a text
at a span is what stands between two texts with these numbers of bytes. A line stands between two
line feeds or the ends of the text; its span begins behind its leading blanks and ends before its
trailing ones, whatever characters these are. The line feed between two lines keeps their spans
apart (`pairwise_span_locatedLines`).
-/

namespace UmlText.Text

/-! ### Counting bytes -/

theorem byteLength_append (as bs : List Char) :
    byteLength (as ++ bs) = byteLength as + byteLength bs := by
  induction as with
  | nil => rw [List.nil_append, byteLength, Nat.zero_add]
  | cons c rest ih => rw [List.cons_append, byteLength, byteLength, ih, Nat.add_assoc]

/-- It is the length of the encoded text. -/
theorem byteLength_toList (text : String) : byteLength text.toList = text.utf8ByteSize := by
  have h : ∀ cs : List Char, byteLength cs = (String.ofList cs).utf8ByteSize := by
    intro cs
    induction cs with
    | nil => rfl
    | cons c rest ih =>
        rw [byteLength, ih, show c :: rest = [c] ++ rest from rfl, String.ofList_append,
          String.utf8ByteSize_append]
        simp
  rw [h, String.ofList_toList]

/-- Only the empty text has no bytes. -/
theorem byteLength_pos {cs : List Char} (h : cs ≠ []) : 0 < byteLength cs := by
  cases cs with
  | nil => exact absurd rfl h
  | cons c rest => exact Nat.add_pos_left c.utf8Size_pos _

/-! ### Parts of a text -/

/-- A span that begins and ends between characters of a text, and the part that it covers. -/
def Span.Selects (s : Span) (source part : List Char) : Prop :=
  ∃ before after, source = before ++ part ++ after ∧
    s = ⟨byteLength before, byteLength (before ++ part)⟩

theorem Span.Selects.le {s : Span} {source part : List Char} (h : s.Selects source part) :
    s.start ≤ s.stop ∧ s.stop ≤ byteLength source ∧ s.length = byteLength part := by
  obtain ⟨before, after, rfl, rfl⟩ := h
  simp only [byteLength_append, Span.length]
  omega

/-- A span that selects something is not empty. -/
theorem Span.Selects.start_lt_stop {s : Span} {source part : List Char} (h : s.Selects source part)
    (hpart : part ≠ []) : s.start < s.stop := by
  have hlength := h.le.2.2
  have hpos := byteLength_pos hpart
  rw [← hlength, Span.length] at hpos
  omega

/-- Behind the last character nothing is left to select. -/
theorem selects_endSpan (source : List Char) : (endSpan source).Selects source [] :=
  ⟨source, [], by simp, by simp [endSpan]⟩

/-- A line of a text with what is above and below it. -/
structure IsLine (source above line below : List Char) : Prop where
  source_eq : source = above ++ line ++ below
  no_newline : '\n' ∉ line
  above_ends : ∀ c ∈ above.getLast?, c = '\n'
  below_starts : ∀ c ∈ below.head?, c = '\n'

/-- A span that selects a line of a text without the blanks at its ends. -/
def Span.SelectsLine (s : Span) (source text : List Char) : Prop :=
  ∃ above leading trailing below, IsLine source above (leading ++ text ++ trailing) below ∧
    (∀ c ∈ leading ++ trailing, isBlank c) ∧ Trimmed text ∧
    s = ⟨byteLength (above ++ leading), byteLength (above ++ leading ++ text)⟩

theorem Span.SelectsLine.selects {s : Span} {source text : List Char}
    (h : s.SelectsLine source text) : s.Selects source text := by
  obtain ⟨above, leading, trailing, below, hline, -, -, rfl⟩ := h
  exact ⟨above ++ leading, trailing ++ below, by simp [hline.source_eq], rfl⟩

/-- A line is its trimmed text between blanks. -/
theorem exists_eq_trim (cs : List Char) : ∃ trailing,
    cs = cs.takeWhile isBlank ++ trim cs ++ trailing ∧ ∀ c ∈ trailing, isBlank c := by
  obtain ⟨trailing, hcs, hblank⟩ := exists_eq_trimEnd_append (trimStart cs)
  refine ⟨trailing, ?_, hblank⟩
  rw [List.append_assoc, trim, ← hcs, trimStart, List.takeWhile_append_dropWhile]

/-! ### Located lines -/

/-- The span of a line that begins at some offset. -/
def lineSpan (offset : Nat) (raw : List Char) : Span :=
  let start := offset + byteLength (raw.takeWhile isBlank)
  .ofRange start (start + byteLength (trim raw))

theorem locateFrom_cons (offset : Nat) (raw : List Char) (rest : List (List Char)) :
    locateFrom offset (raw :: rest)
      = ⟨trim raw, lineSpan offset raw⟩ :: locateFrom (offset + byteLength raw + 1) rest := rfl

theorem lineSpan_eq (offset : Nat) (raw : List Char) :
    lineSpan offset raw = ⟨offset + byteLength (raw.takeWhile isBlank),
      offset + byteLength (raw.takeWhile isBlank) + byteLength (trim raw)⟩ := by
  rw [lineSpan, Span.ofRange, Nat.max_eq_right (Nat.le_add_right _ _)]

/-- A line ends before the line feed behind it. -/
theorem stop_lineSpan_le (offset : Nat) (raw : List Char) :
    (lineSpan offset raw).stop ≤ offset + byteLength raw := by
  obtain ⟨trailing, hraw, -⟩ := exists_eq_trim raw
  have hlength := congrArg byteLength hraw
  rw [byteLength_append, byteLength_append] at hlength
  rw [lineSpan_eq]
  dsimp only
  omega

theorem le_start_of_mem_locateFrom {offset : Nat} {lines : List (List Char)} {line : Line}
    (h : line ∈ locateFrom offset lines) : offset ≤ line.span.start := by
  induction lines generalizing offset with
  | nil => cases h
  | cons raw rest ih =>
      rw [locateFrom_cons] at h
      rcases List.mem_cons.1 h with rfl | h
      · rw [lineSpan_eq]
        exact Nat.le_add_right _ _
      · have := ih h
        omega

/-- Each line ends before the next one begins. -/
theorem pairwise_span_locateFrom (offset : Nat) (lines : List (List Char)) :
    (locateFrom offset lines).Pairwise fun a b => a.span.stop < b.span.start := by
  induction lines generalizing offset with
  | nil => exact .nil
  | cons raw rest ih =>
      rw [locateFrom_cons]
      refine List.pairwise_cons.2 ⟨fun line hline => ?_, ih _⟩
      have hstop := stop_lineSpan_le offset raw
      have hstart := le_start_of_mem_locateFrom hline
      dsimp only
      omega

theorem pairwise_span_locatedLines (source : List Char) :
    (locatedLines source).Pairwise fun a b => a.span.stop < b.span.start :=
  pairwise_span_locateFrom 0 _

/-- A line that begins where what is above it ends is selected by its span. -/
theorem selectsLine_lineSpan {source above raw below : List Char}
    (h : IsLine source above raw below) :
    (lineSpan (byteLength above) raw).SelectsLine source (trim raw) := by
  obtain ⟨trailing, hraw, hblank⟩ := exists_eq_trim raw
  refine ⟨above, raw.takeWhile isBlank, trailing, below, hraw ▸ h, ?_, trimmed_trim raw, ?_⟩
  · exact List.forall_mem_append.2 ⟨fun c hc => List.mem_takeWhile_imp hc, hblank⟩
  · rw [lineSpan_eq, byteLength_append, byteLength_append, byteLength_append]

/-- The lines of a text below a part that ends in a line feed. The induction goes down the lines,
and takes the line that is left behind, with its line feed, to what is above. -/
theorem selectsLine_of_mem_locateFrom {above : List Char} {lines : List (List Char)}
    (habove : ∀ c ∈ above.getLast?, c = '\n') (hlines : ∀ raw ∈ lines, '\n' ∉ raw) {line : Line}
    (h : line ∈ locateFrom (byteLength above) lines) :
    line.span.SelectsLine (above ++ ['\n'].intercalate lines) line.text := by
  induction lines generalizing above with
  | nil => cases h
  | cons raw rest ih =>
      obtain ⟨hraw, hrest⟩ := List.forall_mem_cons.1 hlines
      rw [locateFrom_cons] at h
      cases rest with
      | nil =>
          have hline : IsLine (above ++ ['\n'].intercalate [raw]) above raw [] :=
            ⟨by simp, hraw, habove, by simp⟩
          obtain rfl := List.mem_singleton.1 h
          exact selectsLine_lineSpan hline
      | cons next rest =>
          rw [List.intercalate_cons_cons]
          have hline : IsLine (above ++ (raw ++ ['\n'] ++ ['\n'].intercalate (next :: rest))) above
              raw ('\n' :: ['\n'].intercalate (next :: rest)) :=
            ⟨by simp, hraw, habove, by simp⟩
          rcases List.mem_cons.1 h with rfl | h
          · exact selectsLine_lineSpan hline
          · have hlength : byteLength above + byteLength raw + 1
                = byteLength (above ++ raw ++ ['\n']) := by
              rw [byteLength_append, byteLength_append]
              rfl
            rw [hlength] at h
            have hselects := ih (by simp) hrest h
            simpa only [List.append_assoc] using hselects

/-- Every located line of a text is a line of it. -/
theorem selectsLine_of_mem_locatedLines {source : List Char} {line : Line}
    (h : line ∈ locatedLines source) : line.span.SelectsLine source line.text := by
  have hselects : line.span.SelectsLine ([] ++ ['\n'].intercalate (source.splitOn '\n'))
      line.text :=
    selectsLine_of_mem_locateFrom (by simp) (fun _ => not_mem_of_mem_splitOn) h
  rwa [List.nil_append, List.intercalate_splitOn] at hselects

end UmlText.Text
