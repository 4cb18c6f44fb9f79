import UmlText.Proofs.Exchange.Headers

/-!
# UmlText.Proofs.Reading.Abutting

**Which spaces around an arrow can be left out.** A name and an arrow are both read as far as they
go, and both may contain the letter `o`. So where an arrow stands directly behind a name, the name
takes the letters `o` that the arrow begins with, and where a name stands directly behind an arrow,
the arrow takes those that the name begins with. A space at the seam keeps the two apart; without
one the line is read as it is meant exactly if what stands behind the seam does not begin with `o`.
-/

namespace UmlText

open Text (isGap occursIn occursIn_iff)
open Writing (ReadableName toList_ne_nil isBlank_of_isIdentifierChar isGap_eq_false_of_isBlank)

namespace Line

/-! ### The characters of names, arrows and gaps -/

/-- `o` is the only character that both names and arrows have. -/
theorem isArrowChar_eq_false {c : Char} (h : isIdentifierChar c) (hc : c ≠ 'o') :
    isArrowChar c = false := by
  have hcode := Writing.toNat_of_isIdentifierChar h
  simp only [isArrowChar, decide_eq_false_iff_not, List.mem_cons, List.not_mem_nil, or_false]
  rintro (rfl | rfl | rfl | rfl | rfl | rfl | rfl | rfl)
  all_goals first | exact hc rfl | simp at hcode

theorem isIdentifierChar_eq_false {c : Char} (h : isArrowChar c) (hc : c ≠ 'o') :
    isIdentifierChar c = false := by
  cases hid : isIdentifierChar c with
  | false => rfl
  | true => exact absurd h (by simp [isArrowChar_eq_false hid hc])

theorem isGap_of_isArrowChar {c : Char} (h : isArrowChar c) : isGap c = false ∧ c ≠ '"' := by
  simp only [isArrowChar, decide_eq_true_eq, List.mem_cons, List.not_mem_nil, or_false] at h
  rcases h with rfl | rfl | rfl | rfl | rfl | rfl | rfl | rfl <;> decide

theorem of_isGap {c : Char} (h : isGap c) :
    isArrowChar c = false ∧ isIdentifierChar c = false ∧ c ≠ '"' := by
  simp only [isGap, Bool.or_eq_true, decide_eq_true_eq] at h
  rcases h with rfl | rfl <;> decide

theorem skipGap_append {gap rest : List Char} (hgap : ∀ c ∈ gap, isGap c)
    (hrest : ∀ c ∈ rest.head?, isGap c = false) : skipGap (gap ++ rest) = rest := by
  rw [skipGap, List.dropWhile_append_of_pos hgap]
  cases rest with
  | nil => rfl
  | cons c rest => simp [hrest c rfl]

/-! ### Arrows -/

/-- An arrow: characters of arrows, with a double dash or a double dot among them. -/
structure IsArrow (token : List Char) : Prop where
  chars : ∀ c ∈ token, isArrowChar c
  line : ['-', '-'] <:+: token ∨ ['.', '.'] <:+: token

theorem IsArrow.two_le_length {token : List Char} (h : IsArrow token) : 2 ≤ token.length :=
  h.line.elim List.IsInfix.length_le List.IsInfix.length_le

theorem IsArrow.ne_nil {token : List Char} (h : IsArrow token) : token ≠ [] :=
  List.ne_nil_of_length_pos (by have := h.two_le_length; omega)

theorem IsArrow.append {token more : List Char} (h : IsArrow token)
    (hmore : ∀ c ∈ more, isArrowChar c) : IsArrow (token ++ more) where
  chars := List.forall_mem_append.2 ⟨h.chars, hmore⟩
  line := h.line.imp (·.trans (List.prefix_append _ _).isInfix)
    (·.trans (List.prefix_append _ _).isInfix)

/-- A double character is not found among other characters. -/
theorem infix_of_infix_append {d : Char} {front rest : List Char} (hd : d ∉ front)
    (h : [d, d] <:+: front ++ rest) : [d, d] <:+: rest := by
  induction front with
  | nil => exact h
  | cons c front ih =>
      have hfront : d ∉ front := fun hmem => hd (List.mem_cons_of_mem _ hmem)
      rcases List.infix_cons_iff.1 h with hprefix | hinfix
      · exact absurd ((List.cons_prefix_cons.1 hprefix).1 ▸ List.mem_cons_self) hd
      · exact ih hfront hinfix

/-- Letters in front of an arrow are not what makes it one. -/
theorem IsArrow.of_append {letters token : List Char} (hletters : ∀ c ∈ letters, c = 'o')
    (h : IsArrow (letters ++ token)) : IsArrow token where
  chars := fun c hc => h.chars c (List.mem_append_right _ hc)
  line := by
    have hnot : ∀ d : Char, d ≠ 'o' → d ∉ letters := fun d hd hmem => hd (hletters d hmem)
    exact h.line.imp (infix_of_infix_append (hnot _ (by decide)))
      (infix_of_infix_append (hnot _ (by decide)))

/-- An arrow is read up to the first character that no arrow has. -/
theorem IsArrow.arrow? {token rest : List Char} (h : IsArrow token)
    (hrest : ∀ c ∈ rest.head?, isArrowChar c = false) :
    arrow? (token ++ rest) = some (token, rest) := by
  have hline : occursIn ['-', '-'] token ∨ occursIn ['.', '.'] token := by
    rw [occursIn_iff, occursIn_iff]
    exact h.line
  have hverified : (decide (2 ≤ token.length)
      && (occursIn ['-', '-'] token || occursIn ['.', '.'] token)) = true := by
    rw [Bool.and_eq_true, Bool.or_eq_true]
    exact ⟨decide_eq_true h.two_le_length, hline⟩
  simp only [Line.arrow?, run?_append h.ne_nil h.chars hrest, Option.bind_eq_bind,
    Option.bind_some, hverified, if_true]

/-! ### Seams -/

/-- The letters at the front of a word that go to what stands before it: none over a gap. -/
def ceded (gap word : List Char) : List Char :=
  if gap = [] then word.takeWhile (· = 'o') else []

/-- What is left of a word without them. -/
def kept (gap word : List Char) : List Char :=
  if gap = [] then word.dropWhile (· = 'o') else word

theorem ceded_append_kept (gap word : List Char) : ceded gap word ++ kept gap word = word := by
  rw [ceded, kept]
  split
  · exact List.takeWhile_append_dropWhile
  · rfl

theorem append_eq_ceded_append (gap word : List Char) :
    gap ++ word = ceded gap word ++ (gap ++ kept gap word) := by
  by_cases hgap : gap = []
  · rw [hgap, List.nil_append, List.nil_append, ceded_append_kept]
  · rw [ceded, kept, if_neg hgap, if_neg hgap, List.nil_append]

theorem eq_letter_of_mem_ceded {gap word : List Char} {c : Char} (h : c ∈ ceded gap word) :
    c = 'o' := by
  rw [ceded] at h
  split at h
  · simpa using List.mem_takeWhile_imp h
  · cases h

theorem mem_of_mem_kept {gap word : List Char} {c : Char} (h : c ∈ kept gap word) : c ∈ word := by
  rw [← ceded_append_kept gap word]
  exact List.mem_append_right _ h

/-- Nothing crosses a seam with a gap, nor one in front of another letter. -/
theorem ceded_eq_nil_iff {gap word : List Char} :
    ceded gap word = [] ↔ gap ≠ [] ∨ word.head? ≠ some 'o' := by
  rw [ceded]
  split
  · next hgap =>
      cases word with
      | nil => simp
      | cons c rest => by_cases hc : c = 'o' <;> simp [hgap, hc]
  · next hgap => simp [hgap]

theorem kept_eq_self_iff {gap word : List Char} : kept gap word = word ↔ ceded gap word = [] := by
  have hword := ceded_append_kept gap word
  constructor
  · intro hkept
    rw [hkept] at hword
    exact List.append_left_eq_self.1 hword
  · intro hceded
    rwa [hceded, List.nil_append] at hword

/-- Behind what was ceded stands a gap, or a character of the word other than `o`. -/
theorem head?_append_kept {gap word : List Char} (hgap : ∀ c ∈ gap, isGap c) {c : Char}
    (h : c ∈ (gap ++ kept gap word).head?) : isGap c ∨ c ∈ word ∧ c ≠ 'o' := by
  cases gap with
  | nil =>
      rw [List.nil_append] at h
      refine .inr ⟨mem_of_mem_kept (List.mem_of_mem_head? h), ?_⟩
      have hhead := List.head?_dropWhile_not (· = 'o') word
      rw [kept, if_pos rfl] at h
      rw [Option.mem_def.1 h] at hhead
      simpa using hhead
  | cons g gap =>
      obtain rfl : g = c := Option.some.inj h
      exact .inl (hgap g List.mem_cons_self)

theorem IsArrow.kept {token : List Char} (h : IsArrow token) (gap : List Char) :
    IsArrow (kept gap token) :=
  .of_append (fun _ => eq_letter_of_mem_ceded) (by rwa [ceded_append_kept])

end Line

open Line

/-! ### Lines of two names -/

/-- An arrow between two names, with gaps around it that may be empty. -/
structure ArrowLine where
  left : String
  before : List Char
  arrow : List Char
  behind : List Char
  right : String
  readable_left : ReadableName left
  gap_before : ∀ c ∈ before, isGap c
  isArrow : IsArrow arrow
  gap_behind : ∀ c ∈ behind, isGap c
  readable_right : ReadableName right

namespace ArrowLine

variable (l : ArrowLine)

/-- The line as it is written. -/
def text : List Char := l.left.toList ++ (l.before ++ (l.arrow ++ (l.behind ++ l.right.toList)))

/-- What the line says if its parts are kept apart. -/
def meant : RelationshipLine where
  left := l.left
  leftMultiplicity := none
  arrow := String.ofList l.arrow
  rightMultiplicity := none
  right := l.right
  label := none

/-- What the line says after each part took the letters at the seam behind it. -/
def taken? : Option RelationshipLine :=
  if kept l.behind l.right.toList = [] then none
  else some {
    left := String.ofList (l.left.toList ++ ceded l.before l.arrow)
    leftMultiplicity := none
    arrow := String.ofList (kept l.before l.arrow ++ ceded l.behind l.right.toList)
    rightMultiplicity := none
    right := String.ofList (kept l.behind l.right.toList)
    label := none }

/-! ### Reading them -/

/-- What stands behind the left name. -/
def tail : List Char := kept l.before l.arrow ++ (l.behind ++ l.right.toList)

theorem text_eq : l.text = l.left.toList ++ ceded l.before l.arrow ++ (l.before ++ l.tail) := by
  rw [text, tail, ← List.append_assoc l.before, append_eq_ceded_append l.before l.arrow]
  simp only [List.append_assoc]

/-- Where the left name ends. -/
theorem head?_tail {c : Char} (h : c ∈ (l.before ++ l.tail).head?) :
    isGap c ∨ isArrowChar c ∧ c ≠ 'o' := by
  have hne : l.before ++ kept l.before l.arrow ≠ [] := by
    simp [(l.isArrow.kept l.before).ne_nil]
  rw [tail, ← List.append_assoc, List.head?_append_of_ne_nil _ hne] at h
  exact (head?_append_kept l.gap_before h).imp_right fun ⟨hmem, hc⟩ => ⟨l.isArrow.chars c hmem, hc⟩

theorem isArrowChar_of_mem_head?_tail {c : Char} (h : c ∈ l.tail.head?) : isArrowChar c := by
  have hcore := l.isArrow.kept l.before
  rw [tail, List.head?_append_of_ne_nil _ hcore.ne_nil] at h
  exact hcore.chars c (List.mem_of_mem_head? h)

theorem endpoint?_text : endpoint? l.text
    = some (l.left.toList ++ ceded l.before l.arrow, l.before ++ l.tail) := by
  have hne : l.left.toList ++ ceded l.before l.arrow ≠ [] := by
    simp [l.readable_left.ne_empty]
  have hchars : ∀ c ∈ l.left.toList ++ ceded l.before l.arrow, isIdentifierChar c := by
    refine List.forall_mem_append.2 ⟨l.readable_left.chars, fun c hc => ?_⟩
    rw [eq_letter_of_mem_ceded hc]
    rfl
  have hrest : ∀ c ∈ (l.before ++ l.tail).head?, isIdentifierChar c = false := by
    intro c hc
    rcases l.head?_tail hc with hgap | ⟨harrow, hne⟩
    · exact (of_isGap hgap).2.1
    · exact isIdentifierChar_eq_false harrow hne
  have hquoted : quoted? l.text = none := l.readable_left.quoted? _
  rw [endpoint?, hquoted, text_eq, identifier?, run?_append hne hchars hrest]
  rfl

theorem skipGap_tail : skipGap (l.before ++ l.tail) = l.tail :=
  skipGap_append l.gap_before fun _ hc =>
    (isGap_of_isArrowChar (l.isArrowChar_of_mem_head?_tail hc)).1

theorem leftMultiplicity_tail :
    leftMultiplicity (l.before ++ l.tail) = (none, l.before ++ l.tail) := by
  have hquoted : quoted? l.tail = none :=
    quoted?_eq_none fun c hc => (isGap_of_isArrowChar (l.isArrowChar_of_mem_head?_tail hc)).2
  rw [leftMultiplicity, skipGap_tail, hquoted]

theorem arrow?_tail : arrow? l.tail
    = some (kept l.before l.arrow ++ ceded l.behind l.right.toList,
        l.behind ++ kept l.behind l.right.toList) := by
  have hcore : IsArrow (kept l.before l.arrow ++ ceded l.behind l.right.toList) := by
    refine (l.isArrow.kept l.before).append fun c hc => ?_
    rw [eq_letter_of_mem_ceded hc]
    rfl
  rw [tail, append_eq_ceded_append l.behind, ← List.append_assoc]
  refine hcore.arrow? fun c hc => ?_
  rcases head?_append_kept l.gap_behind hc with hgap | ⟨hmem, hne⟩
  · exact (of_isGap hgap).1
  · exact isArrowChar_eq_false (l.readable_right.chars c hmem) hne

theorem isIdentifierChar_of_mem_kept {c : Char} (h : c ∈ kept l.behind l.right.toList) :
    isIdentifierChar c :=
  l.readable_right.chars c (mem_of_mem_kept h)

theorem skipGap_right :
    skipGap (l.behind ++ kept l.behind l.right.toList) = kept l.behind l.right.toList :=
  skipGap_append l.gap_behind fun _ hc => isGap_eq_false_of_isBlank
    (isBlank_of_isIdentifierChar (l.isIdentifierChar_of_mem_kept (List.mem_of_mem_head? hc)))

theorem rightOperand?_right : rightOperand? (kept l.behind l.right.toList)
    = if kept l.behind l.right.toList = [] then none
      else some ((none, String.ofList (kept l.behind l.right.toList)), []) := by
  have hchars : ∀ c ∈ kept l.behind l.right.toList, isIdentifierChar c := fun _ =>
    l.isIdentifierChar_of_mem_kept
  have hquoted : quoted? (kept l.behind l.right.toList) = none :=
    quoted?_eq_none fun c hc =>
      Writing.ne_quote_of_isIdentifierChar (hchars c (List.mem_of_mem_head? hc))
  rw [rightOperand?, endpoint?, hquoted]
  split
  · next hnil => rw [hnil]; rfl
  · next hne =>
      have hrun : run? isIdentifierChar (kept l.behind l.right.toList ++ [])
          = some (kept l.behind l.right.toList, []) := run?_append hne hchars (by simp)
      rw [List.append_nil] at hrun
      rw [identifier?, hrun]
      rfl

/-- Every such line is read with the letters at its seams on the left of them. -/
theorem relationshipLine?_text : relationshipLine? l.text = l.taken? := by
  simp only [relationshipLine?, endpoint?_text, leftMultiplicity_tail, skipGap_tail, arrow?_tail,
    skipGap_right, rightOperand?_right, Option.bind_eq_bind, Option.bind_some, taken?]
  split <;> rfl

/-- The line is read as it is meant if nothing crosses its seams. -/
theorem taken?_eq_meant_iff : l.taken? = some l.meant ↔
    ceded l.before l.arrow = [] ∧ ceded l.behind l.right.toList = [] := by
  rw [taken?]
  constructor
  · intro h
    split at h
    · cases h
    · simp only [Option.some.injEq, meant, RelationshipLine.mk.injEq, true_and, and_true] at h
      obtain ⟨hleft, -, hright⟩ := h
      have hleft := congrArg String.toList hleft
      have hright := congrArg String.toList hright
      rw [String.toList_ofList] at hleft hright
      exact ⟨List.append_right_eq_self.1 hleft, kept_eq_self_iff.1 hright⟩
  · rintro ⟨hleft, hright⟩
    rw [kept_eq_self_iff.2 hleft, kept_eq_self_iff.2 hright, hleft, hright,
      if_neg (toList_ne_nil l.readable_right.ne_empty)]
    simp [meant]

/-- **A line of two names and an arrow is read as it is meant if and only if, on both sides of the
arrow, there is a gap or what stands behind it does not begin with `o`.** Without a gap the letters
`o` that begin an arrow are read as the end of the left name, and those that begin the right name
as the end of the arrow; the line is no relationship if they are the whole name. -/
theorem relationshipLine?_eq_meant_iff :
    relationshipLine? l.text = l.taken? ∧
      (relationshipLine? l.text = some l.meant ↔
        (l.before ≠ [] ∨ l.arrow.head? ≠ some 'o') ∧
          (l.behind ≠ [] ∨ l.right.toList.head? ≠ some 'o')) := by
  refine ⟨l.relationshipLine?_text, ?_⟩
  rw [relationshipLine?_text, taken?_eq_meant_iff, ceded_eq_nil_iff, ceded_eq_nil_iff]

/-- The arrow takes the first letter of `order`, although it does not end in `o` itself. -/
theorem exists_relationshipLine?_ne_meant : ∃ l : ArrowLine,
    l.arrow.head? ≠ some 'o' ∧ l.arrow.getLast? ≠ some 'o' ∧ l.text = "A--order".toList ∧
      l.meant = { left := "A", leftMultiplicity := none, arrow := "--", rightMultiplicity := none,
                  right := "order", label := none } ∧
      relationshipLine? l.text = some
        { left := "A", leftMultiplicity := none, arrow := "--o", rightMultiplicity := none,
          right := "rder", label := none } := by
  refine ⟨{
    left := "A"
    before := []
    arrow := ['-', '-']
    behind := []
    right := "order"
    readable_left := ⟨by decide, List.all_eq_true.1 (by decide)⟩
    gap_before := by simp
    isArrow := ⟨List.all_eq_true.1 (by decide), .inl List.infix_rfl⟩
    gap_behind := by simp
    readable_right := ⟨by decide, List.all_eq_true.1 (by decide)⟩ },
    by decide, by decide, rfl, rfl, by decide⟩

end ArrowLine

end UmlText
