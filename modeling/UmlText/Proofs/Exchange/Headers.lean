import UmlText.Proofs.Exchange.Members

/-!
# UmlText.Proofs.Exchange.Headers

**Every written class header is read back.** A name stands in quotes unless it is an identifier, so
it is read up to where it was meant to end (`name?_nameText`, `endpoint?_nameText`), and the header
of a class opens a body under that name.
-/

namespace UmlText

open Text (Trimmed trim isBlank isGap)

namespace Writing

/-! ### Names in quotes -/

/-- A text that can stand between quotes. -/
structure Quotable (text : String) : Prop where
  ne_empty : text ≠ ""
  no_quote : '"' ∉ text.toList
  no_newline : '\n' ∉ text.toList

/-- A name as it is written, in quotes if it is not an identifier. -/
def nameText (name : String) : List Char := (quoteName name).toList

theorem readableName_of_isPlainName {name : String} (h : isPlainName name) :
    ReadableName name := by
  simp only [isPlainName, Bool.and_eq_true, Bool.not_eq_true', List.all_eq_true] at h
  exact ⟨by intro heq; subst heq; simp at h, fun c hc => h.2 c hc⟩

theorem nameText_of_isPlainName {name : String} (h : isPlainName name) :
    nameText name = name.toList := by
  rw [nameText, quoteName, if_pos h]

theorem nameText_of_not_isPlainName {name : String} (h : ¬ isPlainName name) :
    nameText name = '"' :: name.toList ++ ['"'] := by
  rw [nameText, quoteName, if_neg h]
  show ("\"" ++ name ++ "\"").toList = _
  simp

/-- A name is written as it is, or between quotes. -/
theorem nameText_cases (name : String) :
    (ReadableName name ∧ nameText name = name.toList) ∨
      nameText name = '"' :: name.toList ++ ['"'] := by
  by_cases h : isPlainName name
  · exact .inl ⟨readableName_of_isPlainName h, nameText_of_isPlainName h⟩
  · exact .inr (nameText_of_not_isPlainName h)

theorem isNameChar_of_isIdentifierChar {c : Char} (h : Line.isIdentifierChar c) :
    Line.isNameChar c := by
  have hcode := toNat_of_isIdentifierChar h
  have hne : ∀ d : Char, d ∈ ['\x7b', '\x7d', '"'] → c ≠ d := by
    intro d hd heq
    subst heq
    simp only [List.mem_cons, List.not_mem_nil, or_false] at hd
    rcases hd with rfl | rfl | rfl <;> simp at hcode
  simp only [Line.isNameChar, isBlank_of_isIdentifierChar h, Bool.not_false, Bool.true_and,
    decide_eq_true_eq]
  exact fun hmem => hne c hmem rfl

theorem ne_quote_of_isIdentifierChar {c : Char} (h : Line.isIdentifierChar c) : c ≠ '"' := by
  intro heq
  subst heq
  cases h

/-- An identifier is not in quotes. -/
theorem ReadableName.quoted? {name : String} (h : ReadableName name) (rest : List Char) :
    Line.quoted? (name.toList ++ rest) = none := by
  refine Line.quoted?_eq_none fun c hc => ne_quote_of_isIdentifierChar ?_
  rw [List.head?_append_of_ne_nil _ (toList_ne_nil h.ne_empty)] at hc
  exact h.chars c (List.mem_of_mem_head? hc)

theorem Quotable.quoted? {name : String} (h : Quotable name) (rest : List Char) :
    Line.quoted? ('"' :: name.toList ++ ['"'] ++ rest) = some (name.toList, rest) := by
  rw [List.append_assoc, List.singleton_append,
    Line.quoted?_append (toList_ne_nil h.ne_empty) h.no_quote rest]

/-- A name is read up to the first character that no name has. -/
theorem ReadableName.name? {name : String} (h : ReadableName name) {rest : List Char}
    (hrest : ∀ c ∈ rest.head?, Line.isNameChar c = false) :
    Line.name? (name.toList ++ rest) = some (name.toList, rest) := by
  have hrun := Line.run?_append (toList_ne_nil h.ne_empty)
    (fun c hc => isNameChar_of_isIdentifierChar (h.chars c hc)) hrest
  rw [Line.name?, h.quoted?, hrun]
  rfl

/-- A name in quotes is read up to its second quote. -/
theorem Quotable.name? {name : String} (h : Quotable name) (rest : List Char) :
    Line.name? ('"' :: name.toList ++ ['"'] ++ rest) = some (name.toList, rest) := by
  rw [Line.name?, h.quoted?]
  rfl

/-- A written name is read up to the blank behind it. -/
theorem name?_nameText {name : String} (h : Quotable name) {rest : List Char}
    (hrest : ∀ c ∈ rest.head?, Line.isNameChar c = false) :
    Line.name? (nameText name ++ rest) = some (name.toList, rest) := by
  rcases nameText_cases name with ⟨hname, htext⟩ | htext
  · rw [htext, hname.name? hrest]
  · rw [htext, h.name?]

theorem endpoint?_nameText {name : String} (h : Quotable name) {rest : List Char}
    (hrest : ∀ c ∈ rest.head?, Line.isIdentifierChar c = false) :
    Line.endpoint? (nameText name ++ rest) = some (name.toList, rest) := by
  rcases nameText_cases name with ⟨hname, htext⟩ | htext
  · rw [htext, Line.endpoint?, hname.quoted?, hname.identifier? hrest]
    rfl
  · rw [htext, Line.endpoint?, h.quoted?]
    rfl

theorem nameText_head (name : String) :
    ∀ c ∈ (nameText name).head?, c = '"' ∨ Line.isIdentifierChar c := by
  rcases nameText_cases name with ⟨hname, htext⟩ | htext
  · rw [htext]
    exact fun c hc => .inr (hname.chars c (List.mem_of_mem_head? hc))
  · rw [htext]
    intro c hc
    exact .inl (Option.some.inj hc).symm

theorem nameText_ne_nil {name : String} (h : name ≠ "") : nameText name ≠ [] := by
  rcases nameText_cases name with ⟨-, htext⟩ | htext <;> simp [htext, h]

theorem isGap_head_nameText {name : String} (h : name ≠ "") (rest : List Char) :
    ∀ c ∈ (nameText name ++ rest).head?, isGap c = false := by
  intro c hc
  rw [List.head?_append_of_ne_nil _ (nameText_ne_nil h)] at hc
  rcases nameText_head name c hc with rfl | hc
  · rfl
  · exact isGap_eq_false_of_isBlank (isBlank_of_isIdentifierChar hc)

theorem no_newline_nameText {name : String} (h : Quotable name) : '\n' ∉ nameText name := by
  rcases nameText_cases name with ⟨-, htext⟩ | htext <;> simp [htext, h.no_newline]

/-! ### Class headers -/

/-- The header line of a class. -/
def headerText (name : String) : List Char :=
  "class".toList ++ ' ' :: (nameText name ++ [' ', '\x7b'])

theorem toList_header (name : String) :
    (s!"class {quoteName name} \x7b").toList = headerText name := by
  show ("class " ++ quoteName name ++ " \x7b").toList = _
  simp [headerText, nameText]

/-- What the header line of a class says. -/
def classHeader (name : String) : Line.EntityHeader :=
  { kind := .umlClass, isAbstract := false, name, aliasName := none, block := .opened }

theorem entityHeader?_headerText {name : String} (h : Quotable name) :
    Line.entityHeader? (headerText name) = some (classHeader name) := by
  have habstract : Line.keyword? "abstract" (headerText name) = none := by
    simp [headerText, Line.keyword?, Line.word?, List.isPrefixOf?]
  have hclass : Line.keyword? "class" (headerText name) = some (nameText name ++ [' ', '\x7b']) :=
    Line.keyword?_append "class" (isGap_head_nameText h.ne_empty _)
  have hname : Line.name? (nameText name ++ [' ', '\x7b'])
      = some (name.toList, [' ', '\x7b']) :=
    name?_nameText h (by intro c hc; cases hc; rfl)
  have halias : Line.aliasName? [' ', '\x7b'] = none := rfl
  have hblock : Line.blockOf [' ', '\x7b'] = .opened := rfl
  simp [Line.entityHeader?, Line.entityKeyword?, habstract, hclass, Line.nameAndAlias?, hname,
    halias, hblock, classHeader]

/-- Behind the keyword stands a name, and no colon, equals sign or parenthesis. -/
theorem isMember_headerText (name : String) : Line.isMember (headerText name) = false := by
  have hvisibility : Line.visibility (headerText name) = (.pub, headerText name) := by
    simp [Line.visibility, Line.visibility?, headerText, Line.keyword?, Line.word?,
      List.isPrefixOf?]
  have hidentifier : Line.identifier? (headerText name)
      = some ("class".toList, ' ' :: (nameText name ++ [' ', '\x7b'])) :=
    Line.run?_append (by decide) (List.all_eq_true.1 (by decide)) (by intro c hc; cases hc; rfl)
  obtain ⟨c, tail, hrest, hcolon, hequals⟩ : ∃ c tail,
      trim (' ' :: (nameText name ++ [' ', '\x7b'])) = c :: tail ∧ c ≠ ':' ∧ c ≠ '=' := by
    have hhead := nameText_head name
    cases htext : nameText name with
    | nil =>
        rcases nameText_cases name with ⟨hname, h⟩ | h <;> rw [htext] at h
        · exact absurd h.symm (toList_ne_nil hname.ne_empty)
        · cases h
    | cons c tail =>
        have hc := hhead c (by rw [htext]; rfl)
        refine ⟨c, Text.trimEnd (tail ++ [' ', '\x7b']), ?_, ?_, ?_⟩
        · rw [Text.trim_cons rfl, List.cons_append, Text.trim_cons_of_not_isBlank]
          rcases hc with rfl | hc
          · rfl
          · exact isBlank_of_isIdentifierChar hc
        all_goals
          rintro rfl
          rcases hc with hc | hc <;> cases hc
  have hoperation : Line.operation? (headerText name) = none := by
    simp [Line.operation?, hvisibility, hidentifier, Line.word?, List.isPrefixOf?]
  have hattribute : Line.attribute? (headerText name) = none := by
    simp only [Line.attribute?, hvisibility, hidentifier, Option.bind_eq_bind, Option.bind_some,
      hrest]
    split
    · next h => cases h
    · next h => exact absurd (List.cons.inj h).1 hcolon
    · next h => exact absurd (List.cons.inj h).1 hequals
    · rfl
  simp [Line.isMember, hoperation, hattribute]

/-- The header of a class opens its body, also inside of another one. -/
theorem shape_headerText (bodyOpen : Bool) {name : String} (h : Quotable name) :
    LineShape.of bodyOpen (headerText name) = .entity (classHeader name) := by
  have hignored : Line.isIgnored (headerText name) = false := by
    simp [headerText, Line.isIgnored, Line.ignoredStarts, List.isPrefixOf]
  have hpackage : Line.packageHeader? (headerText name) = none := by
    have hword : Line.keyword? "package" (headerText name) = none := by
      simp [headerText, Line.keyword?, Line.word?, List.isPrefixOf?]
    simp only [Line.packageHeader?, hword]
    split <;> rfl
  simp [LineShape.of, hignored, isMember_headerText, hpackage, entityHeader?_headerText h]

theorem no_newline_headerText {name : String} (h : Quotable name) : '\n' ∉ headerText name := by
  simp [headerText, no_newline_nameText h]

theorem trim_headerText (name : String) : trim (headerText name) = headerText name := by
  refine Trimmed.trim_eq ⟨?_, ?_⟩
  · rw [headerText]
    intro c hc
    cases hc
    rfl
  · rw [headerText, List.getLast?_append_of_ne_nil _ (by simp),
      List.getLast?_cons_of_ne_nil (by simp), List.getLast?_append_of_ne_nil _ (by simp)]
    intro c hc
    cases hc
    rfl

end Writing

end UmlText
