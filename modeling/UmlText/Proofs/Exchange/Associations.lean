import UmlText.Proofs.Exchange.Headers
import UmlText.Store.Workspace

/-!
# UmlText.Proofs.Exchange.Associations

**Every written association is read back.** Its line begins with a name, which must not be a word
that a line of another shape begins with; those words are listed in `reservedNames`. Under that
condition the line has no other shape, and its parts are those that were written.
-/

namespace UmlText

open Text (Trimmed trim isBlank isGap)

namespace Writing

/-! ### What is written -/

/-- Words that begin lines of other shapes. -/
def reservedNames : List String :=
  ["hide", "show", "title", "package", "abstract", "class", "interface", "enum", "actor", "usecase"]

/-- A name that an association can begin with. -/
structure Leading (name : String) : Prop where
  not_reserved : name ∉ reservedNames
  not_skinparam : ¬ "skinparam".toList <+: name.toList

/-- An association that reads back: its name can be a label that is not taken for a stereotype, and
its multiplicities can be put in quotes. -/
structure ReadableAssociation (name : String) (r : Relationship) : Prop where
  kind : r.kind = .association
  trimmed : trim name.toList = name.toList
  no_newline : '\n' ∉ name.toList
  no_include : ¬ "<<include>>".toList <:+: name.toList
  no_extend : ¬ "<<extend>>".toList <:+: name.toList
  multiplicity1 : ∀ m ∈ r.end1.spec.multiplicity, Quotable m
  multiplicity2 : ∀ m ∈ r.end2.spec.multiplicity, Quotable m

/-- A multiplicity in quotes, or nothing. -/
def multiplicityText : Option String → List Char
  | none => []
  | some m => '"' :: m.toList ++ ['"', ' ']

/-- The label of an association, or nothing. -/
def labelText (name : String) : List Char :=
  if name = "" then [] else ' ' :: ':' :: ' ' :: name.toList

/-- The line of an association between two named elements. -/
def associationText (left right name : String) (m1 m2 : Option String) : List Char :=
  nameText left ++ ' ' :: (multiplicityText m1 ++ '-' :: '-' :: ' ' ::
    (multiplicityText m2 ++ (nameText right ++ labelText name)))

/-- The label that a name is written as: none if it is empty. -/
def writtenLabel (name : String) : Option String :=
  if name = "" then none else some name

/-- What becomes of a written label is the name that it was written for. -/
theorem elim_writtenLabel {name : String} (h : trim name.toList = name.toList) :
    (writtenLabel name).elim "" (fun label => String.ofList (trim label.toList)) = name := by
  rw [writtenLabel]
  split
  · next hempty =>
      rw [hempty]
      rfl
  · rw [Option.elim_some, h, String.ofList_toList]

/-- What the line of an association says. -/
def associationParts (left right name : String) (m1 m2 : Option String) : Line.RelationshipLine :=
  { left, leftMultiplicity := m1, arrow := "--", rightMultiplicity := m2, right
    label := writtenLabel name }

/-- What a reader records of the line of an association. -/
def writtenBlueprint (source target : ElementId) (name : String) (m1 m2 : Option String) :
    Blueprint :=
  { kind := .association, source, target, label := writtenLabel name
    end1 := { multiplicity := m1 }
    end2 := { multiplicity := m2 } }

theorem toList_associationLine {w : Workspace} {name : String} {r : Relationship}
    (h : ReadableAssociation name r) {left right : Element}
    (hleft : w.element? r.end1.reference = some left)
    (hright : w.element? r.end2.reference = some right) :
    (associationLine w name r).toList = associationText left.name right.name name
      r.end1.spec.multiplicity r.end2.spec.multiplicity := by
  have hname : ∀ (id : ElementId) (e : Element), w.element? id = some e →
      endName w id = quoteName e.name := by
    intro id e he
    simp only [endName, show ModelStore.element? w id = w.element? id from rfl, he,
      Option.elim_some]
  have hlabel : String.ofList (trim name.toList) = name := by
    rw [h.trimmed, String.ofList_toList]
  have hquoted : ∀ m : String, (s!"\"{m}\"").toList = '"' :: m.toList ++ ['"'] := by
    intro m
    show ("\"" ++ m ++ "\"").toList = _
    simp
  have htail : (if name = "" then "" else s!" : {name}").toList = labelText name := by
    by_cases hempty : name = ""
    · simp [hempty, labelText]
    · rw [if_neg hempty, labelText, if_neg hempty]
      show (" : " ++ name).toList = _
      simp
  simp only [associationLine, hname _ _ hleft, hname _ _ hright, hlabel, String.toList_append,
    htail, associationText]
  cases hm1 : r.end1.spec.multiplicity <;> cases hm2 : r.end2.spec.multiplicity <;>
    simp [nameText, multiplicityText, hquoted]

theorem multiplicityText_head {m : Option String} {c : Char} {rest : List Char} :
    (multiplicityText m ++ c :: rest).head? = some (if m.isSome then '"' else c) := by
  cases m <;> rfl

/-- A multiplicity is read, and the gap behind it is left. -/
theorem leftMultiplicity_multiplicityText {m : Option String} (h : ∀ t ∈ m, Quotable t)
    (rest : List Char) :
    ∃ cs, Line.leftMultiplicity (' ' :: (multiplicityText m ++ '-' :: rest)) = (m, cs) ∧
      Line.skipGap cs = '-' :: rest := by
  cases m with
  | none => exact ⟨' ' :: '-' :: rest, rfl, rfl⟩
  | some t =>
      have ht := h t rfl
      have hquoted := Line.quoted?_append (toList_ne_nil ht.ne_empty) ht.no_quote
        (' ' :: '-' :: rest)
      refine ⟨' ' :: '-' :: rest, ?_, rfl⟩
      simp only [multiplicityText, List.append_assoc, List.cons_append, List.nil_append]
      rw [Line.leftMultiplicity, Line.skipGap_cons (by intro c hc; cases hc; rfl)]
      simp only [List.cons_append] at hquoted
      rw [hquoted]
      simp

theorem arrow?_dashes (rest : List Char) :
    Line.arrow? ('-' :: '-' :: ' ' :: rest) = some (['-', '-'], ' ' :: rest) := by
  have hrun : Line.run? Line.isArrowChar (['-', '-'] ++ ' ' :: rest)
      = some (['-', '-'], ' ' :: rest) :=
    Line.run?_append (by simp) (by simp [Line.isArrowChar]) (by intro c hc; cases hc; rfl)
  simp only [List.cons_append, List.nil_append] at hrun
  simp [Line.arrow?, hrun, Text.occursIn, List.isPrefixOf]

theorem labelText_head (name : String) : ∀ c ∈ (labelText name).head?, c = ' ' := by
  rw [labelText]
  split
  · simp
  · intro c hc
    exact (Option.some.inj hc).symm

/-- A label is no operand. -/
theorem endpoint?_labelText (name : String) :
    Line.endpoint? (Line.skipGap (labelText name)) = none := by
  rw [labelText]
  split <;> rfl

theorem label?_labelText {name : String} (h : trim name.toList = name.toList) :
    Line.label? (labelText name) = some (writtenLabel name) := by
  by_cases hempty : name = ""
  · subst hempty
    rfl
  · have htrim : trim (labelText name) = ':' :: ' ' :: name.toList := by
      rw [labelText, if_neg hempty, Text.trim_cons rfl]
      refine (Trimmed.append [':', ' '] (by intro c hc; cases hc; rfl) (by simp)
        (Text.trimmed_of_trim_eq h).2 (toList_ne_nil hempty)).trim_eq
    rw [Line.label?, htrim]
    simp only [Text.trim_cons (show isBlank ' ' = true from rfl), h, String.ofList_toList,
      writtenLabel]

/-- The right operand is read with the multiplicity in front of it. -/
theorem rightOperand?_associationText {right name : String} {m : Option String}
    (hright : Quotable right) (h : ∀ t ∈ m, Quotable t) :
    Line.rightOperand? (multiplicityText m ++ (nameText right ++ labelText name))
      = some ((m, right), labelText name) := by
  have hlabel : ∀ c ∈ (labelText name).head?, Line.isIdentifierChar c = false := by
    intro c hc
    rw [labelText_head name c hc]
    rfl
  have hend := endpoint?_nameText hright hlabel
  cases m with
  | none =>
      rw [multiplicityText, List.nil_append, Line.rightOperand?, hend]
      rcases nameText_cases right with ⟨hname, htext⟩ | htext
      · have hquoted : Line.quoted? (nameText right ++ labelText name) = none := by
          refine Line.quoted?_eq_none fun c hc => ne_quote_of_isIdentifierChar ?_
          rw [htext, List.head?_append_of_ne_nil _ (toList_ne_nil hright.ne_empty)] at hc
          exact hname.chars c (List.mem_of_mem_head? hc)
        simp [hquoted]
      · -- A quoted operand is not taken for a multiplicity, because no operand follows it.
        have hquoted := Line.quoted?_append (toList_ne_nil hright.ne_empty) hright.no_quote
          (labelText name)
        rw [htext, List.append_assoc, List.singleton_append, hquoted]
        simp [endpoint?_labelText]
  | some t =>
      have ht := h t rfl
      have hquoted := Line.quoted?_append (toList_ne_nil ht.ne_empty) ht.no_quote
        (' ' :: (nameText right ++ labelText name))
      simp only [List.cons_append] at hquoted
      simp only [multiplicityText, List.append_assoc, List.cons_append, List.nil_append]
      rw [Line.rightOperand?, hquoted]
      simp [Line.skipGap_cons (isGap_head_nameText hright.ne_empty _), hend]

theorem relationshipLine?_associationText {left right name : String} {m1 m2 : Option String}
    (hleft : Quotable left) (hright : Quotable right) (hname : trim name.toList = name.toList)
    (h1 : ∀ m ∈ m1, Quotable m) (h2 : ∀ m ∈ m2, Quotable m) :
    Line.relationshipLine? (associationText left right name m1 m2)
      = some (associationParts left right name m1 m2) := by
  obtain ⟨cs, hmultiplicity, hgap⟩ := leftMultiplicity_multiplicityText h1
    ('-' :: ' ' :: (multiplicityText m2 ++ (nameText right ++ labelText name)))
  have hend : Line.endpoint? (associationText left right name m1 m2)
      = some (left.toList, ' ' :: (multiplicityText m1 ++ '-' :: '-' :: ' ' ::
          (multiplicityText m2 ++ (nameText right ++ labelText name)))) :=
    endpoint?_nameText hleft (by intro c hc; cases hc; rfl)
  have hskip : Line.skipGap (' ' :: (multiplicityText m2 ++ (nameText right ++ labelText name)))
      = multiplicityText m2 ++ (nameText right ++ labelText name) := by
    refine Line.skipGap_cons ?_
    intro c hc
    cases m2 with
    | none => exact isGap_head_nameText hright.ne_empty _ c hc
    | some m =>
        obtain rfl := Option.some.inj hc
        rfl
  simp only [Line.relationshipLine?, hend, Option.bind_eq_bind, Option.bind_some, hmultiplicity,
    hgap, arrow?_dashes, hskip, rightOperand?_associationText hright h2, label?_labelText hname,
    String.ofList_toList]
  rfl

/-! ### An association is nothing else -/

/-- A text with a blank begins like a line if its first word is that of the line. -/
theorem prefix_word {u v name rest : List Char} (hu : ' ' ∉ u) (hname : ' ' ∉ name)
    (h : u ++ ' ' :: v <+: name ++ ' ' :: rest) : u = name ∧ v <+: rest := by
  obtain ⟨t, ht⟩ := h
  rw [List.append_assoc, List.cons_append] at ht
  have hcut := Text.cutFirst?_append_cons hu (v ++ t)
  rw [ht, Text.cutFirst?_append_cons hname rest] at hcut
  obtain ⟨rfl, rfl⟩ := Prod.mk.inj (Option.some.inj hcut)
  exact ⟨rfl, t, rfl⟩

/-- A text without blanks is at the front of a line if it is at the front of its first word. -/
theorem prefix_of_no_blank {w name rest : List Char} (hw : ' ' ∉ w)
    (h : w <+: name ++ ' ' :: rest) : w <+: name := by
  rcases List.prefix_or_prefix_of_prefix h (List.prefix_append name _) with hpre | ⟨t, rfl⟩
  · exact hpre
  · cases t with
    | nil => simp
    | cons c t =>
        rw [List.prefix_append_right_inj] at h
        obtain ⟨rest', hrest⟩ := h
        obtain rfl := (List.cons.inj hrest).1
        simp at hw

/-- A keyword is read only where it is the first word of a line. -/
theorem keyword?_eq_none {word name : String} (hname : ReadableName name) (hne : name ≠ word)
    (hword : ' ' ∉ word.toList) (rest : List Char) :
    Line.keyword? word (name.toList ++ ' ' :: rest) = none := by
  rw [Line.keyword?, Line.word?]
  cases hprefix : word.toList.isPrefixOf? (name.toList ++ ' ' :: rest) with
  | none => rfl
  | some cs =>
      have hline := List.isPrefixOf?_eq_some_iff_append_eq.1 hprefix
      obtain ⟨t, ht⟩ := prefix_of_no_blank hword ⟨cs, hline⟩
      have hcs : cs = t ++ ' ' :: rest := by
        rw [← ht, List.append_assoc] at hline
        exact List.append_cancel_left hline
      -- Behind the keyword the name goes on, so there is no gap.
      have hhead : ∀ c ∈ cs.head?, isGap c = false := by
        intro c hc
        cases t with
        | nil =>
            refine absurd ?_ hne
            rw [← String.toList_inj, ← ht, List.append_nil]
        | cons d t =>
            rw [hcs] at hc
            obtain rfl := Option.some.inj hc
            refine isGap_eq_false_of_isBlank (isBlank_of_isIdentifierChar (hname.chars d ?_))
            rw [← ht]
            simp
      rw [Option.bind_some, Line.gap?, Line.run?_eq_none hhead]
      rfl

/-- A name in front of a blank begins no line without content, unless it is a word that such a line
begins with. -/
theorem isIgnored_eq_false {name : String} (hname : ReadableName name) (h : Leading name)
    {rest : List Char} (hrest : ∀ c ∈ rest.head?, c ≠ 't') :
    Line.isIgnored (name.toList ++ ' ' :: rest) = false := by
  have hmark : ∀ c : Char, Line.isIdentifierChar c = false → ' ' ≠ c →
      ¬ [c] <+: name.toList ++ ' ' :: rest := by
    intro c hc hblank hpre
    have hmem : c ∈ name.toList :=
      (prefix_of_no_blank (by simpa using hblank) hpre).subset (by simp)
    exact absurd (hname.chars c hmem) (by simp [hc])
  have hword : ∀ (word : String) (v : List Char), ' ' ∉ word.toList →
      word.toList ++ ' ' :: v <+: name.toList ++ ' ' :: rest → word = name ∧ v <+: rest := by
    intro word v hword hpre
    have hblank : ' ' ∉ name.toList := fun hmem => absurd (hname.chars ' ' hmem) (by decide)
    exact (prefix_word hword hblank hpre).imp_left String.toList_inj.1
  have hreserved : ∀ word ∈ reservedNames, ' ' ∉ word.toList →
      ¬ word.toList ++ [' '] <+: name.toList ++ ' ' :: rest := fun word hmem hno hpre =>
    h.not_reserved ((hword word [] hno hpre).1 ▸ hmem)
  -- The two directions go on with a word, where an association has a dash or a quote.
  have hdirection : ∀ (word : String) (v : List Char), ' ' ∉ word.toList →
      ¬ word.toList ++ ' ' :: 't' :: v <+: name.toList ++ ' ' :: rest := by
    intro word v hno hpre
    obtain ⟨cs, rfl⟩ := (hword word _ hno hpre).2
    exact hrest 't' rfl rfl
  rw [Line.isIgnored, Bool.or_eq_false_iff, List.any_eq_false]
  refine ⟨by simp, ?_⟩
  intro start hstart hpre
  rw [List.isPrefixOf_iff_prefix] at hpre
  simp only [Line.ignoredStarts, List.mem_cons, List.not_mem_nil, or_false] at hstart
  rcases hstart with rfl | rfl | rfl | rfl | rfl | rfl | rfl | rfl
  · exact hmark '\'' rfl (by decide) hpre
  · exact hmark '@' rfl (by decide) hpre
  · exact h.not_skinparam (prefix_of_no_blank (by decide) hpre)
  · exact hdirection "top" _ (by decide) hpre
  · exact hdirection "left" _ (by decide) hpre
  · exact hreserved "hide" (by decide) (by decide) hpre
  · exact hreserved "show" (by decide) (by decide) hpre
  · exact hreserved "title" (by decide) (by decide) hpre

/-- Behind the first name of an association stands a quote or a dash. -/
theorem associationText_eq (left right name : String) (m1 m2 : Option String) :
    ∃ rest, associationText left right name m1 m2 = nameText left ++ ' ' :: rest ∧
      ∀ c ∈ rest.head?, c ≠ 't' := by
  refine ⟨_, rfl, ?_⟩
  intro c hc
  rw [multiplicityText_head] at hc
  obtain rfl := Option.some.inj hc
  split <;> decide

/-- Outside of a body the line of an association is a relationship, if its first word can begin one
or stands in quotes. -/
theorem shape_associationText {left right name : String} {m1 m2 : Option String}
    (hleading : isPlainName left → Leading left) (hleft : Quotable left) (hright : Quotable right)
    (hname : trim name.toList = name.toList) (h1 : ∀ m ∈ m1, Quotable m)
    (h2 : ∀ m ∈ m2, Quotable m) :
    LineShape.of false (associationText left right name m1 m2)
      = .relationship (associationParts left right name m1 m2) := by
  have hline := relationshipLine?_associationText hleft hright hname h1 h2
  obtain ⟨rest, htext, hrest⟩ := associationText_eq left right name m1 m2
  rw [htext] at hline ⊢
  have hshape : Line.isIgnored (nameText left ++ ' ' :: rest) = false ∧
      Line.isBlockClose (nameText left ++ ' ' :: rest) = false ∧
      ∀ word ∈ reservedNames, Line.keyword? word (nameText left ++ ' ' :: rest) = none := by
    by_cases hbare : isPlainName left
    · have hplain := readableName_of_isPlainName hbare
      have hleading := hleading hbare
      rw [nameText_of_isPlainName hbare]
      refine ⟨isIgnored_eq_false hplain hleading hrest, ?_, ?_⟩
      · have hlast : ∀ cs : List Char, cs ++ ' ' :: rest ≠ ['\x7d'] := by
          intro cs h
          cases cs <;> simp at h
        simpa [Line.isBlockClose] using hlast left.toList
      · intro word hword
        refine keyword?_eq_none hplain (fun h => hleading.not_reserved (h ▸ hword)) ?_ rest
        revert word
        decide
    · rw [nameText_of_not_isPlainName hbare]
      refine ⟨by simp [Line.isIgnored, Line.ignoredStarts, List.isPrefixOf],
        by simp [Line.isBlockClose], ?_⟩
      simp [reservedNames, Line.keyword?, Line.word?]
  obtain ⟨hignored, hclose, hkeyword⟩ := hshape
  have hpackage : Line.packageHeader? (nameText left ++ ' ' :: rest) = none := by
    simp only [Line.packageHeader?, hkeyword "package" (by decide)]
    split <;> rfl
  have hentity : Line.entityHeader? (nameText left ++ ' ' :: rest) = none := by
    simp only [reservedNames, List.forall_mem_cons] at hkeyword
    simp [Line.entityHeader?, Line.entityKeyword?, hkeyword]
  simp [LineShape.of, hignored, hpackage, hentity, hclose, hline]

theorem no_newline_multiplicityText {m : Option String} (h : ∀ t ∈ m, Quotable t) :
    '\n' ∉ multiplicityText m := by
  cases m with
  | none => simp [multiplicityText]
  | some t => simp [multiplicityText, (h t rfl).no_newline]

theorem no_newline_associationText {left right name : String} {m1 m2 : Option String}
    (hleft : Quotable left) (hright : Quotable right) (hname : '\n' ∉ name.toList)
    (h1 : ∀ m ∈ m1, Quotable m) (h2 : ∀ m ∈ m2, Quotable m) :
    '\n' ∉ associationText left right name m1 m2 := by
  have hlabel : '\n' ∉ labelText name := by
    rw [labelText]
    split <;> simp [hname]
  simp [associationText, no_newline_nameText hleft, no_newline_nameText hright, hlabel,
    no_newline_multiplicityText h1, no_newline_multiplicityText h2]

/-- A name has no blank ends, in quotes or not. -/
theorem trimmed_nameText (name : String) : Trimmed (nameText name) := by
  rcases nameText_cases name with ⟨hname, htext⟩ | htext
  · rw [htext]
    exact ⟨hname.head, fun c hc =>
      isBlank_of_isIdentifierChar (hname.chars c (List.mem_of_getLast? hc))⟩
  · rw [htext]
    exact .append ['"'] (by intro c hc; cases hc; rfl) (by simp) (by simp; rfl) (by simp)

theorem trim_associationText {left right name : String} {m1 m2 : Option String}
    (hleft : Quotable left) (hright : Quotable right) (hname : trim name.toList = name.toList) :
    trim (associationText left right name m1 m2) = associationText left right name m1 m2 := by
  have hne := nameText_ne_nil hright.ne_empty
  have hlast : ∀ c ∈ (nameText right ++ labelText name).getLast?, isBlank c = false := by
    rw [labelText]
    split
    · rw [List.append_nil]
      exact (trimmed_nameText right).2
    · next hempty =>
        have hne := toList_ne_nil hempty
        rw [List.getLast?_append_of_ne_nil _ (by simp), List.getLast?_cons_cons,
          List.getLast?_cons_cons, List.getLast?_cons_of_ne_nil hne]
        exact (Text.trimmed_of_trim_eq hname).2
  refine (Trimmed.append (nameText left) (trimmed_nameText left).1
    (nameText_ne_nil hleft.ne_empty) ?_ (by simp)).trim_eq
  rw [List.getLast?_cons_of_ne_nil (by simp), List.getLast?_append_of_ne_nil _ (by simp),
    List.getLast?_cons_cons, List.getLast?_cons_cons,
    List.getLast?_cons_of_ne_nil (by simp [hne]),
    List.getLast?_append_of_ne_nil _ (by simp [hne])]
  exact hlast

/-! ### What the line of an association means -/

/-- Two dashes and a label without stereotypes mean an association, whatever is joined. -/
theorem classifyArrow_dashes {name : String} (hname : trim name.toList = name.toList)
    (hinclude : ¬ "<<include>>".toList <:+: name.toList)
    (hextend : ¬ "<<extend>>".toList <:+: name.toList) (left right : ElementKind) :
    classifyArrow "--" left right (writtenLabel name)
      = some { kind := .association, label := writtenLabel name } := by
  have harrow : ArrowMeaning.ofArrow? "--".toList left right
      = some { kind := .association } := rfl
  rw [classifyArrow, harrow, Option.map_some]
  by_cases hempty : name = ""
  · subst hempty
    rfl
  · have hstereotype : ArrowMeaning.stereotype? name = none := by
      simp only [ArrowMeaning.stereotype?, Text.occursIn_iff, hinclude, hextend, if_false]
    have hclean : ArrowMeaning.cleanLabel (some name) = some name := by
      simp [ArrowMeaning.cleanLabel, hname, Option.filter, hempty]
    simp [writtenLabel, hempty, ArrowMeaning.withLabel, hclean, hstereotype]

end Writing

end UmlText
