import UmlText.Proofs.Exchange.Associations
import UmlText.Proofs.Reading.Trailing

/-!
# UmlText.Proofs.Exchange.Recognized

**What a recognizer returns can be written.** Whatever is read off a line without a line feed keeps
to one line, and the characters that end it are not in it. So names can be put in quotes
(`quotable_of_name?`), members are read back but for inputs of which nothing is left
(`readable_of_attribute?`, `plain_of_operation?`), and what is written at an association can be
written again (`quotable_of_relationshipLine?`).
-/

namespace UmlText

open Text (trim isBlank)
open Writing (PlainInput PlainOperation PlainParameter Quotable ReadableAttribute ReadableName
  ReadableType)

namespace Text

/-- The pieces of a text are made of its characters. -/
theorem subset_of_mem_splitOn {c : Char} {cs piece : List Char} (h : piece ∈ cs.splitOn c) :
    piece ⊆ cs := by
  obtain ⟨before, after, hpieces⟩ := List.append_of_mem h
  have hjoined : [c].intercalate (cs.splitOn c) = cs := List.intercalate_splitOn c
  rw [hpieces] at hjoined
  rw [← hjoined]
  clear h hpieces hjoined
  induction before with
  | nil => cases after <;> simp [List.intercalate_cons_cons]
  | cons other before ih =>
      rw [List.cons_append]
      cases hrest : before ++ piece :: after with
      | nil => simp at hrest
      | cons next rest =>
          rw [List.intercalate_cons_cons, ← hrest]
          exact fun x hx => List.mem_append_right _ (ih hx)

end Text

/-- A name that needs no quotes can be put between them. -/
theorem Writing.ReadableName.quotable {name : String} (h : ReadableName name) : Quotable name :=
  ⟨h.ne_empty, fun hc => ne_quote_of_isIdentifierChar (h.chars _ hc) rfl, h.no_newline⟩

namespace Line

variable {cs rest : List Char}

/-! ### Rests -/

/-- A reader that leaves the end of a text. -/
def Leaves {α : Type} (cs : List Char) (read : Option (α × List Char)) : Prop :=
  ∀ a rest, read = some (a, rest) → rest <:+ cs

theorem Leaves.orElse {α : Type} {a b : Option (α × List Char)} (ha : Leaves cs a)
    (hb : Leaves cs b) : Leaves cs (a <|> b) := by
  intro x rest h
  cases a with
  | none => exact hb x rest h
  | some found => exact ha x rest h

theorem run?_suffix {p : Char → Bool} {word : List Char} (h : run? p cs = some (word, rest)) :
    rest <:+ cs :=
  ⟨word, (run?_eq_some h).1.symm⟩

theorem skipGap_suffix (cs : List Char) : skipGap cs <:+ cs := List.dropWhile_suffix _

theorem word?_suffix {word : String} (h : word? word cs = some rest) : rest <:+ cs :=
  ⟨word.toList, List.isPrefixOf?_eq_some_iff_append_eq.1 h⟩

theorem keyword?_suffix {word : String} (h : keyword? word cs = some rest) : rest <:+ cs := by
  obtain ⟨behind, hword, hgap⟩ := Option.bind_eq_some_iff.1 h
  obtain ⟨⟨gap, rest⟩, hrun, rfl⟩ := Option.map_eq_some_iff.1 hgap
  exact (run?_suffix hrun).trans (word?_suffix hword)

theorem leaves_keyword {α : Type} (word : String) (a : α) :
    Leaves cs ((keyword? word cs).map (a, ·)) := by
  intro b rest h
  obtain ⟨behind, hkeyword, heq⟩ := Option.map_eq_some_iff.1 h
  cases heq
  exact keyword?_suffix hkeyword

theorem leaves_entityKeyword? (cs : List Char) : Leaves cs (entityKeyword? cs) := by
  refine .orElse ?_ (.orElse (leaves_keyword _ _) (.orElse (leaves_keyword _ _)
    (.orElse (leaves_keyword _ _) (.orElse (leaves_keyword _ _) (.orElse (leaves_keyword _ _)
      (leaves_keyword _ _))))))
  intro keyword rest h
  obtain ⟨behind, hkeywords, heq⟩ := Option.map_eq_some_iff.1 h
  cases heq
  obtain ⟨between, habstract, hclass⟩ := Option.bind_eq_some_iff.1 hkeywords
  exact (keyword?_suffix hclass).trans (keyword?_suffix habstract)

theorem visibility_suffix (cs : List Char) : (visibility cs).2 <:+ cs := by
  have hread : Leaves cs (visibility? cs) := by
    intro v rest h
    simp only [visibility?] at h
    split at h
    case h_5 =>
      exact Leaves.orElse (leaves_keyword _ _) (.orElse (leaves_keyword _ _)
        (.orElse (leaves_keyword _ _) (leaves_keyword _ _))) v rest h
    all_goals
      cases h
      exact (skipGap_suffix _).trans (List.suffix_cons _ _)
  rw [visibility]
  cases h : visibility? cs with
  | none => exact List.suffix_rfl
  | some found => exact hread found.1 found.2 h

/-! ### Names -/

theorem quoted?_eq_some {inside : List Char} (h : quoted? cs = some (inside, rest)) :
    cs = '"' :: inside ++ '"' :: rest ∧ inside ≠ [] ∧ '"' ∉ inside := by
  cases cs with
  | nil => cases h
  | cons c cs =>
      by_cases hc : c = '"'
      · subst hc
        simp only [quoted?, Option.bind_eq_bind, Option.bind_eq_some_iff] at h
        obtain ⟨⟨word, behind⟩, hrun, h⟩ := h
        obtain ⟨rfl, hne, hword⟩ := run?_eq_some hrun
        split at h
        · cases h
          exact ⟨by simp_all, hne, fun hmem => by simpa using hword '"' hmem⟩
        · cases h
      · rw [quoted?_eq_none (by rintro d ⟨⟩; exact hc)] at h
        cases h

/-- A text that was read between quotes can be put between quotes. -/
theorem quotable_of_quoted? {inside : List Char} (h : quoted? cs = some (inside, rest))
    (hline : '\n' ∉ cs) : Quotable (String.ofList inside) ∧ '\n' ∉ rest := by
  obtain ⟨rfl, hne, hquote⟩ := quoted?_eq_some h
  simp only [List.cons_append, List.mem_cons, List.mem_append, not_or] at hline
  exact ⟨⟨by simpa using hne, by simpa using hquote, by simpa using hline.2.1⟩, hline.2.2.2⟩

theorem readable_of_identifier? {name : List Char} (h : identifier? cs = some (name, rest)) :
    ReadableName (String.ofList name) := by
  obtain ⟨-, hne, hname⟩ := run?_eq_some h
  exact ⟨by simpa using hne, fun c hc => hname c (by simpa using hc)⟩

theorem quotable_of_name? {name : List Char} (h : name? cs = some (name, rest))
    (hline : '\n' ∉ cs) : Quotable (String.ofList name) := by
  rcases Option.or_eq_some_iff.1 (Option.orElse_eq_or.symm.trans h) with h | ⟨-, h⟩
  · exact (quotable_of_quoted? h hline).1
  · obtain ⟨rfl, hne, hname⟩ := run?_eq_some h
    refine ⟨by simpa using hne, fun hc => ?_, fun hc => ?_⟩ <;>
      exact absurd (hname _ (by simpa using hc)) (by decide)

theorem quotable_of_endpoint? {name : List Char} (h : endpoint? cs = some (name, rest))
    (hline : '\n' ∉ cs) : Quotable (String.ofList name) ∧ '\n' ∉ rest := by
  rcases Option.or_eq_some_iff.1 (Option.orElse_eq_or.symm.trans h) with h | ⟨-, h⟩
  · exact quotable_of_quoted? h hline
  · exact ⟨(readable_of_identifier? h).quotable, fun hc => hline ((run?_suffix h).subset hc)⟩

theorem quotable_of_nameAndAlias? {named : String × Option String}
    (h : nameAndAlias? cs = some (named, rest)) (hline : '\n' ∉ cs) : Quotable named.1 := by
  simp only [nameAndAlias?, Option.bind_eq_bind, Option.bind_eq_some_iff] at h
  obtain ⟨⟨name, behind⟩, hname, h⟩ := h
  have hquotable := quotable_of_name? hname hline
  split at h <;> cases h <;> exact hquotable

theorem quotable_of_packageHeader? {header : PackageHeader} (h : packageHeader? cs = some header)
    (hline : '\n' ∉ cs) : Quotable header.name := by
  simp only [packageHeader?] at h
  split at h
  · cases h
  · simp only [Option.bind_eq_bind, Option.bind_eq_some_iff] at h
    obtain ⟨behind, hkeyword, ⟨named, rest⟩, hnamed, h⟩ := h
    cases h
    exact quotable_of_nameAndAlias? hnamed fun hc => hline ((keyword?_suffix hkeyword).subset hc)

theorem quotable_of_entityHeader? {header : EntityHeader} (h : entityHeader? cs = some header)
    (hline : '\n' ∉ cs) : Quotable header.name := by
  simp only [entityHeader?, Option.bind_eq_bind, Option.bind_eq_some_iff] at h
  obtain ⟨⟨keyword, behind⟩, hkeyword, ⟨named, rest⟩, hnamed, h⟩ := h
  cases h
  exact quotable_of_nameAndAlias? hnamed fun hc =>
    hline ((leaves_entityKeyword? cs _ _ hkeyword).subset hc)

/-! ### Members -/

theorem readable_of_typeName? {t : String} (h : typeName? cs = some t) (hline : '\n' ∉ cs) :
    ReadableType t ∧ t.toList ⊆ cs := by
  simp only [typeName?] at h
  split at h
  · cases h
  · next hname =>
      obtain rfl := Option.some.inj h
      rw [not_or] at hname
      have hsubset : (String.ofList (trim cs)).toList ⊆ cs := by
        rw [String.toList_ofList]
        exact Text.trim_subset cs
      refine ⟨⟨hname.1, ?_, fun hc => hline (hsubset hc), hname.2⟩, hsubset⟩
      rw [String.toList_ofList]
      exact (Text.trimmed_trim cs).trim_eq

/-- Whatever is read as an attribute is read back when it is written. -/
theorem readable_of_attribute? {a : Attribute} (h : attribute? cs = some a) (hline : '\n' ∉ cs) :
    ReadableAttribute a := by
  simp only [attribute?, Option.bind_eq_bind, Option.bind_eq_some_iff] at h
  obtain ⟨⟨name, behind⟩, hname, h⟩ := h
  have hreadable := readable_of_identifier? hname
  have hbehind : '\n' ∉ trim behind := fun hc => hline ((visibility_suffix cs).subset
    ((run?_suffix hname).subset (Text.trim_subset behind hc)))
  split at h
  · cases h
    exact ⟨hreadable, by simp⟩
  · next typed htyped =>
      have htyped : '\n' ∉ typed := fun hc => hbehind (htyped ▸ List.mem_cons_of_mem _ hc)
      split at h
      · next typeName value hcut =>
          cases h
          refine ⟨hreadable, fun t ht => ?_⟩
          have hfront : '\n' ∉ typeName := fun hc =>
            htyped (Text.cutFirst?_eq_some hcut ▸ List.mem_append_left _ hc)
          obtain ⟨hread, hsubset⟩ := readable_of_typeName? ht hfront
          exact ⟨hread, fun hc => Text.not_mem_of_cutFirst? hcut (hsubset hc)⟩
      · next hcut =>
          cases h
          refine ⟨hreadable, fun t ht => ?_⟩
          obtain ⟨hread, hsubset⟩ := readable_of_typeName? ht htyped
          exact ⟨hread, fun hc => Text.not_mem_of_cutFirst?_eq_none hcut (hsubset hc)⟩
  · cases h
    exact ⟨hreadable, by simp⟩
  · cases h

/-- A piece of a parameter list is an input that can be told apart from the others. -/
theorem plain_parameter (htrim : trim cs = cs) (hline : '\n' ∉ cs) (hcomma : ',' ∉ cs) :
    PlainParameter (parameter cs) := by
  simp only [parameter]
  split
  · next name typeName hcut =>
      have hcs := Text.cutFirst?_eq_some hcut
      have hname : name ⊆ cs := fun c hc => hcs ▸ List.mem_append_left _ hc
      have htype : typeName ⊆ cs := fun c hc =>
        hcs ▸ List.mem_append_right _ (List.mem_cons_of_mem _ hc)
      have hsubset := Text.trim_subset name
      refine ⟨_, _, rfl, ?_, ?_, ?_, ?_, fun t ht => ?_⟩
      · rw [String.toList_ofList]
        exact (Text.trimmed_trim name).trim_eq
      · simpa using fun hc => hline (hname (hsubset hc))
      · simpa using fun hc => hcomma (hname (hsubset hc))
      · simpa using fun hc => Text.not_mem_of_cutFirst? hcut (hsubset hc)
      · obtain ⟨hread, hchars⟩ := readable_of_typeName? ht fun hc => hline (htype hc)
        exact ⟨hread, fun hc => hcomma (htype (hchars hc))⟩
  · next hcut =>
      refine ⟨_, _, rfl, by simpa using htrim, by simpa using hline, by simpa using hcomma,
        by simpa using Text.not_mem_of_cutFirst?_eq_none hcut, by simp⟩

theorem plain_of_mem_parameters {p : Parameter} (h : p ∈ parameters cs) (hline : '\n' ∉ cs) :
    PlainParameter p := by
  obtain ⟨piece, hpiece, rfl⟩ := List.mem_map.1 h
  obtain ⟨raw, hraw, rfl⟩ := List.mem_map.1 (List.mem_filter.1 hpiece).1
  have hsubset := Text.trim_subset raw
  exact plain_parameter (Text.trimmed_trim raw).trim_eq
    (fun hc => hline (Text.subset_of_mem_splitOn hraw (hsubset hc)))
    fun hc => Text.not_mem_of_mem_splitOn hraw (hsubset hc)

theorem readable_of_returnType? {returnType : Option String} (h : returnType? cs = some returnType)
    (hline : '\n' ∉ cs) : ∀ t ∈ returnType, ReadableType t ∧ t.toList ⊆ cs := by
  simp only [returnType?] at h
  split at h
  · cases h
    simp
  · next typeName htrim =>
      cases h
      intro t ht
      have hsubset : typeName ⊆ cs := fun c hc =>
        Text.trim_subset cs (htrim ▸ List.mem_cons_of_mem _ hc)
      obtain ⟨hread, hchars⟩ := readable_of_typeName? ht fun hc => hline (hsubset hc)
      exact ⟨hread, fun c hc => hsubset (hchars hc)⟩
  · cases h

/-- Whatever is read as an operation is read back when it is written, but for inputs of which
nothing is written. -/
theorem plain_of_operation? {o : Operation} (h : operation? cs = some o) (hline : '\n' ∉ cs) :
    PlainOperation o := by
  simp only [operation?, Option.bind_eq_bind, Option.bind_eq_some_iff] at h
  obtain ⟨⟨name, behind⟩, hname, list, hopen, ⟨inside, after⟩, hclose, returnType, hreturn, h⟩ := h
  cases h
  have hlist : list ⊆ cs := fun c hc => (visibility_suffix cs).subset
    ((run?_suffix hname).subset ((word?_suffix hopen).subset hc))
  have hcut := Text.cutLast?_eq_some hclose
  have hinputs : ∀ p ∈ parameters inside, PlainParameter p := fun p hp =>
    plain_of_mem_parameters hp fun hc => hline (hlist (hcut ▸ List.mem_append_left _ hc))
  have hfirst : (parameters inside).find? Parameter.isReturn = none := by
    refine List.find?_eq_none.2 fun p hp => ?_
    obtain ⟨name, typeName, rfl, -⟩ := hinputs p hp
    simp [Parameter.isReturn]
  refine ⟨readable_of_identifier? hname, fun name typeName hmem => ?_, fun t ht => ?_⟩
  · rcases List.mem_append.1 hmem with hmem | hmem
    · obtain ⟨name, typeName, heq, hplain⟩ := hinputs _ hmem
      cases heq
      exact hplain
    · obtain ⟨t, -, heq⟩ := List.mem_map.1 hmem
      cases heq
  · have htype : t ∈ returnType := by
      simp only [Operation.returnType?, List.find?_append, hfirst, Option.none_or] at ht
      cases returnType with
      | none => exact ht
      | some u => exact ht
    obtain ⟨hread, hchars⟩ := readable_of_returnType? hreturn (fun hc =>
      hline (hlist (hcut ▸ List.mem_append_right _ (List.mem_cons_of_mem _ hc)))) t htype
    exact ⟨hread, fun hc => Text.not_mem_of_cutLast? hclose (hchars hc)⟩

/-! ### Relationships -/

/-- The texts of a relationship line can be written. -/
structure QuotableLine (parts : RelationshipLine) : Prop where
  left : Quotable parts.left
  right : Quotable parts.right
  leftMultiplicity : ∀ m ∈ parts.leftMultiplicity, Quotable m
  rightMultiplicity : ∀ m ∈ parts.rightMultiplicity, Quotable m
  label : ∀ text ∈ parts.label, '\n' ∉ text.toList

theorem quotable_of_leftMultiplicity (hline : '\n' ∉ cs) :
    (∀ m ∈ (leftMultiplicity cs).1, Quotable m) ∧ '\n' ∉ (leftMultiplicity cs).2 := by
  have hgap : '\n' ∉ skipGap cs := fun hc => hline ((skipGap_suffix cs).subset hc)
  rw [leftMultiplicity]
  split
  · next multiplicity rest hquoted =>
      obtain ⟨hquotable, hrest⟩ := quotable_of_quoted? hquoted hgap
      refine ⟨fun m hm => ?_, hrest⟩
      cases hm
      exact hquotable
  · exact ⟨by simp, hline⟩

theorem quotable_of_rightOperand? {operand : Option String × String}
    (h : rightOperand? cs = some (operand, rest)) (hline : '\n' ∉ cs) :
    (∀ m ∈ operand.1, Quotable m) ∧ Quotable operand.2 ∧ '\n' ∉ rest := by
  rcases Option.or_eq_some_iff.1 (Option.orElse_eq_or.symm.trans h) with h | ⟨-, h⟩
  · simp only [Option.bind_eq_bind, Option.bind_eq_some_iff] at h
    obtain ⟨⟨multiplicity, behind⟩, hquoted, ⟨right, rest⟩, hend, h⟩ := h
    cases h
    obtain ⟨hmultiplicity, hbehind⟩ := quotable_of_quoted? hquoted hline
    obtain ⟨hright, hrest⟩ := quotable_of_endpoint? hend fun hc =>
      hbehind ((skipGap_suffix _).subset hc)
    refine ⟨fun m hm => ?_, hright, hrest⟩
    cases hm
    exact hmultiplicity
  · obtain ⟨⟨right, rest⟩, hend, heq⟩ := Option.map_eq_some_iff.1 h
    cases heq
    obtain ⟨hright, hrest⟩ := quotable_of_endpoint? hend hline
    exact ⟨by simp, hright, hrest⟩

theorem no_newline_of_label? {label : Option String} (h : label? cs = some label)
    (hline : '\n' ∉ cs) : ∀ text ∈ label, '\n' ∉ text.toList := by
  simp only [label?] at h
  split at h
  · cases h
    simp
  · next text htrim =>
      have hsubset : trim text ⊆ cs := fun c hc =>
        Text.trim_subset cs (htrim ▸ List.mem_cons_of_mem _ (Text.trim_subset text hc))
      cases h
      intro label hlabel
      split at hlabel
      · cases hlabel
      · cases hlabel
        simpa using fun hc => hline (hsubset hc)
  · cases h

theorem quotable_of_relationshipLine? {parts : RelationshipLine}
    (h : relationshipLine? cs = some parts) (hline : '\n' ∉ cs) : QuotableLine parts := by
  simp only [relationshipLine?, Option.bind_eq_bind, Option.bind_eq_some_iff] at h
  obtain ⟨⟨left, behind⟩, hleft, ⟨arrow, afterArrow⟩, harrow, ⟨⟨m, right⟩, afterRight⟩, hright,
    label, hlabel, h⟩ := h
  cases h
  obtain ⟨hleftName, hbehind⟩ := quotable_of_endpoint? hleft hline
  obtain ⟨hleftMultiplicity, hafterLeft⟩ := quotable_of_leftMultiplicity hbehind
  have hafterArrow : afterArrow <:+ skipGap (leftMultiplicity behind).2 := by
    simp only [arrow?, Option.bind_eq_bind, Option.bind_eq_some_iff] at harrow
    obtain ⟨⟨token, rest⟩, hrun, harrow⟩ := harrow
    split at harrow
    · cases harrow
      exact run?_suffix hrun
    · cases harrow
  obtain ⟨hrightMultiplicity, hrightName, hafterRight⟩ := quotable_of_rightOperand? hright fun hc =>
    hafterLeft ((skipGap_suffix _).subset (hafterArrow.subset ((skipGap_suffix _).subset hc)))
  exact ⟨hleftName, hrightName, hleftMultiplicity, hrightMultiplicity,
    no_newline_of_label? hlabel hafterRight⟩

end Line

end UmlText
