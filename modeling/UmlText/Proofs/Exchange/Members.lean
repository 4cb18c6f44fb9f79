import UmlText.Proofs.Text.Cutting
import UmlText.Reading.Reader
import UmlText.Writing

/-!
# UmlText.Proofs.Exchange.Members

**Every written member is read back.** The conditions on names and types say what the line grammar
can tell apart. Under them the line of an attribute is read as that attribute, without its default
value, and the line of an operation as its inputs and its first return type; and inside a body no
other shape is seen in these lines.
-/

namespace UmlText

open Text (Trimmed trim isBlank isGap)

namespace Writing

/-! ### What can be read back -/

/-- The name of a member. -/
structure ReadableName (name : String) : Prop where
  ne_empty : name ≠ ""
  chars : ∀ c ∈ name.toList, Line.isIdentifierChar c

/-- A type that reads back, written behind a colon. -/
structure ReadableType (typeName : String) : Prop where
  ne_empty : typeName ≠ ""
  trimmed : trim typeName.toList = typeName.toList
  no_newline : '\n' ∉ typeName.toList
  not_absent : typeName ∉ Line.absentTypes

/-- An attribute that reads back, but for its default value: no `=` cuts its type short. -/
structure ReadableAttribute (a : Attribute) : Prop where
  name : ReadableName a.name
  typeName : ∀ t ∈ a.typeName, ReadableType t ∧ '=' ∉ t.toList

/-- An input that reads back: it has a name, no colon cuts this short, and no comma is in it. -/
structure ReadableInput (name : String) (typeName : Option String) : Prop where
  ne_empty : name ≠ ""
  trimmed : trim name.toList = name.toList
  no_newline : '\n' ∉ name.toList
  no_comma : ',' ∉ name.toList
  no_colon : ':' ∉ name.toList
  typeName : ∀ t ∈ typeName, ReadableType t ∧ ',' ∉ t.toList

/-- An operation that reads back: so do its inputs, and no parenthesis stands in its return type. -/
structure ReadableOperation (o : Operation) : Prop where
  name : ReadableName o.name
  inputs : ∀ name typeName, Parameter.input name typeName ∈ o.parameters →
    ReadableInput name typeName
  returnType : ∀ t ∈ o.returnType?, ReadableType t ∧ ')' ∉ t.toList

/-- An input that can be told apart from others in a list, if anything is written of it. -/
structure PlainInput (name : String) (typeName : Option String) : Prop where
  trimmed : trim name.toList = name.toList
  no_newline : '\n' ∉ name.toList
  no_comma : ',' ∉ name.toList
  no_colon : ':' ∉ name.toList
  typeName : ∀ t ∈ typeName, ReadableType t ∧ ',' ∉ t.toList

theorem ReadableInput.plain {name : String} {typeName : Option String}
    (h : ReadableInput name typeName) : PlainInput name typeName :=
  ⟨h.trimmed, h.no_newline, h.no_comma, h.no_colon, h.typeName⟩

/-- An operation that reads back, but for inputs of which nothing is written. -/
structure PlainOperation (o : Operation) : Prop where
  name : ReadableName o.name
  inputs : ∀ name typeName, Parameter.input name typeName ∈ o.parameters →
    PlainInput name typeName
  returnType : ∀ t ∈ o.returnType?, ReadableType t ∧ ')' ∉ t.toList

theorem ReadableOperation.plain {o : Operation} (h : ReadableOperation o) : PlainOperation o :=
  ⟨h.name, fun name typeName hmem => (h.inputs name typeName hmem).plain, h.returnType⟩

/-! ### The characters of names -/

theorem toNat_of_isIdentifierChar {c : Char} (h : Line.isIdentifierChar c) :
    (48 ≤ c.toNat ∧ c.toNat ≤ 57) ∨ (65 ≤ c.toNat ∧ c.toNat ≤ 90) ∨ c.toNat = 95 ∨
      (97 ≤ c.toNat ∧ c.toNat ≤ 122) := by
  delta Line.isIdentifierChar Char.isAlphanum Char.isAlpha Char.isUpper Char.isLower
    Char.isDigit at h
  simp only [Bool.or_eq_true, Bool.and_eq_true, decide_eq_true_eq, ge_iff_le,
    UInt32.le_iff_toNat_le] at h
  rcases h with ((h | h) | h) | rfl
  · exact .inr (.inl h)
  · exact .inr (.inr (.inr h))
  · exact .inl h
  · exact .inr (.inr (.inl rfl))

theorem isBlank_of_isIdentifierChar {c : Char} (h : Line.isIdentifierChar c) :
    isBlank c = false := by
  have hcode := toNat_of_isIdentifierChar h
  simp only [isBlank, Text.blankCodes, decide_eq_false_iff_not, List.mem_cons, List.not_mem_nil,
    or_false]
  omega

theorem isGap_eq_false_of_isBlank {c : Char} (h : isBlank c = false) : isGap c = false := by
  cases hgap : isGap c with
  | false => rfl
  | true => exact absurd (Text.isBlank_of_isGap hgap) (by simp [h])

theorem toList_ne_nil {text : String} (h : text ≠ "") : text.toList ≠ [] := by
  simpa using h

theorem ReadableName.head {name : String} (h : ReadableName name) :
    ∀ c ∈ name.toList.head?, isBlank c = false := fun c hc =>
  isBlank_of_isIdentifierChar (h.chars c (List.mem_of_mem_head? hc))

/-- A name is read up to the character behind it. -/
theorem ReadableName.identifier? {name : String} (h : ReadableName name) {rest : List Char}
    (hrest : ∀ c ∈ rest.head?, Line.isIdentifierChar c = false) :
    Line.identifier? (name.toList ++ rest) = some (name.toList, rest) :=
  Line.run?_append (toList_ne_nil h.ne_empty) h.chars hrest

/-! ### Types -/

/-- A colon and a type, or nothing. -/
def suffixText : Option String → List Char
  | none => []
  | some typeName => ':' :: ' ' :: typeName.toList

theorem toList_typeSuffix (typeName : Option String) :
    (typeSuffix typeName).toList = suffixText typeName := by
  cases typeName with
  | none => rfl
  | some t =>
      show (": " ++ t).toList = ':' :: ' ' :: t.toList
      simp

theorem ReadableType.typeName?_cons {typeName : String} (h : ReadableType typeName) :
    Line.typeName? (' ' :: typeName.toList) = some typeName := by
  rw [Line.typeName?, Text.trim_cons rfl, h.trimmed, String.ofList_toList]
  simp [h.ne_empty, h.not_absent]

theorem ReadableType.getLast {typeName : String} (h : ReadableType typeName) :
    ∀ c ∈ typeName.toList.getLast?, isBlank c = false :=
  (Text.trimmed_of_trim_eq h.trimmed).2

/-- What stands behind a colon is not trimmed away. -/
theorem trim_suffixText {typeName : Option String} (h : ∀ t ∈ typeName, ReadableType t) :
    trim (suffixText typeName) = suffixText typeName := by
  cases typeName with
  | none => rfl
  | some t =>
      have ht := h t rfl
      refine (Trimmed.append [':', ' '] ?_ (by simp) ht.getLast
        (toList_ne_nil ht.ne_empty)).trim_eq
      intro c hc
      obtain rfl := Option.some.inj hc
      rfl

theorem not_mem_suffixText {typeName : Option String} {c : Char} (hc : c ≠ ':' ∧ c ≠ ' ')
    (h : ∀ t ∈ typeName, c ∉ t.toList) : c ∉ suffixText typeName := by
  cases typeName with
  | none => simp [suffixText]
  | some t => simp [suffixText, hc.1, hc.2, h t rfl]

/-! ### Members -/

/-- A visibility is read off its keyword. -/
theorem visibility_keyword (v : Visibility) {rest : List Char}
    (h : ∀ c ∈ rest.head?, isBlank c = false) :
    Line.visibility (v.keyword.toList ++ ' ' :: rest) = (v, rest) := by
  have hgap : Line.gap? (' ' :: rest) = some rest :=
    Line.gap?_cons fun c hc => isGap_eq_false_of_isBlank (h c hc)
  cases v <;>
    simp [Line.visibility, Line.visibility?, Line.keyword?, Line.word?, Visibility.keyword,
      List.isPrefixOf?, hgap]

/-- The line of an attribute without its indentation. -/
def attributeText (a : Attribute) : List Char :=
  a.visibility.keyword.toList ++ ' ' :: (a.name.toList ++ suffixText a.typeName)

theorem toList_attributeLine (a : Attribute) :
    (attributeLine a).toList = ' ' :: ' ' :: attributeText a := by
  show ("  " ++ a.visibility.keyword ++ " " ++ a.name ++ typeSuffix a.typeName).toList = _
  simp [attributeText, toList_typeSuffix]

theorem head_append_suffixText {name : String} (h : ReadableName name) (rest : List Char) :
    ∀ c ∈ (name.toList ++ rest).head?, isBlank c = false := by
  intro c hc
  rw [List.head?_append_of_ne_nil _ (toList_ne_nil h.ne_empty)] at hc
  exact h.head c hc

/-- A name that a type is written behind ends there. -/
theorem head_suffixText (typeName : Option String) :
    ∀ c ∈ (suffixText typeName).head?, Line.isIdentifierChar c = false := by
  cases typeName with
  | none => simp [suffixText]
  | some t =>
      intro c hc
      obtain rfl := Option.some.inj hc
      rfl

theorem attribute?_attributeText {a : Attribute} (h : ReadableAttribute a) :
    Line.attribute? (attributeText a) = some { a with defaultValue := none } := by
  have hrest := head_suffixText a.typeName
  rw [Line.attribute?, attributeText, visibility_keyword _ (head_append_suffixText h.name _)]
  simp only [h.name.identifier? hrest, Option.bind_eq_bind, Option.bind_some,
    String.ofList_toList, trim_suffixText fun t ht => (h.typeName t ht).1]
  cases htype : a.typeName with
  | none => simp [suffixText, ← htype]
  | some t =>
      obtain ⟨hreadable, hequals⟩ := h.typeName t htype
      have hcut : Text.cutFirst? '=' (' ' :: t.toList) = none :=
        Text.cutFirst?_eq_none (by simpa using hequals)
      simp only [suffixText, hcut, hreadable.typeName?_cons]

/-- An attribute is no operation: no parenthesis stands behind its name. -/
theorem operation?_attributeText {a : Attribute} (h : ReadableAttribute a) :
    Line.operation? (attributeText a) = none := by
  have hrest := head_suffixText a.typeName
  rw [Line.operation?, attributeText, visibility_keyword _ (head_append_suffixText h.name _)]
  simp only [h.name.identifier? hrest, Option.bind_eq_bind, Option.bind_some]
  cases a.typeName with
  | none => rfl
  | some t => rfl

/-! ### Parameters -/

theorem toList_parameterText (name : String) (typeName : Option String) :
    (parameterText (.input name typeName)).toList = name.toList ++ suffixText typeName := by
  simp [parameterText, Parameter.name?, Parameter.typeName?, toList_typeSuffix]

theorem PlainInput.trimmed_text {name : String} {typeName : Option String}
    (h : PlainInput name typeName) : Trimmed (name.toList ++ suffixText typeName) := by
  have hname := Text.trimmed_of_trim_eq h.trimmed
  cases typeName with
  | none => simpa [suffixText] using hname
  | some t =>
      have hsuffix := Text.trimmed_of_trim_eq (trim_suffixText fun u hu => (h.typeName u hu).1)
      by_cases hempty : name = ""
      · simpa [hempty] using hsuffix
      · exact Trimmed.append _ hname.1 (toList_ne_nil hempty) hsuffix.2 (by simp [suffixText])

/-- A parameter is cut at its first colon, which stands behind the name. -/
theorem PlainInput.parameter {name : String} {typeName : Option String}
    (h : PlainInput name typeName) :
    Line.parameter (name.toList ++ suffixText typeName) = .input name typeName := by
  cases typeName with
  | none =>
      simp only [suffixText, List.append_nil, Line.parameter, Text.cutFirst?_eq_none h.no_colon,
        String.ofList_toList]
  | some t =>
      simp only [suffixText, Line.parameter, Text.cutFirst?_append_cons h.no_colon, h.trimmed,
        String.ofList_toList, (h.typeName t rfl).1.typeName?_cons]

/-- The text of an input parameter. -/
def inputText (p : Parameter) : List Char := (parameterText p).toList

/-- Whether anything is written of a parameter. -/
def isShown (p : Parameter) : Bool := !(inputText p).isEmpty

/-- An input parameter that can be told apart from others. -/
def PlainParameter (p : Parameter) : Prop :=
  ∃ name typeName, p = .input name typeName ∧ PlainInput name typeName

theorem PlainParameter.trim_inputText {p : Parameter} (h : PlainParameter p) :
    trim (inputText p) = inputText p := by
  obtain ⟨name, typeName, rfl, hinput⟩ := h
  rw [inputText, toList_parameterText, hinput.trimmed_text.trim_eq]

theorem PlainParameter.no_comma {p : Parameter} (h : PlainParameter p) :
    ',' ∉ inputText p := by
  obtain ⟨name, typeName, rfl, hinput⟩ := h
  rw [inputText, toList_parameterText, List.mem_append, not_or]
  exact ⟨hinput.no_comma, not_mem_suffixText (by decide) fun t ht => (hinput.typeName t ht).2⟩

theorem PlainParameter.parameter {p : Parameter} (h : PlainParameter p) :
    Line.parameter (inputText p) = p := by
  obtain ⟨name, typeName, rfl, hinput⟩ := h
  rw [inputText, toList_parameterText, hinput.parameter]

/-- The parameters in a written list are those that something was written of. -/
theorem parameters_intercalate {inputs : List Parameter} (h : ∀ p ∈ inputs, PlainParameter p) :
    Line.parameters ([',', ' '].intercalate (inputs.map inputText)) = inputs.filter isShown := by
  have htrimmed : (([',', ' '].intercalate (inputs.map inputText)).splitOn ',').map trim
      = if inputs = [] then [[]] else inputs.map inputText := by
    cases inputs with
    | nil => rfl
    | cons p rest =>
        have hcommas : ∀ cs ∈ inputText p :: rest.map inputText, ',' ∉ cs := by
          intro cs hcs
          rw [← List.map_cons] at hcs
          obtain ⟨q, hq, rfl⟩ := List.mem_map.1 hcs
          exact (h q hq).no_comma
        rw [List.map_cons, Text.splitOn_intercalate_cons hcommas (by decide), if_neg (by simp)]
        rw [List.map_cons, (h p List.mem_cons_self).trim_inputText, List.map_map]
        congr 1
        rw [List.map_map]
        apply List.map_congr_left
        intro q hq
        rw [Function.comp_apply, Function.comp_apply, Text.trim_cons rfl,
          (h q (List.mem_cons_of_mem _ hq)).trim_inputText]
  rw [Line.parameters, htrimmed]
  cases inputs with
  | nil => rfl
  | cons p rest =>
      rw [if_neg (by simp), List.filter_map, List.map_map]
      refine (List.map_congr_left fun q hq => ?_).trans (List.map_id _)
      exact (h q (List.mem_filter.1 hq).1).parameter

/-! ### Operations -/

/-- The line of an operation without its indentation. -/
def operationText (o : Operation) : List Char :=
  o.visibility.keyword.toList ++ ' ' :: (o.name.toList ++
    '(' :: ([',', ' '].intercalate (o.inputs.map inputText) ++ ')' :: suffixText o.returnType?))

theorem toList_operationLine (o : Operation) :
    (operationLine o).toList = ' ' :: ' ' :: operationText o := by
  show ("  " ++ o.visibility.keyword ++ " " ++ o.name ++ "(" ++
    ", ".intercalate (o.inputs.map parameterText) ++ ")" ++ typeSuffix o.returnType?).toList = _
  simp [operationText, toList_typeSuffix]
  rfl

theorem PlainOperation.plain_inputs {o : Operation} (h : PlainOperation o) :
    ∀ p ∈ o.inputs, PlainParameter p := by
  intro p hp
  obtain ⟨hmem, hinput⟩ := List.mem_filter.1 hp
  cases p with
  | input name typeName => exact ⟨name, typeName, rfl, h.inputs name typeName hmem⟩
  | returning typeName => cases hinput

/-- What is written of an operation: its inputs and its first return type. -/
def writtenOperation (o : Operation) : Operation :=
  { o with parameters := o.inputs ++ o.returnType?.toList.map .returning }

/-- What is read of a written operation: all but the inputs that left nothing in the text. -/
def readOperation (o : Operation) : Operation :=
  { o with parameters := o.inputs.filter isShown ++ o.returnType?.toList.map .returning }

theorem ReadableOperation.readOperation_eq {o : Operation} (h : ReadableOperation o) :
    readOperation o = writtenOperation o := by
  have hshown : o.inputs.filter isShown = o.inputs := by
    refine List.filter_eq_self.2 fun p hp => ?_
    obtain ⟨name, typeName, rfl, -⟩ := h.plain.plain_inputs p hp
    have hname := (h.inputs name typeName (List.mem_filter.1 hp).1).ne_empty
    simp [isShown, inputText, toList_parameterText, hname]
  rw [readOperation, hshown, writtenOperation]

theorem operation?_operationText {o : Operation} (h : PlainOperation o) :
    Line.operation? (operationText o) = some (readOperation o) := by
  have hclose : ')' ∉ suffixText o.returnType? :=
    not_mem_suffixText (by decide) fun t ht => (h.returnType t ht).2
  have hname : ∀ cs, Line.identifier? (o.name.toList ++ '(' :: cs)
      = some (o.name.toList, '(' :: cs) := fun cs => h.name.identifier? (by simp; rfl)
  rw [Line.operation?, operationText, visibility_keyword _ (head_append_suffixText h.name _)]
  simp only [hname, Option.bind_eq_bind, Option.bind_some, String.ofList_toList]
  have hopen : ∀ cs : List Char, Line.word? "(" ('(' :: cs) = some cs := Line.word?_append "("
  simp only [hopen, Option.bind_some, Text.cutLast?_append_cons _ hclose, Line.returnType?,
    trim_suffixText fun t ht => (h.returnType t ht).1, parameters_intercalate h.plain_inputs]
  cases htype : o.returnType? with
  | none => simp [suffixText, readOperation, htype]
  | some t => simp [suffixText, readOperation, htype, (h.returnType t htype).1.typeName?_cons]

/-! ### Lines of a body -/

theorem head_keyword (v : Visibility) : ∀ rest : List Char,
    (v.keyword.toList ++ rest).head? = some 'p' := by
  cases v <;> exact fun _ => by simp [Visibility.keyword]

/-- No line that begins with a visibility is passed over. -/
theorem isIgnored_keyword (v : Visibility) (rest : List Char) :
    Line.isIgnored (v.keyword.toList ++ rest) = false := by
  cases v <;> simp [Line.isIgnored, Line.ignoredStarts, Visibility.keyword, List.isPrefixOf]

theorem getLast_append_suffixText (as : List Char) {typeName : Option String}
    (has : ∀ c ∈ as.getLast?, isBlank c = false) (h : ∀ t ∈ typeName, ReadableType t) :
    ∀ c ∈ (as ++ suffixText typeName).getLast?, isBlank c = false := by
  cases typeName with
  | none => simpa [suffixText] using has
  | some t =>
      have ht := h t rfl
      intro c hc
      refine ht.getLast c ?_
      rwa [suffixText, List.getLast?_append_of_ne_nil _ (by simp), List.getLast?_cons_cons,
        List.getLast?_cons_of_ne_nil (toList_ne_nil ht.ne_empty)] at hc

theorem trim_attributeLine {a : Attribute} (h : ReadableAttribute a) :
    trim (attributeLine a).toList = attributeText a := by
  rw [toList_attributeLine, Text.trim_cons rfl, Text.trim_cons rfl]
  have hlast : ∀ c ∈ a.name.toList.getLast?, isBlank c = false := fun c hc =>
    isBlank_of_isIdentifierChar (h.name.chars c (List.mem_of_getLast? hc))
  refine Trimmed.trim_eq ⟨?_, ?_⟩
  · rw [attributeText, head_keyword]
    intro c hc
    cases hc
    rfl
  · rw [attributeText, List.getLast?_append_of_ne_nil _ (by simp),
      List.getLast?_cons_of_ne_nil (by simp [h.name.ne_empty])]
    exact getLast_append_suffixText _ hlast fun t ht => (h.typeName t ht).1

theorem trim_operationLine {o : Operation} (h : PlainOperation o) :
    trim (operationLine o).toList = operationText o := by
  rw [toList_operationLine, Text.trim_cons rfl, Text.trim_cons rfl]
  refine Trimmed.trim_eq ⟨?_, ?_⟩
  · rw [operationText, head_keyword]
    intro c hc
    cases hc
    rfl
  · have hlast := getLast_append_suffixText [')'] (by simp; rfl)
      fun t ht => (h.returnType t ht).1
    rw [operationText, List.getLast?_append_of_ne_nil _ (by simp),
      List.getLast?_cons_of_ne_nil (by simp), List.getLast?_append_of_ne_nil _ (by simp),
      List.getLast?_cons_of_ne_nil (by simp), List.getLast?_append_of_ne_nil _ (by simp)]
    exact hlast

theorem ReadableName.no_newline {name : String} (h : ReadableName name) :
    '\n' ∉ name.toList := fun hmem => absurd (h.chars _ hmem) (by decide)

theorem no_newline_keyword (v : Visibility) : '\n' ∉ v.keyword.toList := by
  cases v <;> decide

theorem no_newline_suffixText {typeName : Option String} (h : ∀ t ∈ typeName, ReadableType t) :
    '\n' ∉ suffixText typeName :=
  not_mem_suffixText (by decide) fun t ht => (h t ht).no_newline

theorem no_newline_attributeLine {a : Attribute} (h : ReadableAttribute a) :
    '\n' ∉ (attributeLine a).toList := by
  rw [toList_attributeLine, attributeText]
  simp [no_newline_keyword, h.name.no_newline,
    no_newline_suffixText fun t ht => (h.typeName t ht).1]

theorem PlainParameter.no_newline {p : Parameter} (h : PlainParameter p) :
    '\n' ∉ inputText p := by
  obtain ⟨name, typeName, rfl, hinput⟩ := h
  rw [inputText, toList_parameterText, List.mem_append, not_or]
  exact ⟨hinput.no_newline, no_newline_suffixText fun t ht => (hinput.typeName t ht).1⟩

theorem no_newline_operationLine {o : Operation} (h : PlainOperation o) :
    '\n' ∉ (operationLine o).toList := by
  have hinputs : '\n' ∉ [',', ' '].intercalate (o.inputs.map inputText) := by
    refine Text.not_mem_intercalate (by decide) ?_
    intro item hitem
    obtain ⟨p, hp, rfl⟩ := List.mem_map.1 hitem
    exact (h.plain_inputs p hp).no_newline
  rw [toList_operationLine, operationText]
  simp [no_newline_keyword, h.name.no_newline, hinputs,
    no_newline_suffixText fun t ht => (h.returnType t ht).1]

/-- In an open body the line of an attribute is a member. -/
theorem shape_attributeText {a : Attribute} (h : ReadableAttribute a) :
    LineShape.of true (attributeText a) = .member := by
  have hmember : Line.isMember (attributeText a) := by
    simp [Line.isMember, attribute?_attributeText h]
  have hignored : Line.isIgnored (attributeText a) = false := isIgnored_keyword _ _
  simp [LineShape.of, hignored, hmember]

theorem shape_operationText {o : Operation} (h : PlainOperation o) :
    LineShape.of true (operationText o) = .member := by
  have hmember : Line.isMember (operationText o) := by
    simp [Line.isMember, operation?_operationText h]
  have hignored : Line.isIgnored (operationText o) = false := isIgnored_keyword _ _
  simp [LineShape.of, hignored, hmember]

theorem member?_attributeText {a : Attribute} (h : ReadableAttribute a) :
    Line.member? .umlClass (attributeText a)
      = some (.ofAttribute { a with defaultValue := none }) := by
  simp [Line.member?, operation?_attributeText h, attribute?_attributeText h]

theorem member?_operationText {o : Operation} (h : PlainOperation o) :
    Line.member? .umlClass (operationText o) = some (.ofOperation (readOperation o)) := by
  simp [Line.member?, operation?_operationText h]

theorem shape_close : LineShape.of true ['\x7d'] = .close := by
  rfl

/-- Comments and markers are passed over, in a body or not. -/
theorem shape_comment (bodyOpen : Bool) (rest : List Char) :
    LineShape.of bodyOpen ('\'' :: rest) = .ignored := by
  have hignored : Line.isIgnored ('\'' :: rest) := by
    simp [Line.isIgnored, Line.ignoredStarts, List.isPrefixOf]
  simp [LineShape.of, hignored]

theorem shape_marker (bodyOpen : Bool) (rest : List Char) :
    LineShape.of bodyOpen ('@' :: rest) = .ignored := by
  have hignored : Line.isIgnored ('@' :: rest) := by
    simp [Line.isIgnored, Line.ignoredStarts, List.isPrefixOf]
  simp [LineShape.of, hignored]

end Writing

end UmlText
