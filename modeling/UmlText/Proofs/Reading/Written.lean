import UmlText.Proofs.Exchange.Headers
import UmlText.Proofs.Reading.Stepping
import UmlText.Proofs.Reading.Trailing

/-!
# UmlText.Proofs.Reading.Written

**Written declarations are read as what they declare.** A header is a keyword, a name, plain or in
quotes, an alias if there is one, and a brace if a block follows. The line that is written for it
has the shape of that header and of no other, whatever the name and the alias are (`shape_package`,
`shape_entity`); and a line that is a member of the kind whose body is open has the shape of a
member (`WrittenMember.shape`).
-/

namespace UmlText

open Text (Trimmed trim isBlank isGap)

namespace Writing

/-! ### Names and aliases -/

instance (name : String) : Decidable (ReadableName name) :=
  decidable_of_iff (name ≠ "" ∧ name.toList.all Line.isIdentifierChar)
    ⟨fun ⟨hne, hchars⟩ => ⟨hne, List.all_eq_true.1 hchars⟩,
      fun ⟨hne, hchars⟩ => ⟨hne, List.all_eq_true.2 hchars⟩⟩

instance (name : String) : Decidable (Quotable name) :=
  decidable_of_iff (name ≠ "" ∧ '"' ∉ name.toList ∧ '\n' ∉ name.toList)
    ⟨fun ⟨hne, hquote, hnewline⟩ => ⟨hne, hquote, hnewline⟩,
      fun ⟨hne, hquote, hnewline⟩ => ⟨hne, hquote, hnewline⟩⟩

/-- A name as it stands in a header: an identifier, or any text in quotes. -/
inductive WrittenName where
  | plain (name : String) (h : ReadableName name)
  | quoted (name : String) (h : Quotable name)

namespace WrittenName

/-- What is named. -/
def name : WrittenName → String
  | plain name _ | quoted name _ => name

/-- What is written for it. -/
def text : WrittenName → List Char
  | plain name _ => name.toList
  | quoted name _ => '"' :: name.toList ++ ['"']

theorem text_ne_nil (n : WrittenName) : n.text ≠ [] := by
  cases n with
  | plain name h => exact toList_ne_nil h.ne_empty
  | quoted name h => simp [text]

/-- A name begins and ends with a quote or with a character of an identifier. -/
theorem trimmed (n : WrittenName) : Trimmed n.text := by
  cases n with
  | plain name h => exact h.trimmed
  | quoted name h =>
      have hlast : ∀ c ∈ ['"'].getLast?, isBlank c = false := by rintro c ⟨⟩; rfl
      exact Trimmed.append ('"' :: name.toList) (by rintro c ⟨⟩; rfl) (by simp) hlast (by simp)

theorem no_newline (n : WrittenName) : '\n' ∉ n.text := by
  cases n with
  | plain name h => exact h.no_newline
  | quoted name h => simp [text, h.no_newline]

theorem not_mem_text {n : WrittenName} {c : Char} (hc : c ≠ '"') (h : c ∉ n.name.toList) :
    c ∉ n.text := by
  cases n with
  | plain name _ => exact h
  | quoted name _ =>
      rw [WrittenName.name] at h
      simp [text, hc, h]

/-- A written name is read up to where it ends. -/
theorem name?_text (n : WrittenName) (rest : List Char)
    (hrest : ∀ c ∈ rest.head?, Line.isNameChar c = false) :
    Line.name? (n.text ++ rest) = some (n.name.toList, rest) := by
  cases n with
  | plain name h => exact h.name? hrest
  | quoted name h => exact h.name? rest

end WrittenName

/-- What a header declares: a name, and an alias if there is one. -/
structure Head where
  name : WrittenName
  aliasName : Option String := none
  readable : ∀ a ∈ aliasName, ReadableName a := by decide

/-- An alias as it stands behind a name. -/
def aliasText : Option String → List Char
  | none => []
  | some a => " as ".toList ++ a.toList

/-- The end of a header line: a brace if a block follows. -/
def blockText (opens : Bool) : List Char := if opens then [' ', '\x7b'] else []

namespace Head

/-- A head as it is written: the name, then the alias. -/
def text (h : Head) : List Char := h.name.text ++ aliasText h.aliasName

theorem trimmed (h : Head) : Trimmed h.text := by
  rw [text]
  cases halias : h.aliasName with
  | none => simpa [aliasText] using h.name.trimmed
  | some a =>
      have ha := h.readable a halias
      refine Trimmed.append _ h.name.trimmed.1 h.name.text_ne_nil ?_ (by simp [aliasText])
      rw [aliasText, List.getLast?_append_of_ne_nil _ (toList_ne_nil ha.ne_empty)]
      exact ha.trimmed.2

theorem no_newline (h : Head) : '\n' ∉ h.text := by
  rw [text]
  cases halias : h.aliasName with
  | none => simpa [aliasText] using h.name.no_newline
  | some a => simp [aliasText, h.name.no_newline, (h.readable a halias).no_newline]

theorem no_brace {h : Head} (hname : '\x7d' ∉ h.name.name.toList) : '\x7d' ∉ h.text := by
  have hnametext := WrittenName.not_mem_text (by decide) hname
  rw [text]
  cases halias : h.aliasName with
  | none => simpa [aliasText] using hnametext
  | some a =>
      have ha : '\x7d' ∉ a.toList := fun hmem => by
        cases (h.readable a halias).chars _ hmem
      simp [aliasText, hnametext, ha]

/-- A name and an alias are read up to the block behind them. -/
theorem nameAndAlias?_text (h : Head) (opens : Bool) :
    Line.nameAndAlias? (h.text ++ blockText opens)
      = some ((h.name.name, h.aliasName), blockText opens) := by
  have hblock : ∀ c ∈ (blockText opens).head?, c = ' ' := by
    cases opens <;> simp [blockText]
  rw [Line.nameAndAlias?, text, List.append_assoc]
  cases halias : h.aliasName with
  | none =>
      have hname := h.name.name?_text (blockText opens) fun c hc => hblock c hc ▸ rfl
      have hnone : Line.aliasName? (blockText opens) = none := by cases opens <;> rfl
      simp [aliasText, hname, hnone]
  | some a =>
      have ha := h.readable a halias
      have hname := h.name.name?_text (aliasText (some a) ++ blockText opens)
        (by rintro c ⟨⟩; rfl)
      have hgap : Line.gap? (aliasText (some a) ++ blockText opens)
          = some ("as".toList ++ ' ' :: (a.toList ++ blockText opens)) :=
        Line.gap?_cons (by rintro c ⟨⟩; rfl)
      have has : Line.keyword? "as" ("as".toList ++ ' ' :: (a.toList ++ blockText opens))
          = some (a.toList ++ blockText opens) := by
        refine Line.keyword?_append "as" fun c hc => ?_
        exact isGap_eq_false_of_isBlank (head_append_suffixText ha _ c hc)
      have hident : Line.identifier? (a.toList ++ blockText opens)
          = some (a.toList, blockText opens) := ha.identifier? fun c hc => hblock c hc ▸ rfl
      have hsome : Line.aliasName? (aliasText (some a) ++ blockText opens)
          = some (a.toList, blockText opens) := by
        rw [Line.aliasName?, hgap, Option.bind_some, has, Option.bind_some, hident]
      simp [hname, hsome]

end Head

/-! ### Header lines -/

/-- A header line that begins with a word. -/
def headerLine (word : String) (head : Head) (opens : Bool) : List Char :=
  word.toList ++ ' ' :: (head.text ++ blockText opens)

theorem no_newline_headerLine {word : String} (hword : '\n' ∉ word.toList) (head : Head)
    (opens : Bool) : '\n' ∉ headerLine word head opens := by
  have hblock : '\n' ∉ blockText opens := by cases opens <;> decide
  simp [headerLine, hword, head.no_newline, hblock]

theorem trim_headerLine {word : String} (hne : word ≠ "")
    (hword : ∀ c ∈ word.toList.head?, isBlank c = false) (head : Head) (opens : Bool) :
    trim (headerLine word head opens) = headerLine word head opens := by
  refine Trimmed.trim_eq (Trimmed.append _ hword (toList_ne_nil hne) ?_ (by simp))
  have hhead : head.text ≠ [] := by simp [Head.text, head.name.text_ne_nil]
  rw [List.getLast?_cons_of_ne_nil (by simp [hhead])]
  cases opens with
  | false => simpa [blockText] using head.trimmed.2
  | true =>
      rw [List.getLast?_append_of_ne_nil _ (by simp [blockText])]
      rintro c ⟨⟩
      rfl

/-- A head begins behind the space in front of it. -/
theorem isGap_head_text (head : Head) (rest : List Char) :
    ∀ c ∈ (head.text ++ rest).head?, isGap c = false := by
  have hhead : head.text ≠ [] := by simp [Head.text, head.name.text_ne_nil]
  rw [List.head?_append_of_ne_nil _ hhead]
  exact fun c hc => isGap_eq_false_of_isBlank (head.trimmed.1 c hc)

/-! ### Packages -/

/-- What the header line of a package says. -/
def packageHeader (head : Head) : Line.PackageHeader :=
  { name := head.name.name, aliasName := head.aliasName, opens := true }

/-- The header of a package opens a block if no closing brace is in its name. -/
theorem shape_package {head : Head} (hname : '\x7d' ∉ head.name.name.toList) :
    LineShape.of false (headerLine "package" head true) = .package (packageHeader head) := by
  have hignored : Line.isIgnored (headerLine "package" head true) = false := by
    simp [headerLine, Line.isIgnored, Line.ignoredStarts, List.isPrefixOf]
  have hbrace : (headerLine "package" head true).contains '\x7d' = false := by
    simp [headerLine, blockText, Head.no_brace hname]
  have hkeyword : Line.keyword? "package" (headerLine "package" head true)
      = some (head.text ++ blockText true) :=
    Line.keyword?_append "package" (isGap_head_text head _)
  have hheader : Line.packageHeader? (headerLine "package" head true)
      = some (packageHeader head) := by
    simp only [Line.packageHeader?, hbrace, hkeyword, Option.bind_eq_bind, Option.bind_some,
      head.nameAndAlias?_text]
    rfl
  simp [LineShape.of, hignored, hheader]

/-! ### Entities -/

/-- The keywords that declare an entity. -/
inductive Keyword where
  | umlClass
  | abstractClass
  | interface
  | enumeration
  | actor
  | useCase
deriving DecidableEq, Repr

namespace Keyword

/-- What is written for a keyword. -/
def text : Keyword → String
  | umlClass => "class"
  | abstractClass => "abstract class"
  | interface => "interface"
  | enumeration => "enum"
  | actor => "actor"
  | useCase => "usecase"

/-- The kind of entity that a keyword declares. -/
def kind : Keyword → ElementKind
  | umlClass | abstractClass => .umlClass
  | interface => .interface
  | enumeration => .enumeration
  | actor => .actor
  | useCase => .useCase

def isAbstract : Keyword → Bool
  | abstractClass => true
  | _ => false

theorem entityKeyword?_text (k : Keyword) {rest : List Char}
    (hrest : ∀ c ∈ rest.head?, isGap c = false) :
    Line.entityKeyword? (k.text.toList ++ ' ' :: rest)
      = some ((k.kind, k.isAbstract), rest) := by
  have hgap := Line.gap?_cons hrest
  cases k with
  | abstractClass =>
      have habstract : Line.keyword? "abstract" (abstractClass.text.toList ++ ' ' :: rest)
          = some ("class".toList ++ ' ' :: rest) :=
        Line.keyword?_append "abstract" (by rintro c ⟨⟩; rfl)
      rw [Line.entityKeyword?, habstract, Option.bind_some, Line.keyword?_append "class" hrest]
      rfl
  | _ =>
      simp [text, Line.entityKeyword?, Line.keyword?, Line.word?, List.isPrefixOf?, hgap, kind,
        isAbstract]

theorem trim_headerLine (k : Keyword) (head : Head) (opens : Bool) :
    trim (headerLine k.text head opens) = headerLine k.text head opens := by
  cases k <;> exact Writing.trim_headerLine (by decide) (by rintro c ⟨⟩; rfl) head opens

theorem no_newline_headerLine (k : Keyword) (head : Head) (opens : Bool) :
    '\n' ∉ headerLine k.text head opens := by
  cases k <;> exact Writing.no_newline_headerLine (by decide) head opens

end Keyword

/-- What the header line of an entity says. -/
def entityHeader (keyword : Keyword) (head : Head) (opens : Bool) : Line.EntityHeader :=
  { kind := keyword.kind
    isAbstract := keyword.isAbstract
    name := head.name.name
    aliasName := head.aliasName
    block := if opens then .opened else .absent }

theorem shape_entity (keyword : Keyword) (head : Head) (opens : Bool) :
    LineShape.of false (headerLine keyword.text head opens)
      = .entity (entityHeader keyword head opens) := by
  have hignored : Line.isIgnored (headerLine keyword.text head opens) = false := by
    cases keyword <;>
      simp [Keyword.text, headerLine, Line.isIgnored, Line.ignoredStarts, List.isPrefixOf]
  -- The word at the front decides: it is neither `package` nor the beginning of a directive.
  have hpackage : Line.packageHeader? (headerLine keyword.text head opens) = none := by
    have hword : Line.keyword? "package" (headerLine keyword.text head opens) = none := by
      cases keyword <;> simp [Keyword.text, headerLine, Line.keyword?, Line.word?,
        List.isPrefixOf?]
    simp only [Line.packageHeader?, hword]
    split <;> rfl
  have hheader : Line.entityHeader? (headerLine keyword.text head opens)
      = some (entityHeader keyword head opens) := by
    have hblock : Line.blockOf (blockText opens) = if opens then .opened else .absent := by
      cases opens <;> rfl
    rw [Line.entityHeader?, headerLine, keyword.entityKeyword?_text (isGap_head_text head _)]
    simp [head.nameAndAlias?_text, hblock, entityHeader]
  simp [LineShape.of, hignored, hpackage, hheader]

/-! ### Members -/

/-- A member as it is written in the body of an entity: a line that reads as one. -/
structure WrittenMember (kind : ElementKind) where
  line : List Char
  member : Member
  reads : Line.member? kind line = some member := by rfl
  not_ignored : Line.isIgnored line = false := by rfl
  no_newline : '\n' ∉ line := by decide

/-- No keyword with a gap behind it is read from an identifier. -/
theorem ReadableName.keyword? {name : String} (h : ReadableName name) (word : String) :
    Line.keyword? word name.toList = none := by
  rw [Line.keyword?]
  cases hrest : Line.word? word name.toList with
  | none => rfl
  | some rest =>
      have hname := List.isPrefixOf?_eq_some_iff_append_eq.1 hrest
      have hgap : Line.run? isGap rest = none := by
        refine Line.run?_eq_none fun c hc => isGap_eq_false_of_isBlank ?_
        refine isBlank_of_isIdentifierChar (h.chars c ?_)
        exact hname ▸ List.mem_append_right _ (List.mem_of_mem_head? hc)
      rw [Option.bind_some, Line.gap?, hgap, Option.map_none]

/-- An identifier reads as an attribute without a type. -/
theorem ReadableName.attribute? {name : String} (h : ReadableName name) :
    Line.attribute? name.toList = some { name } := by
  have hvisibility : Line.visibility? name.toList = none := by
    cases hchars : name.toList with
    | nil => exact absurd hchars (toList_ne_nil h.ne_empty)
    | cons c rest =>
        have hc := h.chars c (hchars ▸ List.mem_cons_self)
        have hmarker : c ∉ ['+', '-', '#', '~'] := by
          intro hmem
          simp only [List.mem_cons, List.not_mem_nil, or_false] at hmem
          rcases hmem with rfl | rfl | rfl | rfl <;> cases hc
        rw [Line.visibility?_of_not_marker hmarker, ← hchars]
        simp only [h.keyword?, Option.map_none]
        rfl
  have hident : Line.identifier? (name.toList ++ []) = some (name.toList, []) :=
    h.identifier? (by simp)
  rw [List.append_nil] at hident
  simp [Line.attribute?, Line.visibility, hvisibility, hident, trim, Text.trimStart, Text.trimEnd]

/-- What is a member of some kind of entity can be read as an operation or an attribute. -/
theorem isMember_of_member? {kind : ElementKind} {line : List Char} {member : Member}
    (h : Line.member? kind line = some member) : Line.isMember line := by
  cases kind with
  | package | actor | useCase => cases h
  | umlClass | interface => exact Line.isMember_of_feature h
  | enumeration =>
      obtain ⟨name, hname, -⟩ := Option.map_eq_some_iff.1 h
      obtain ⟨rfl, hreadable⟩ := Line.eq_of_enumerationLiteral? hname
      simp [Line.isMember, hreadable.attribute?]

/-- In an open body, the trimmed line of a member has the shape of a member. -/
theorem WrittenMember.shape {kind : ElementKind} (m : WrittenMember kind) :
    LineShape.of true (trim m.line) = .member :=
  LineShape.of_true_of_isMember (isMember_of_member? (Line.member?_trim m.reads))
    (Line.isIgnored_trim m.reads m.not_ignored)

end Writing

end UmlText
