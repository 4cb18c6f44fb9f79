import UmlText.Proofs.Reading.Grafting
import UmlText.Proofs.Reading.Written

/-!
# UmlText.Proofs.Reading.Forest

**What a text can declare.** A `Forest` is made of packages, with more of the same in them, and of
entities with or without a body. It has its lines, and it has its elements, numbered in the order of
the text from a first number on. A text spells a forest if it has these lines, up to indentation and
to lines without content; the text that is put together from the lines does (`spelledBy_text`).
-/

namespace UmlText

open Text (trim)
open Writing

/-! ### Members of an element -/

namespace Member

/-- The attribute that a member is, if it is one. -/
def attribute? : Member → Option Attribute
  | ofAttribute a => some a
  | _ => none

/-- The operation that a member is, if it is one. -/
def operation? : Member → Option Operation
  | ofOperation o => some o
  | _ => none

/-- The literal that a member is, if it is one. -/
def literal? : Member → Option String
  | ofLiteral name => some name
  | _ => none

end Member

/-- The attributes and the operations among some members. -/
def Classifier.ofMembers (isAbstract : Bool) (members : List Member) : Classifier :=
  { isAbstract
    attributes := members.filterMap Member.attribute?
    operations := members.filterMap Member.operation? }

/-- The body of an entity that is declared with a keyword and has some members. -/
def Writing.Keyword.body (members : List Member) : Keyword → Body
  | .umlClass => .umlClass (.ofMembers false members)
  | .abstractClass => .umlClass (.ofMembers true members)
  | .interface => .interface (.ofMembers false members)
  | .enumeration => .enumeration (members.filterMap Member.literal?)
  | .actor => .actor
  | .useCase => .useCase

/-- An entity without members has the body with which it is declared. -/
theorem Writing.Keyword.body_nil (k : Keyword) : k.body [] = .empty k.kind k.isAbstract := by
  cases k <;> rfl

theorem Writing.Keyword.kind?_body (k : Keyword) (members : List Member) :
    (k.body members).kind? = some k.kind := by
  cases k <;> rfl

/-- A member that was read for a kind is put behind those that are there. -/
theorem Writing.Keyword.withMember?_body (k : Keyword) (members : List Member) {line : List Char}
    {member : Member} (h : Line.member? k.kind line = some member) :
    (k.body members).withMember? member = some (k.body (members ++ [member])) := by
  have hsome := Line.withMember?_of_member? h (k.kind?_body members)
  cases k <;> cases member <;>
    simp_all [Keyword.body, Body.withMember?, Classifier.ofMembers, Member.attribute?,
      Member.operation?, Member.literal?]

/-! ### Forests -/

/-- Packages and entities, one beside the other and one in the other. -/
inductive Forest where
  | empty
  | package (head : Head) (no_brace : '\x7d' ∉ head.name.name.toList) (inside rest : Forest)
  | entity (keyword : Keyword) (head : Head) (body : Option (List (WrittenMember keyword.kind)))
      (rest : Forest)

namespace Forest

/-- A line with a closing brace. -/
def closingLine : List Char := ['\x7d']

/-- The lines behind the header of an entity. -/
def bodyLines {kind : ElementKind} : Option (List (WrittenMember kind)) → List (List Char)
  | none => []
  | some members => members.map WrittenMember.line ++ [closingLine]

/-- The members that an entity is written with. -/
def members {kind : ElementKind} (body : Option (List (WrittenMember kind))) : List Member :=
  (body.getD []).map WrittenMember.member

/-- The lines of a forest, one for each header, each member and each closing brace. -/
def lines : Forest → List (List Char)
  | empty => []
  | package head _ inside rest =>
    headerLine "package" head true :: inside.lines ++ closingLine :: rest.lines
  | entity keyword head body rest =>
    headerLine keyword.text head body.isSome :: bodyLines body ++ rest.lines

/-- The text of a forest. -/
def text (forest : Forest) : String := String.ofList (['\n'].intercalate forest.lines)

/-- A text that has the lines of a forest, up to indentation and to lines without content. -/
def SpelledBy (forest : Forest) (source : String) : Prop :=
  ((Text.locatedLines source.toList).map Text.Line.text).filter (fun line => !Line.isIgnored line)
    = forest.lines.map trim

/-- The number of packages and entities. -/
def size : Forest → Nat
  | empty => 0
  | package _ _ inside rest => 1 + inside.size + rest.size
  | entity _ _ _ rest => 1 + rest.size

/-- The elements outside all packages, if the first one is numbered `next`. -/
def roots (next : Nat) : Forest → List ElementId
  | empty => []
  | package _ _ inside rest => ⟨next⟩ :: rest.roots (next + 1 + inside.size)
  | entity _ _ _ rest => ⟨next⟩ :: rest.roots (next + 1)

/-- The elements of a forest in the order of the text, numbered from `next` on. Those outside all
packages have the given parent, and all others that of their package. -/
def elements (parent : ElementId) (next : Nat) : Forest → List Element
  | empty => []
  | package head _ inside rest =>
    { id := ⟨next⟩, name := head.name.name, parent := some parent,
      owned := inside.roots (next + 1), body := .package } ::
      (inside.elements ⟨next⟩ (next + 1) ++ rest.elements parent (next + 1 + inside.size))
  | entity keyword head body rest =>
    { id := ⟨next⟩, name := head.name.name, parent := some parent,
      body := keyword.body (members body) } :: rest.elements parent (next + 1)

/-- The table of names behind a forest: a package is entered under its alias or else its name, an
entity under both. -/
def entered (aliases : OrderedMap String ElementId) (next : Nat) :
    Forest → OrderedMap String ElementId
  | empty => aliases
  | package head _ inside rest =>
    rest.entered (inside.entered
      (aliases.insert (head.aliasName.getD head.name.name) ⟨next⟩) (next + 1))
      (next + 1 + inside.size)
  | entity _ head _ rest =>
    rest.entered (Reader.enter aliases head.aliasName head.name.name ⟨next⟩) (next + 1)

theorem length_elements (forest : Forest) (parent : ElementId) (next : Nat) :
    (forest.elements parent next).length = forest.size := by
  induction forest generalizing parent next with
  | empty => rfl
  | package head _ inside rest ihInside ihRest =>
      simp only [elements, size, List.length_cons, List.length_append, ihInside, ihRest]
      omega
  | entity keyword head body rest ih =>
      simp only [elements, size, List.length_cons, ih]
      omega

/-! ### Spelling -/

theorem isIgnored_of_shape (bodyOpen : Bool) {line : List Char}
    (h : LineShape.of bodyOpen line ≠ .ignored) : Line.isIgnored line = false :=
  Bool.eq_false_iff.2 fun hignored => h (LineShape.of_eq_ignored_iff.2 hignored)

/-- A line that can be written in a text and is not passed over there. -/
def Spellable (line : List Char) : Prop := '\n' ∉ line ∧ Line.isIgnored (trim line) = false

theorem spellable_package {head : Head} (hname : '\x7d' ∉ head.name.name.toList) :
    Spellable (headerLine "package" head true) := by
  refine ⟨no_newline_headerLine (by decide) head true, isIgnored_of_shape false ?_⟩
  rw [trim_headerLine (by decide) (by rintro c ⟨⟩; rfl), shape_package hname]
  simp

theorem spellable_entity (keyword : Keyword) (head : Head) (opens : Bool) :
    Spellable (headerLine keyword.text head opens) := by
  refine ⟨keyword.no_newline_headerLine head opens, isIgnored_of_shape false ?_⟩
  rw [keyword.trim_headerLine, shape_entity]
  simp

theorem spellable_closing : Spellable closingLine := ⟨by decide, by decide⟩

theorem spellable_bodyLines {kind : ElementKind} (body : Option (List (WrittenMember kind))) :
    ∀ line ∈ bodyLines body, Spellable line := by
  cases body with
  | none => simp [bodyLines]
  | some members =>
      intro line hline
      rcases List.mem_append.1 hline with hline | hline
      · obtain ⟨m, -, rfl⟩ := List.mem_map.1 hline
        exact ⟨m.no_newline, Line.isIgnored_trim m.reads m.not_ignored⟩
      · obtain rfl := List.mem_singleton.1 hline
        exact spellable_closing

theorem spellable_lines (forest : Forest) : ∀ line ∈ forest.lines, Spellable line := by
  induction forest with
  | empty => simp [lines]
  | package head hname inside rest hinside hrest =>
      intro line hline
      simp only [lines, List.cons_append, List.mem_cons, List.mem_append] at hline
      rcases hline with rfl | hline | rfl | hline
      · exact spellable_package hname
      · exact hinside line hline
      · exact spellable_closing
      · exact hrest line hline
  | entity keyword head body rest hrest =>
      intro line hline
      simp only [lines, List.cons_append, List.mem_cons, List.mem_append] at hline
      rcases hline with rfl | hline | hline
      · exact spellable_entity keyword head body.isSome
      · exact spellable_bodyLines body line hline
      · exact hrest line hline

/-- The text of a forest spells it. -/
theorem spelledBy_text (forest : Forest) : forest.SpelledBy forest.text := by
  rw [SpelledBy, text, String.toList_ofList]
  by_cases hne : forest.lines = []
  · rw [hne]
    rfl
  · have hspellable := forest.spellable_lines
    rw [Text.map_text_locatedLines hne fun line hline => (hspellable line hline).1,
      List.filter_eq_self]
    intro line hline
    obtain ⟨raw, hraw, rfl⟩ := List.mem_map.1 hline
    simp [(hspellable raw hraw).2]

end Forest

end UmlText
