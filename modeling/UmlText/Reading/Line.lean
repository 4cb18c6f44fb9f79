import UmlText.Reading.Arrow

/-!
# The line grammar

Diagram text is made of lines, and every recognizer here takes one trimmed line. It returns the
parts of the line, or nothing for a line of another shape:

* `packageHeader?`: `package NAME [as ALIAS] [{]`
* `entityHeader?`: `KEYWORD NAME [as ALIAS] [...] [{]`
* `operation?`: `[VISIBILITY] NAME(PARAMETERS)[: TYPE]`
* `attribute?`: `[VISIBILITY] NAME[: TYPE][= DEFAULT]`
* `enumerationLiteral?`: a bare name
* `relationshipLine?`: `LEFT ["M"] ARROW ["M"] RIGHT [: LABEL]`

The small recognizers read from the front of a text and return what they read with the rest.
-/

namespace UmlText.Line

open Text

/-! ### Words -/

/-- A character of an identifier. -/
def isIdentifierChar (c : Char) : Bool := c.isAlphanum || c = '_'

/-- A character of an arrow. -/
def isArrowChar (c : Char) : Bool := c ∈ ['-', '.', '<', '>', '|', '*', 'o', '+']

/-- A character of an unquoted name. -/
def isNameChar (c : Char) : Bool := !isBlank c && c ∉ ['{', '}', '"']

/-- Reads the longest run of characters in a class, at least one. -/
def run? (p : Char → Bool) (cs : List Char) : Option (List Char × List Char) :=
  let word := cs.takeWhile p
  if word.isEmpty then none else some (word, cs.dropWhile p)

/-- Skips a gap, which may be empty. -/
def skipGap (cs : List Char) : List Char := cs.dropWhile isGap

/-- Skips a gap of at least one character. -/
def gap? (cs : List Char) : Option (List Char) :=
  (run? isGap cs).map Prod.snd

/-- Skips a fixed word. -/
def word? (word : String) (cs : List Char) : Option (List Char) :=
  word.toList.isPrefixOf? cs

/-- Skips a fixed word and the gap behind it. -/
def keyword? (word : String) (cs : List Char) : Option (List Char) :=
  (word? word cs).bind gap?

def identifier? (cs : List Char) : Option (List Char × List Char) :=
  run? isIdentifierChar cs

/-- Reads a non-empty text between double quotes. -/
def quoted? : List Char → Option (List Char × List Char)
  | '"' :: cs => do
    let (inside, rest) ← run? (· ≠ '"') cs
    match rest with
    | '"' :: rest => some (inside, rest)
    | _ => none
  | _ => none

/-- Reads a quoted text, or a name up to white space, a brace or a quote. -/
def name? (cs : List Char) : Option (List Char × List Char) :=
  quoted? cs <|> run? isNameChar cs

/-- Reads a quoted text or an identifier. -/
def endpoint? (cs : List Char) : Option (List Char × List Char) :=
  quoted? cs <|> identifier? cs

/-! ### Lines without content -/

/-- The beginnings of lines without content: comments, `@` markers and rendering directives. -/
def ignoredStarts : List String :=
  ["'", "@", "skinparam", "top to bottom direction", "left to right direction", "hide ", "show ",
    "title "]

/-- Blank lines and lines without content. -/
def isIgnored (line : List Char) : Bool :=
  line.isEmpty || ignoredStarts.any fun start => start.toList.isPrefixOf line

/-- A line that closes a block. -/
def isBlockClose (cs : List Char) : Bool := cs = ['}']

/-! ### Headers -/

/-- The header of a package; `opens` if a block follows. -/
structure PackageHeader where
  name : String
  aliasName : Option String
  opens : Bool
deriving DecidableEq, Repr

/-- What stands behind the name in the header of an entity. -/
inductive Block where
  /-- No brace: the header is the whole declaration. -/
  | absent
  /-- An opening brace: the body is on the following lines. -/
  | opened
  /-- A body opened and closed on the header line. -/
  | inline
deriving DecidableEq, Repr

/-- The header of a class, interface, enumeration, actor or use case. -/
structure EntityHeader where
  kind : ElementKind
  isAbstract : Bool
  name : String
  aliasName : Option String
  block : Block
deriving DecidableEq, Repr

/-- Reads ` as ALIAS`. -/
def aliasName? (cs : List Char) : Option (List Char × List Char) :=
  (gap? cs).bind (keyword? "as") |>.bind identifier?

/-- Reads a name and, if there is one, an alias. -/
def nameAndAlias? (cs : List Char) : Option ((String × Option String) × List Char) := do
  let (name, rest) ← name? cs
  match aliasName? rest with
  | some (aliasName, rest) => some ((String.ofList name, some (String.ofList aliasName)), rest)
  | none => some ((String.ofList name, none), rest)

/-- A package header has no closing brace anywhere. -/
def packageHeader? (line : List Char) : Option PackageHeader := do
  if line.contains '}' then none
  let ((name, aliasName), rest) ← nameAndAlias? (← keyword? "package" line)
  return { name, aliasName, opens := rest.contains '{' }

/-- Reads the keyword of an entity and whether it declares something abstract. -/
def entityKeyword? (cs : List Char) : Option ((ElementKind × Bool) × List Char) :=
  ((keyword? "abstract" cs).bind (keyword? "class")).map ((.umlClass, true), ·)
  <|> (keyword? "abstract" cs).map ((.umlClass, true), ·)
  <|> (keyword? "class" cs).map ((.umlClass, false), ·)
  <|> (keyword? "interface" cs).map ((.interface, false), ·)
  <|> (keyword? "enum" cs).map ((.enumeration, false), ·)
  <|> (keyword? "actor" cs).map ((.actor, false), ·)
  <|> (keyword? "usecase" cs).map ((.useCase, false), ·)

/-- The block that the rest of a header announces. -/
def blockOf (rest : List Char) : Block :=
  match cutFirst? '{' rest with
  | none => .absent
  | some (_, inside) => if inside.contains '}' then .inline else .opened

/-- Reads the header of an entity. -/
def entityHeader? (line : List Char) : Option EntityHeader := do
  let ((kind, isAbstract), rest) ← entityKeyword? line
  let ((name, aliasName), rest) ← nameAndAlias? rest
  return { kind, isAbstract, name, aliasName, block := blockOf rest }

/-! ### Members -/

/-- Reads a marker with an optional gap behind it, or a keyword with a gap behind it. -/
def visibility? : List Char → Option (Visibility × List Char)
  | '+' :: cs => some (.pub, skipGap cs)
  | '-' :: cs => some (.priv, skipGap cs)
  | '#' :: cs => some (.prot, skipGap cs)
  | '~' :: cs => some (.pkg, skipGap cs)
  | cs =>
    (keyword? "public" cs).map (.pub, ·)
    <|> (keyword? "private" cs).map (.priv, ·)
    <|> (keyword? "protected" cs).map (.prot, ·)
    <|> (keyword? "package" cs).map (.pkg, ·)

/-- Reads a visibility, which is public where none is written. -/
def visibility (cs : List Char) : Visibility × List Char :=
  (visibility? cs).getD (.pub, cs)

/-- Spellings that stand for the absence of a type. -/
def absentTypes : List String := ["undefined", "null"]

/-- The type written in a text, if one is. -/
def typeName? (cs : List Char) : Option String :=
  let name := String.ofList (trim cs)
  if name = "" ∨ name ∈ absentTypes then none else some name

/-- One parameter, without surrounding white space. -/
def parameter (cs : List Char) : Parameter :=
  match cutFirst? ':' cs with
  | some (name, typeName) => .input (String.ofList (trim name)) (typeName? typeName)
  | none => .input (String.ofList cs) none

/-- The parameters of a comma-separated list; empty places are skipped. -/
def parameters (cs : List Char) : List Parameter :=
  ((cs.splitOn ',').map trim).filter (!·.isEmpty) |>.map parameter

/-- The return type behind a parameter list; fails if something else stands there. -/
def returnType? (cs : List Char) : Option (Option String) :=
  match trim cs with
  | [] => some none
  | ':' :: typeName => some (typeName? typeName)
  | _ => none

/-- The parameter list of an operation ends at the last closing parenthesis. -/
def operation? (line : List Char) : Option Operation := do
  let (visibility, rest) := visibility line
  let (name, rest) ← identifier? rest
  let (inside, after) ← cutLast? ')' (← word? "(" rest)
  let returnType ← returnType? after
  return {
    name := String.ofList name
    visibility
    parameters := parameters inside ++ returnType.toList.map .returning }

/-- The default value written in a text, if one is. -/
def defaultValue? (cs : List Char) : Option String :=
  let value := String.ofList (trim cs)
  if value = "" then none else some value

/-- Reads an attribute inside a body. -/
def attribute? (line : List Char) : Option Attribute := do
  let (visibility, rest) := visibility line
  let (name, rest) ← identifier? rest
  let name := String.ofList name
  match trim rest with
  | [] => some { name, visibility }
  | ':' :: typed =>
    match cutFirst? '=' typed with
    | some (typeName, value) =>
      some { name, visibility, typeName := typeName? typeName, defaultValue := defaultValue? value }
    | none => some { name, visibility, typeName := typeName? typed }
  | '=' :: value => some { name, visibility, defaultValue := defaultValue? value }
  | _ => none

/-- Reads a literal inside an enumeration. -/
def enumerationLiteral? (line : List Char) : Option String :=
  match identifier? line with
  | some (name, []) => some (String.ofList name)
  | _ => none

/-- Whether a line can be read as an operation or an attribute. -/
def isMember (line : List Char) : Bool :=
  (operation? line).isSome || (attribute? line).isSome

/-- The member that a line gives an element of some kind; the operation where a line can be read
both ways. -/
def member? (kind : ElementKind) (line : List Char) : Option Member :=
  match kind with
  | .enumeration => (enumerationLiteral? line).map .ofLiteral
  | .umlClass | .interface =>
    (operation? line).map .ofOperation <|> (attribute? line).map .ofAttribute
  | .package | .actor | .useCase => none

/-! ### Relationships -/

/-- The parts of a relationship line. -/
structure RelationshipLine where
  left : String
  leftMultiplicity : Option String
  arrow : String
  rightMultiplicity : Option String
  right : String
  label : Option String
deriving DecidableEq, Repr

/-- Reads a run of at least two arrow characters with a double dash or a double dot in it. -/
def arrow? (cs : List Char) : Option (List Char × List Char) := do
  let (token, rest) ← run? isArrowChar cs
  if 2 ≤ token.length && (occursIn ['-', '-'] token || occursIn ['.', '.'] token) then
    some (token, rest)
  else
    none

/-- Reads an optional multiplicity behind the left operand. -/
def leftMultiplicity (cs : List Char) : Option String × List Char :=
  match quoted? (skipGap cs) with
  | some (multiplicity, rest) => (some (String.ofList multiplicity), rest)
  | none => (none, cs)

/-- Reads the right operand. A quoted text is a multiplicity if an operand follows it, and the
operand itself otherwise. -/
def rightOperand? (cs : List Char) : Option ((Option String × String) × List Char) :=
  (do
    let (multiplicity, rest) ← quoted? cs
    let (right, rest) ← endpoint? (skipGap rest)
    return ((some (String.ofList multiplicity), String.ofList right), rest))
  <|> (endpoint? cs).map fun (right, rest) => ((none, String.ofList right), rest)

/-- The label at the end of a relationship line; fails if something else stands there. -/
def label? (cs : List Char) : Option (Option String) :=
  match trim cs with
  | [] => some none
  | ':' :: text =>
    let label := String.ofList (trim text)
    some (if label = "" then none else some label)
  | _ => none

/-- Reads a line with an arrow between two operands. -/
def relationshipLine? (line : List Char) : Option RelationshipLine := do
  let (left, rest) ← endpoint? line
  let (leftMultiplicity, rest) := leftMultiplicity rest
  let (arrow, rest) ← arrow? (skipGap rest)
  let ((rightMultiplicity, right), rest) ← rightOperand? (skipGap rest)
  let label ← label? rest
  return {
    left := String.ofList left
    leftMultiplicity
    arrow := String.ofList arrow
    rightMultiplicity
    right
    label }

end UmlText.Line
