import UmlText.Store
import UmlText.Text.Blank
import UmlText.Text.Search

/-!
# Writing diagram text

`writeText` writes model elements as diagram text. Only classes and associations are written; other
elements of the list are skipped. Documentation, and the value of the tag `AI`, become comments
above an element.
-/

namespace UmlText.Writing

universe u

/-- The first and the last line of a written text. -/
def startMarker : String := "@startuml"

def endMarker : String := "@enduml"

/-- The tag whose value is written as a comment. -/
def commandTag : String := "AI"

/-- Whether a name can stand without quotes. -/
def isPlainName (name : String) : Bool :=
  !name.isEmpty && name.toList.all fun c => c.isAlphanum || c = '_'

/-- A name as one word of a line, in quotes if it is not an identifier. -/
def quoteName (name : String) : String :=
  if isPlainName name then name else s!"\"{name}\""

/-- A colon and a type, or nothing. -/
def typeSuffix (typeName : Option String) : String :=
  typeName.elim "" fun text => s!": {text}"

/-- The comment lines above an element. -/
def commentLines (e : Element) : List String :=
  let documentation := (e.documentation.map fun text =>
    (Text.editorLines text.toList).map fun line => "' " ++ String.ofList line).getD []
  let command := ((e.tag? commandTag).filter fun value => value ≠ "").toList.map fun value =>
    s!"' AI_CMD: {value}"
  documentation ++ command

/-- The line of an attribute. -/
def attributeLine (a : Attribute) : String :=
  s!"  {a.visibility.keyword} {a.name}{typeSuffix a.typeName}"

/-- An input as it stands between parentheses. -/
def parameterText (p : Parameter) : String :=
  p.name?.getD "" ++ typeSuffix p.typeName?

/-- The line of an operation. -/
def operationLine (o : Operation) : String :=
  let parameters := ", ".intercalate (o.inputs.map parameterText)
  s!"  {o.visibility.keyword} {o.name}({parameters}){typeSuffix o.returnType?}"

/-- The lines of a class: a header, its attributes and operations, and a closing brace. -/
def classLines (name : String) (c : Classifier) : List String :=
  [s!"class {quoteName name} \x7b"]
    ++ c.attributes.map attributeLine
    ++ c.operations.map operationLine
    ++ ["\x7d"]

variable {σ : Type u} [ModelStore σ]

/-- The name of an end of an association, or its number if the store does not know it. -/
def endName (store : σ) (id : ElementId) : String :=
  (ModelStore.element? store id).elim id.text fun e => quoteName e.name

/-- The line of an association: both ends with their multiplicities, and its name. -/
def associationLine (store : σ) (name : String) (r : Relationship) : String :=
  let multiplicity (e : RelationshipEnd) : List String :=
    e.spec.multiplicity.toList.map fun text => s!"\"{text}\""
  let parts :=
    [endName store r.end1.reference] ++ multiplicity r.end1 ++ ["--"] ++ multiplicity r.end2
      ++ [endName store r.end2.reference]
  let label := String.ofList (Text.trim name.toList)
  " ".intercalate parts ++ if label = "" then "" else s!" : {label}"

/-- The lines of one element, none if it is not written. -/
def elementLines (store : σ) (e : Element) : List String :=
  match e.body with
  | .umlClass features => commentLines e ++ classLines e.name features
  | .relationship r =>
    if r.kind = .association then commentLines e ++ [associationLine store e.name r] else []
  | _ => []

/-- The lines of a text for the given elements; those the store does not know are skipped. -/
def textLines (store : σ) (elements : List ElementId) : List String :=
  [startMarker]
    ++ (elements.filterMap (ModelStore.element? store)).flatMap (elementLines store)
    ++ [endMarker]

/-- Writes elements as diagram text, without a line feed at the end. -/
def writeText (store : σ) (elements : List ElementId) : String :=
  "\n".intercalate (textLines store elements)

end UmlText.Writing
