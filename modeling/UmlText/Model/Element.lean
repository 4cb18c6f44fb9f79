/-!
# Model elements

A model is a tree of elements under one project element. An element has a name, documentation,
tags and an owner, and a `Body` with what only its kind has. Classes, interfaces and enumerations
hold their members by value; a relationship refers to its two ends by element id.
-/

namespace UmlText

/-- The number a store gave to an element. -/
structure ElementId where
  index : Nat
deriving DecidableEq, Repr, Inhabited

/-- How an element is named in messages. -/
def ElementId.text (id : ElementId) : String := s!"#{id.index}"

/-- The kinds of element that diagram text declares. -/
inductive ElementKind where
  | package
  | umlClass
  | interface
  | enumeration
  | actor
  | useCase
deriving DecidableEq, Repr, Inhabited

namespace ElementKind

/-- The keyword of a kind, also its name in messages. -/
def keyword : ElementKind → String
  | package => "package"
  | umlClass => "class"
  | interface => "interface"
  | enumeration => "enum"
  | actor => "actor"
  | useCase => "usecase"

/-- The two kinds that take part in use case diagrams. -/
def isParticipant : ElementKind → Bool
  | actor | useCase => true
  | _ => false

/-- The kinds that own attributes and operations. -/
def hasFeatures : ElementKind → Bool
  | umlClass | interface => true
  | _ => false

end ElementKind

/-- Who may use a member. -/
inductive Visibility where
  | pub
  | priv
  | prot
  | pkg
deriving DecidableEq, Repr, Inhabited

namespace Visibility

/-- The visibility written as a one-character marker or as a keyword. -/
def ofMarker? : String → Option Visibility
  | "+" | "public" => some pub
  | "-" | "private" => some priv
  | "#" | "protected" => some prot
  | "~" | "package" => some pkg
  | _ => none

/-- The keyword for a visibility. -/
def keyword : Visibility → String
  | pub => "public"
  | priv => "private"
  | prot => "protected"
  | pkg => "package"

/-- The character for a visibility. -/
def marker : Visibility → Char
  | pub => '+'
  | priv => '-'
  | prot => '#'
  | pkg => '~'

end Visibility

/-- A named value attached to an element. -/
structure Tag where
  name : String
  value : String
deriving DecidableEq, Repr, Inhabited

/-- A named value that every instance of a classifier has. -/
structure Attribute where
  name : String
  typeName : Option String := none
  visibility : Visibility := .pub
  defaultValue : Option String := none
deriving DecidableEq, Repr, Inhabited

/-- A parameter of an operation. The one that stands for the return type has no name. -/
inductive Parameter where
  | input (name : String) (typeName : Option String)
  | returning (typeName : String)
deriving DecidableEq, Repr, Inhabited

namespace Parameter

def name? : Parameter → Option String
  | input name _ => some name
  | returning _ => none

def typeName? : Parameter → Option String
  | input _ typeName => typeName
  | returning typeName => some typeName

/-- Whether a parameter stands for the return type. -/
def isReturn : Parameter → Bool
  | input .. => false
  | returning _ => true

end Parameter

/-- What an instance of a classifier can be asked to do. -/
structure Operation where
  name : String
  visibility : Visibility := .pub
  parameters : List Parameter := []
deriving DecidableEq, Repr, Inhabited

namespace Operation

/-- The parameters a caller passes. -/
def inputs (o : Operation) : List Parameter :=
  o.parameters.filter fun p => !p.isReturn

/-- The type of the first return parameter. -/
def returnType? (o : Operation) : Option String :=
  (o.parameters.find? Parameter.isReturn).bind Parameter.typeName?

end Operation

/-- What a class-like element can be given. -/
inductive Member where
  | ofAttribute (a : Attribute)
  | ofOperation (o : Operation)
  | ofLiteral (name : String)
deriving DecidableEq, Repr, Inhabited

def Member.name : Member → String
  | ofAttribute a => a.name
  | ofOperation o => o.name
  | ofLiteral name => name

/-- The attributes and operations of a class or an interface. -/
structure Classifier where
  isAbstract : Bool := false
  attributes : List Attribute := []
  operations : List Operation := []
deriving DecidableEq, Repr, Inhabited

/-- What a relationship says of its source and its target. -/
inductive RelationshipKind where
  | generalization
  | interfaceRealization
  | association
  | dependency
  | inclusion
  | extension
deriving DecidableEq, Repr, Inhabited

/-- The name of a kind in messages. -/
def RelationshipKind.text : RelationshipKind → String
  | generalization => "generalization"
  | interfaceRealization => "interface realization"
  | association => "association"
  | dependency => "dependency"
  | inclusion => "include"
  | extension => "extend"

/-- The diamond at an end of an association, filled if it is composite. -/
inductive Aggregation where
  | none
  | shared
  | composite
deriving DecidableEq, Repr, Inhabited

/-- What is written at one end of a relationship. -/
structure EndSpec where
  aggregation : Aggregation := .none
  navigable : Bool := false
  multiplicity : Option String := none
deriving DecidableEq, Repr, Inhabited

/-- One end of a relationship: an element and what is written there. -/
structure RelationshipEnd where
  reference : ElementId
  spec : EndSpec := {}
deriving DecidableEq, Repr, Inhabited

/-- A relationship from its first end, the source, to its second, the target. -/
structure Relationship where
  kind : RelationshipKind
  end1 : RelationshipEnd
  end2 : RelationshipEnd
deriving DecidableEq, Repr, Inhabited

/-- The element at the first end. -/
def Relationship.source (r : Relationship) : ElementId := r.end1.reference

/-- The element at the second end. -/
def Relationship.target (r : Relationship) : ElementId := r.end2.reference

/-- A relationship between the same elements with other ends. -/
def Relationship.withEnds (r : Relationship) (end1 end2 : EndSpec) : Relationship :=
  { r with end1 := { r.end1 with spec := end1 }, end2 := { r.end2 with spec := end2 } }

/-- What only one kind of element has. -/
inductive Body where
  | project
  | package
  | umlClass (features : Classifier)
  | interface (features : Classifier)
  | enumeration (literals : List String)
  | actor
  | useCase
  | relationship (relationship : Relationship)
deriving DecidableEq, Repr, Inhabited

namespace Body

/-- The body of a newly declared element. Only a class can be abstract. -/
def empty (kind : ElementKind) (isAbstract : Bool) : Body :=
  match kind with
  | .package => package
  | .umlClass => umlClass { isAbstract }
  | .interface => interface {}
  | .enumeration => enumeration []
  | .actor => actor
  | .useCase => useCase

/-- The kind that diagram text would declare; none for projects and relationships. -/
def kind? : Body → Option ElementKind
  | package => some .package
  | umlClass _ => some .umlClass
  | interface _ => some .interface
  | enumeration _ => some .enumeration
  | actor => some .actor
  | useCase => some .useCase
  | project | relationship _ => none

/-- The features of a class or an interface. -/
def classifier? : Body → Option Classifier
  | umlClass c | interface c => some c
  | _ => none

/-- The literals of an enumeration. -/
def literals? : Body → Option (List String)
  | enumeration literals => some literals
  | _ => none

/-- The relationship that a body is, if it is one. -/
def relationship? : Body → Option Relationship
  | relationship r => some r
  | _ => none

/-- The number of attributes, operations and literals. -/
def memberCount : Body → Nat
  | umlClass c | interface c => c.attributes.length + c.operations.length
  | enumeration literals => literals.length
  | _ => 0

/-- Changes what a relationship is. -/
def mapRelationship (f : Relationship → Relationship) : Body → Body
  | relationship r => relationship (f r)
  | body => body

/-- The body with one more member; none where this kind of element has no such member. -/
def withMember? : Body → Member → Option Body
  | umlClass c, .ofAttribute a => some (umlClass { c with attributes := c.attributes ++ [a] })
  | umlClass c, .ofOperation o => some (umlClass { c with operations := c.operations ++ [o] })
  | interface c, .ofAttribute a => some (interface { c with attributes := c.attributes ++ [a] })
  | interface c, .ofOperation o => some (interface { c with operations := c.operations ++ [o] })
  | enumeration literals, .ofLiteral name => some (enumeration (literals ++ [name]))
  | _, _ => none

end Body

/-- An element of a model. Only the project has no parent. -/
structure Element where
  id : ElementId
  name : String
  documentation : Option String := none
  tags : List Tag := []
  parent : Option ElementId := none
  owned : List ElementId := []
  body : Body
deriving DecidableEq, Repr, Inhabited

namespace Element

def kind? (e : Element) : Option ElementKind := e.body.kind?

/-- The value of the first tag named `name`. -/
def tag? (e : Element) (name : String) : Option String :=
  (e.tags.find? fun t => t.name = name).map Tag.value

def memberCount (e : Element) : Nat := e.body.memberCount

/-! ### Edits -/

def rename (e : Element) (name : String) : Element := { e with name }

def document (e : Element) (documentation : Option String) : Element := { e with documentation }

/-- Adds a tag behind those that are there. -/
def addTag (e : Element) (tag : Tag) : Element := { e with tags := e.tags ++ [tag] }

/-- Sets what is written at the ends of a relationship. -/
def setEnds (e : Element) (end1 end2 : EndSpec) : Element :=
  { e with body := e.body.mapRelationship (·.withEnds end1 end2) }

end Element

end UmlText
