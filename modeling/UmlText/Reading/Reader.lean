import UmlText.OrderedMap
import UmlText.Reading.Diagnostic
import UmlText.Reading.Line

/-!
# Reading lines

A `Reader` goes through the lines of a text and creates the declared elements in a store. It keeps
the blocks that are open: a stack of containers, one for each package block, and at most one body,
of the entity whose members are being read. A closing brace closes the body if one is open and the
innermost container otherwise. Names and aliases are entered in a table as they are declared, and a
relationship line refers to the entries above it.

What a line is, is decided by `LineShape.of` before anything is done about it: a line that reads as
a member is one whenever a body is open, so `package count: int` in a class is an attribute.
-/

namespace UmlText

universe u

open Text (Span)

/-- What a line is to the reader. -/
inductive LineShape where
  | ignored
  | member
  | package (header : Line.PackageHeader)
  | entity (header : Line.EntityHeader)
  | close
  | relationship (parts : Line.RelationshipLine)
  | unknown
deriving DecidableEq, Repr

/-- The shape of a line, given whether a body is open. -/
def LineShape.of (bodyOpen : Bool) (line : List Char) : LineShape :=
  if Line.isIgnored line then ignored
  else if bodyOpen && Line.isMember line then member
  else
    match Line.packageHeader? line with
    | some header => package header
    | none =>
      match Line.entityHeader? line with
      | some header => entity header
      | none =>
        if Line.isBlockClose line then close
        else if bodyOpen then member
        else
          match Line.relationshipLine? line with
          | some parts => relationship parts
          | none => unknown

/-- The entity whose body is open. -/
inductive BodyOwner where
  | element (id : ElementId) (kind : ElementKind)
  /-- The store refused the entity, so its members are dropped. -/
  | refused
deriving DecidableEq, Repr

/-- An open block of an entity, and the line that opened it. -/
structure OpenBody where
  owner : BodyOwner
  openedAt : Span
deriving DecidableEq, Repr

/-- An open block of a package, the element that owns what it declares, and the line that opened
it. -/
structure OpenContainer where
  id : ElementId
  openedAt : Span
deriving DecidableEq, Repr

/-- The state of reading: the store so far, the open blocks, and what was found. -/
structure Reader (σ : Type u) where
  store : σ
  root : ElementId
  /-- Innermost first. -/
  containers : List OpenContainer := []
  body : Option OpenBody := none
  aliases : OrderedMap String ElementId := {}
  blueprints : List Blueprint := []
  diagnostics : List Diagnostic := []

namespace Reader

variable {σ : Type u} [ModelStore σ]

omit [ModelStore σ] in
/-- The element that owns what the next line declares. -/
def parent (r : Reader σ) : ElementId :=
  match r.containers with
  | [] => r.root
  | container :: _ => container.id

omit [ModelStore σ] in
/-- Adds a diagnostic. -/
def report (r : Reader σ) (span : Span) (issue : Issue) : Reader σ :=
  { r with diagnostics := r.diagnostics ++ [issue.diagnostic span] }

omit [ModelStore σ] in
/-- Enters a name in the table. -/
def register (r : Reader σ) (name : String) (id : ElementId) : Reader σ :=
  { r with aliases := r.aliases.insert name id }

/-- Declares an element under the current parent, or reports that the store refused it. -/
def declare (r : Reader σ) (span : Span) (kind : ElementKind) (name : String)
    (isAbstract : Bool) : Option ElementId × Reader σ :=
  match ModelStore.createElement r.store { kind, parent := r.parent, name, isAbstract } with
  | (.ok id, store) => (some id, { r with store })
  | (.error error, store) =>
    (none, { r with store }.report span (.elementRefused kind name error))

/-- A package is entered under its alias, or under its name if it has none. The block of a refused
package belongs to the parent, so that its closing brace still balances. -/
def openPackage (r : Reader σ) (span : Span) (header : Line.PackageHeader) : Reader σ :=
  let (created, declared) := r.declare span .package header.name false
  let named :=
    match created with
    | some id => declared.register (header.aliasName.getD header.name) id
    | none => declared
  if header.opens then
    { named with containers := ⟨created.getD r.parent, span⟩ :: named.containers }
  else
    named

/-- An entity is entered under its alias, if it has one, and then under its name. -/
def openEntity (r : Reader σ) (span : Span) (header : Line.EntityHeader) : Reader σ :=
  let (created, declared) := r.declare span header.kind header.name header.isAbstract
  let named :=
    match created with
    | some id =>
      let aliased :=
        match header.aliasName with
        | some aliasName => declared.register aliasName id
        | none => declared
      aliased.register header.name id
    | none => declared
  if header.block = .opened then
    let owner : BodyOwner :=
      match created with
      | some id => .element id header.kind
      | none => .refused
    { named with body := some ⟨owner, span⟩ }
  else
    named

omit [ModelStore σ] in
/-- Closes the body if one is open, else the innermost container. -/
def closeBlock (r : Reader σ) (span : Span) : Reader σ :=
  match r.body, r.containers with
  | some _, _ => { r with body := none }
  | none, _ :: outer => { r with containers := outer }
  | none, [] => r.report span .nothingToClose

/-- Gives the owner of the open body the member on this line. -/
def addMember (r : Reader σ) (span : Span) (line : List Char) : Reader σ :=
  match r.body.map OpenBody.owner with
  | some (.element id kind) =>
    match Line.member? kind line with
    | none => r.report span (.unrecognizedMember kind)
    | some member =>
      match ModelStore.addMember r.store id member with
      | (.ok _, store) => { r with store }
      | (.error error, store) => { r with store }.report span (.memberRefused error)
  | some .refused | none => r

/-- The element that a name was last given to, with its kind. -/
def resolve? (r : Reader σ) (name : String) : Option (ElementId × ElementKind) := do
  let id ← r.aliases.get? name
  let kind ← ModelStore.kind? r.store id
  return (id, kind)

omit [ModelStore σ] in
/-- The blueprint of a relationship line between two elements. -/
def blueprint? (parts : Line.RelationshipLine) (left right : ElementId × ElementKind) :
    Option Blueprint :=
  (classifyArrow parts.arrow left.2 right.2 parts.label).map fun meaning =>
    let leftEnd := { meaning.left with multiplicity := parts.leftMultiplicity }
    let rightEnd := { meaning.right with multiplicity := parts.rightMultiplicity }
    if meaning.swapped then
      { kind := meaning.kind, source := right.1, target := left.1, label := meaning.label,
        end1 := rightEnd, end2 := leftEnd }
    else
      { kind := meaning.kind, source := left.1, target := right.1, label := meaning.label,
        end1 := leftEnd, end2 := rightEnd }

/-- Records the blueprint of a relationship line whose operands are declared. -/
def relate (r : Reader σ) (span : Span) (parts : Line.RelationshipLine) : Reader σ :=
  match r.resolve? parts.left, r.resolve? parts.right with
  | none, _ => r.report span (.unresolvedEndpoint parts.left)
  | some _, none => r.report span (.unresolvedEndpoint parts.right)
  | some left, some right =>
    match blueprint? parts left right with
    | none => r.report span (.unsupportedArrow parts.arrow)
    | some blueprint => { r with blueprints := r.blueprints ++ [blueprint] }

/-- Reads one line. -/
def step (r : Reader σ) (line : Text.Line) : Reader σ :=
  match LineShape.of r.body.isSome line.text with
  | .ignored => r
  | .member => r.addMember line.span line.text
  | .package header => r.openPackage line.span header
  | .entity header => r.openEntity line.span header
  | .close => r.closeBlock line.span
  | .relationship parts => r.relate line.span parts
  | .unknown => r.report line.span .unrecognizedLine

/-- Reads lines one after the other. -/
def readLines (r : Reader σ) (lines : List Text.Line) : Reader σ :=
  lines.foldl step r

omit [ModelStore σ] in
/-- The opening lines of the blocks that are still open: the body, then the containers from the
inside out. -/
def openBlocks (r : Reader σ) : List Span :=
  (r.body.map OpenBody.openedAt).toList ++ r.containers.map OpenContainer.openedAt

omit [ModelStore σ] in
/-- Reports every block that the end of the text leaves open, and closes it. -/
def finish (r : Reader σ) (stop : Span) : Reader σ :=
  { r with
    body := none
    containers := []
    diagnostics :=
      r.diagnostics ++ r.openBlocks.map fun opened => (Issue.unclosedBlock opened).diagnostic stop }

/-- Reads a whole text into a store, with `root` as the owner of what is declared outside any
package. -/
def readText (store : σ) (root : ElementId) (source : List Char) : Reader σ :=
  ({ store, root : Reader σ }.readLines (Text.locatedLines source)).finish (Text.endSpan source)

end Reader

end UmlText
