import UmlText.Import

/-!
# Interned names

A table of names can be keyed by symbols that stand for the names. An interner gives every name one
symbol, which the name keeps; it lives as long as the process and is shared by everything that is
read in it, so it also knows the names of other texts. Declaring a name interns it; looking a name
up does not, so a name that was never declared has no symbol and is not looked for in the table.

`Reader` keys its table by the names themselves. An `InternedReader` does the same work with a
table that is keyed by symbols.
-/

namespace UmlText

universe u

/-- Names and the symbols that stand for them. -/
class Interner (ι : Type) (κ : outParam Type) where
  /-- The symbol of a name; a name that has none gets a new one. -/
  intern : ι → String → κ × ι
  /-- The symbol of a name that has one. -/
  lookup? : ι → String → Option κ
  /-- The name that a symbol stands for. -/
  nameOf? : ι → κ → Option String

/-- What is relied on of an interner: symbols stand for names one to one, and an interner that gives
a name a symbol forgets none of those it gave before. -/
class LawfulInterner (ι : Type) (κ : outParam Type) [Interner ι κ] : Prop where
  lookup?_eq_some_iff : ∀ (names : ι) (name : String) (symbol : κ),
    Interner.lookup? names name = some symbol ↔ Interner.nameOf? names symbol = some name
  nameOf?_intern_self : ∀ (names : ι) (name : String),
    Interner.nameOf? (Interner.intern names name).2 (Interner.intern names name).1 = some name
  nameOf?_intern : ∀ (names : ι) (name : String) (symbol : κ) (other : String),
    Interner.nameOf? names symbol = some other →
      Interner.nameOf? (Interner.intern names name).2 symbol = some other

/-- An interner that lists the names and uses their places as symbols. -/
structure NameList where
  names : List String := []
  nodup : names.Nodup := by simp

namespace NameList

def intern (l : NameList) (name : String) : Nat × NameList :=
  if h : name ∈ l.names then
    (l.names.idxOf name, l)
  else
    (l.names.length, ⟨l.names ++ [name], List.nodup_append.2 ⟨l.nodup, by simp, by grind⟩⟩)

instance : Interner NameList Nat where
  intern := intern
  lookup? l name := if name ∈ l.names then some (l.names.idxOf name) else none
  nameOf? l symbol := l.names[symbol]?

end NameList

/-- The state of reading with interned names. The reader inside has everything but the table; its
own table stays empty. -/
structure InternedReader (σ : Type u) (ι κ : Type) where
  reader : Reader σ
  names : ι
  table : OrderedMap κ ElementId := {}

namespace InternedReader

variable {σ : Type u} {ι κ : Type} [ModelStore σ] [Interner ι κ] [DecidableEq κ]

omit [ModelStore σ] in
def register (r : InternedReader σ ι κ) (name : String) (id : ElementId) : InternedReader σ ι κ :=
  let (symbol, names) := Interner.intern r.names name
  { r with names, table := r.table.insert symbol id }

omit [ModelStore σ] [Interner ι κ] [DecidableEq κ] in
def report (r : InternedReader σ ι κ) (span : Text.Span) (issue : Issue) : InternedReader σ ι κ :=
  { r with reader := r.reader.report span issue }

/-- As `Reader.openPackage`. -/
def openPackage (r : InternedReader σ ι κ) (span : Text.Span) (header : Line.PackageHeader) :
    InternedReader σ ι κ :=
  let (created, reader) := r.reader.declare span .package header.name false
  let declared := { r with reader }
  let named :=
    match created with
    | some id => declared.register (header.aliasName.getD header.name) id
    | none => declared
  if header.opens then
    let containers := ⟨created.getD r.reader.parent, span⟩ :: named.reader.containers
    { named with reader := { named.reader with containers } }
  else
    named

/-- As `Reader.openEntity`. -/
def openEntity (r : InternedReader σ ι κ) (span : Text.Span) (header : Line.EntityHeader) :
    InternedReader σ ι κ :=
  let (created, reader) := r.reader.declare span header.kind header.name header.isAbstract
  let declared := { r with reader }
  let named :=
    match created with
    | some id =>
      let aliased :=
        match header.aliasName with
        | some aliasName => declared.register aliasName id
        | none => declared
      aliased.register header.name id
    | none => declared
  if header.block = .opened then
    let owner : BodyOwner :=
      match created with
      | some id => .element id header.kind
      | none => .refused
    { named with reader := { named.reader with body := some ⟨owner, span⟩ } }
  else
    named

/-- The element that a name was last given to, with its kind. A name without a symbol was given to
none. -/
def resolve? (r : InternedReader σ ι κ) (name : String) : Option (ElementId × ElementKind) := do
  let symbol ← Interner.lookup? r.names name
  let id ← r.table.get? symbol
  let kind ← ModelStore.kind? r.reader.store id
  return (id, kind)

/-- As `Reader.relate`. -/
def relate (r : InternedReader σ ι κ) (span : Text.Span) (parts : Line.RelationshipLine) :
    InternedReader σ ι κ :=
  match r.resolve? parts.left, r.resolve? parts.right with
  | none, _ => r.report span (.unresolvedEndpoint parts.left)
  | some _, none => r.report span (.unresolvedEndpoint parts.right)
  | some left, some right =>
    match Reader.blueprint? parts left right with
    | none => r.report span (.unsupportedArrow parts.arrow)
    | some blueprint =>
      { r with reader := { r.reader with blueprints := r.reader.blueprints ++ [blueprint] } }

/-- Reads one line. -/
def step (r : InternedReader σ ι κ) (line : Text.Line) : InternedReader σ ι κ :=
  match LineShape.of r.reader.body.isSome line.text with
  | .ignored => r
  | .member => { r with reader := r.reader.addMember line.span line.text }
  | .package header => r.openPackage line.span header
  | .entity header => r.openEntity line.span header
  | .close => { r with reader := r.reader.closeBlock line.span }
  | .relationship parts => r.relate line.span parts
  | .unknown => r.report line.span .unrecognizedLine

def readLines (r : InternedReader σ ι κ) (lines : List Text.Line) : InternedReader σ ι κ :=
  lines.foldl step r

/-- Reads a whole text. -/
def readText (names : ι) (store : σ) (root : ElementId) (source : List Char) :
    InternedReader σ ι κ :=
  let start : InternedReader σ ι κ := { reader := { store, root }, names }
  let r := start.readLines (Text.locatedLines source)
  { r with reader := r.reader.finish (Text.endSpan source) }

omit [ModelStore σ] [DecidableEq κ] in
/-- The table under the names that its symbols stand for. -/
def spelled (r : InternedReader σ ι κ) : OrderedMap String ElementId :=
  ⟨r.table.entries.map fun x => ((Interner.nameOf? r.names x.1).getD "", x.2)⟩

end InternedReader

variable {σ : Type u} {ι κ : Type} [ModelStore σ] [Interner ι κ] [DecidableEq κ]

/-- As `parse`; the names that are declared are interned. -/
def parseInterned (names : ι) (store : σ) (root : ElementId) (source : String) :
    (Parsed × σ) × ι :=
  let r := InternedReader.readText names store root source.toList
  (({ diagramKind := detectDiagramKind source
      aliases := r.spelled
      blueprints := r.reader.blueprints
      diagnostics := r.reader.diagnostics }, r.reader.store), r.names)

/-- As `importText`; the names that are declared are interned. -/
def importInterned [ViewStore σ] (names : ι) (store : σ) (source : String)
    (settings : LayoutSettings) : (ImportOutcome × σ) × ι :=
  let rootParent := rootParent store
  let (diagram, store) := diagramForImport store (detectDiagramKind source) rootParent
  let ((parsed, store), names) := parseInterned names store rootParent source
  let (report, store) :=
    match diagram with
    | some diagram => layout store diagram parsed settings
    | none => (.unplaced parsed, store)
  (({ diagram, rootParent, parsed, layout := report }, ViewStore.repaint store), names)

end UmlText
